import PatternAutomata.Assembly
import PatternAutomata.BuildLog
import PatternAutomata.CommandLine.Program
import PatternAutomata.CommandLine.Workspace
import PatternAutomata.Compile
import PatternAutomata.Description.Basic
import PatternAutomata.Description.Listing
import PatternAutomata.Description.Offence
import PatternAutomata.Description.OnePass
import PatternAutomata.Description.Spelling
import PatternAutomata.Description.Writer
import PatternAutomata.Dfa.Basic
import PatternAutomata.Dfa.Matching
import PatternAutomata.Dfa.Merging
import PatternAutomata.Dfa.Occurrence
import PatternAutomata.Dfa.Separation
import PatternAutomata.Dfa.SubsetConstruction
import PatternAutomata.Dfa.TableReading
import PatternAutomata.Dfa.Walk
import PatternAutomata.Dfa.Worklist
import PatternAutomata.Error
import PatternAutomata.Exploration
import PatternAutomata.Main
import PatternAutomata.Nfa.Basic
import PatternAutomata.Nfa.Path
import PatternAutomata.Nfa.Simulation
import PatternAutomata.Pattern.Builder
import PatternAutomata.Pattern.Census
import PatternAutomata.Pattern.Grammar
import PatternAutomata.Pattern.ScopeStack
import PatternAutomata.Pattern.Token
import PatternAutomata.Proofs.Assembly
import PatternAutomata.Proofs.CommandLine.Batch
import PatternAutomata.Proofs.CommandLine.BatchRun
import PatternAutomata.Proofs.CommandLine.Files
import PatternAutomata.Proofs.Compile
import PatternAutomata.Proofs.Description.Copy
import PatternAutomata.Proofs.Description.Drawing
import PatternAutomata.Proofs.Description.Offences
import PatternAutomata.Proofs.Description.OnePass
import PatternAutomata.Proofs.Description.Presentation
import PatternAutomata.Proofs.Description.Reading
import PatternAutomata.Proofs.Description.Recognition
import PatternAutomata.Proofs.Description.Renumbering
import PatternAutomata.Proofs.Description.RoundTrip
import PatternAutomata.Proofs.Description.Spelling
import PatternAutomata.Proofs.Dfa.AccessibleSubsets
import PatternAutomata.Proofs.Dfa.Acyclic
import PatternAutomata.Proofs.Dfa.Agreement
import PatternAutomata.Proofs.Dfa.Canonical
import PatternAutomata.Proofs.Dfa.Classes
import PatternAutomata.Proofs.Dfa.Determinized
import PatternAutomata.Proofs.Dfa.Fixpoint
import PatternAutomata.Proofs.Dfa.Interning
import PatternAutomata.Proofs.Dfa.Liveness
import PatternAutomata.Proofs.Dfa.Merging
import PatternAutomata.Proofs.Dfa.MergingLog
import PatternAutomata.Proofs.Dfa.Minimized
import PatternAutomata.Proofs.Dfa.Occurrences
import PatternAutomata.Proofs.Dfa.Quotient
import PatternAutomata.Proofs.Dfa.Rounds
import PatternAutomata.Proofs.Dfa.Running
import PatternAutomata.Proofs.Dfa.Searching
import PatternAutomata.Proofs.Dfa.SubsetAutomaton
import PatternAutomata.Proofs.Dfa.TableDecoding
import PatternAutomata.Proofs.Dfa.TableReading
import PatternAutomata.Proofs.Dfa.Transitions
import PatternAutomata.Proofs.Dfa.Worklist
import PatternAutomata.Proofs.Exploration
import PatternAutomata.Proofs.Lists
import PatternAutomata.Proofs.Nfa.Acceptance
import PatternAutomata.Proofs.Nfa.Accessible
import PatternAutomata.Proofs.Nfa.Alphabet
import PatternAutomata.Proofs.Nfa.Closing
import PatternAutomata.Proofs.Nfa.Closure
import PatternAutomata.Proofs.Nfa.Edges
import PatternAutomata.Proofs.Nfa.Looped
import PatternAutomata.Proofs.Pattern.Census
import PatternAutomata.Proofs.Pattern.Completion
import PatternAutomata.Proofs.Pattern.Construction
import PatternAutomata.Proofs.Pattern.FirstOffence
import PatternAutomata.Proofs.Pattern.Fragment
import PatternAutomata.Proofs.Pattern.Growth
import PatternAutomata.Proofs.Pattern.Isolation
import PatternAutomata.Proofs.Pattern.Language
import PatternAutomata.Proofs.Pattern.Letters
import PatternAutomata.Proofs.Pattern.Nesting
import PatternAutomata.Proofs.Pattern.Offences
import PatternAutomata.Proofs.Pattern.Recognition
import PatternAutomata.Proofs.Pattern.ScopeStack
import PatternAutomata.Proofs.Pattern.Shape
import PatternAutomata.Proofs.Pattern.Spelling
import PatternAutomata.Proofs.Pattern.Tokens
import PatternAutomata.Proofs.Smallest
import PatternAutomata.Proofs.SortedMap
import PatternAutomata.Proofs.SortedSet
import PatternAutomata.Proofs.Stages
import PatternAutomata.Proofs.Text.Layout
import PatternAutomata.Proofs.Text.Line
import PatternAutomata.Proofs.Text.Numeral
import PatternAutomata.Proofs.Totality
import PatternAutomata.Proofs.Trace
import PatternAutomata.SortedMap
import PatternAutomata.SortedSet
import PatternAutomata.State
import PatternAutomata.StateTable
import PatternAutomata.Symbol
import PatternAutomata.Text.Line
import PatternAutomata.Text.Quoted
import PatternAutomata.Text.Unprintable
