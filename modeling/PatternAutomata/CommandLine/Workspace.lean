import PatternAutomata.CommandLine.Program

/-! # Files to run the program on

A path describes a way through directories, by the names between its slashes. The way starts at the
top of all directories if the path begins with a slash, and else wherever one is. A slash at the end
of a path says that the way ends at a directory. Paths and the names in them have a greatest size.

A workspace is a tree of files and directories, one of which the program works in, the standard
input, and what has been written to the two output streams. A path is followed name by name: what is
left must be a directory, a single dot stays where it is, and two dots lead one directory up. A file
is written where a path leads to, whether or not there was one, but a path that ends in a slash can
only stand for a directory.
-/

namespace PatternAutomata.CommandLine

/-- A path, taken apart at its slashes. -/
structure Route where
  /-- Whether the way starts at the top. -/
  fromTop : Bool
  names : List String
  /-- Whether a slash says that the way ends at a directory. -/
  toDirectory : Bool
deriving DecidableEq, Repr

namespace Route

def maxPathSize : Nat := 4095

def maxNameSize : Nat := 255

def ofPath (path : String) : Except HostError Route :=
  if path = "" then .error .noSuchFile
  else if maxPathSize < path.utf8ByteSize then .error .nameTooLong
  else
    let parts := (path.toList.splitOn '/').map String.ofList
    .ok {
      fromTop := parts.head? == some ""
      names := parts.filter (· != "")
      toDirectory := parts.getLast? == some "" }

/-- The names to follow. Only a directory has a way to itself, which is a single dot, so a slash at
the end is the same as that step. -/
def steps (route : Route) : List String :=
  if route.toDirectory then route.names ++ ["."] else route.names

/-- The names to follow to what holds the end of the route. -/
def stepsToParent (route : Route) : List String := route.names.dropLast ++ ["."]

end Route

/-- The names that lead from the top to a place. -/
abbrev Place := List String

inductive Node
  | file (content : ByteArray)
  | directory
  /-- A device that is always empty and forgets what is written to it. -/
  | sink
deriving Inhabited

/-- A tree of files with the streams of the program that runs in one of its directories. Of several
nodes at one place the first counts. -/
structure Workspace where
  /-- The directory that the program works in. -/
  home : Place := []
  nodes : List (Place × Node) := []
  input : ByteArray := .empty
  output : String := ""
  errors : String := ""
deriving Inhabited

namespace Workspace

/-- What stands at a place. The working directory and all above it are directories. -/
def node? (workspace : Workspace) (place : Place) : Option Node :=
  if place.isPrefixOf workspace.home then some .directory
  else (workspace.nodes.find? fun entry => entry.1 == place).map Prod.snd

def put (workspace : Workspace) (place : Place) (node : Node) : Workspace :=
  { workspace with nodes := (place, node) :: workspace.nodes }

theorem node?_put {workspace : Workspace} {place other : Place} {node : Node}
    (apart : ¬ place <+: workspace.home) :
    (workspace.put place node).node? other =
      if place = other then some node else workspace.node? other := by
  by_cases same : place = other
  · subst same
    simp [node?, put, apart]
  · simp [node?, put, same]

/-- Where a name leads from a directory; from the top, two dots lead nowhere else. -/
def step (directory : Place) (name : String) : Except HostError Place :=
  if name = "." then .ok directory
  else if name = ".." then .ok directory.dropLast
  else if Route.maxNameSize < name.utf8ByteSize then .error .nameTooLong
  else .ok (directory ++ [name])

/-- Follows names from a place. There need not be anything where they end. -/
def follow (workspace : Workspace) (place : Place) : List String → Except HostError Place
  | [] => .ok place
  | name :: rest => do
    match workspace.node? place with
    | some .directory => follow workspace (← step place name) rest
    | some (.file _) | some .sink => .error .notADirectory
    | none => .error .noSuchFile

def start (workspace : Workspace) (route : Route) : Place :=
  if route.fromTop then [] else workspace.home

def readFile (path : String) (workspace : Workspace) : Except HostError ByteArray := do
  let route ← Route.ofPath path
  match workspace.node? (← workspace.follow (workspace.start route) route.steps) with
  | some (.file content) => .ok content
  | some .sink => .ok .empty
  | some .directory => .error .isADirectory
  | none => .error .noSuchFile

/-- Makes what stands at a path a file with a given content. -/
def replaceFile (path : String) (content : ByteArray) (workspace : Workspace) :
    Except HostError Workspace := do
  let route ← Route.ofPath path
  if route.toDirectory then
    let _ ← workspace.follow (workspace.start route) route.stepsToParent
    .error .isADirectory
  else
    let place ← workspace.follow (workspace.start route) route.names
    match workspace.node? place with
    | some .directory => .error .isADirectory
    | some .sink => .ok workspace
    | some (.file _) | none => .ok (workspace.put place (.file content))

/-- The lines of a stream, with their ends; the last line may lack its end. -/
def linesOf : List UInt8 → List (List UInt8)
  | [] => []
  | byte :: rest =>
    if byte = 10 then [byte] :: linesOf rest
    else
      match linesOf rest with
      | [] => [[byte]]
      | line :: later => (byte :: line) :: later

/-- Hands lines to a consumer until one fails. -/
def consumeEach {m : Type → Type} [Monad m] (consume : ByteArray → m (Except Failure Unit)) :
    List (List UInt8) → m (Except Failure Unit)
  | [] => return .ok ()
  | line :: rest => do
    match ← consume ⟨line.toArray⟩ with
    | .ok () => consumeEach consume rest
    | .error failure => return .error failure

end Workspace

instance : Host (StateM Workspace) where
  readFile path := return (← get).readFile path
  createFile path := do
    match (← get).replaceFile path .empty with
    | .ok workspace => do
      set workspace
      return .ok ()
    | .error cause => return .error cause
  writeFile path text := do
    match (← get).replaceFile path text.toUTF8 with
    | .ok workspace => do
      set workspace
      return .ok ()
    | .error cause => return .error cause
  print text := modify fun workspace => { workspace with output := workspace.output ++ text }
  printError text := modify fun workspace => { workspace with errors := workspace.errors ++ text }
  consumeLines consume := do
    let lines := Workspace.linesOf (← get).input.toList
    modify fun workspace => { workspace with input := .empty }
    Workspace.consumeEach consume lines

end PatternAutomata.CommandLine
