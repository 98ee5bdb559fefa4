import DocHarvest.Path

/-! A tree of files, seen from its root, and the directory in it that a program works in. A location
is the list of names from the root down to a file or directory; a path is looked up piece by piece, from
the root if it is absolute and from the working directory if it is not. -/

namespace DocHarvest

inductive Node where
  | dir
  | file (content : ByteArray)

instance : DecidableEq Node
  | .dir, .dir => isTrue rfl
  | .dir, .file _ => isFalse nofun
  | .file _, .dir => isFalse nofun
  | .file a, .file b =>
    match ByteArray.instDecidableEq a b with
    | isTrue h => isTrue (congrArg Node.file h)
    | isFalse h => isFalse fun he => h (Node.file.inj he)

structure FileTree where
  entries : List (List String × Node)
  workingDir : List String
deriving DecidableEq

namespace FileTree

/-- A working directory and those around it, and nothing else. -/
def startingIn (workingDir : List String) : FileTree where
  entries := (List.range workingDir.length).map fun i => (workingDir.take (i + 1), .dir)
  workingDir := workingDir

/-- The root and a working directory in it. -/
def empty : FileTree :=
  startingIn ["work"]

def node? (t : FileTree) (location : List String) : Option Node :=
  if location.isEmpty then some .dir
  else (t.entries.find? (·.1 == location)).map (·.2)

def isDir (t : FileTree) (location : List String) : Bool :=
  t.node? location == some .dir

def putEntry (location : List String) (node : Node) :
    List (List String × Node) → List (List String × Node)
  | [] => [(location, node)]
  | e :: es => if e.1 == location then (location, node) :: es else e :: putEntry location node es

def put (t : FileTree) (location : List String) (node : Node) : FileTree :=
  { t with entries := putEntry location node t.entries }

/-- The directory above the root is the root. -/
def enter? (t : FileTree) (location : List String) (piece : String) : Option (List String) :=
  if piece.isEmpty || piece == "." then some location
  else if piece == ".." then some location.dropLast
  else if (t.node? (location ++ [piece])).isSome then some (location ++ [piece])
  else none

def follow? (t : FileTree) (location : List String) : List String → Option (List String)
  | [] => some location
  | piece :: pieces =>
    if t.isDir location then (t.enter? location piece).bind (t.follow? · pieces) else none

/-- Where a path starts. -/
def origin (t : FileTree) (path : String) : List String :=
  if Path.isAbsolute path then [] else t.workingDir

def locate? (t : FileTree) (path : String) : Option (List String) :=
  if path.isEmpty then none else t.follow? (t.origin path) (Path.pieces path)

def isDirAt (t : FileTree) (path : String) : Bool :=
  (t.locate? path).any t.isDir

def read? (t : FileTree) (path : String) : Option ByteArray :=
  match (t.locate? path).bind t.node? with
  | some (.file content) => some content
  | _ => none

def isFileAt (t : FileTree) (path : String) : Bool :=
  (t.read? path).isSome

/-- Locations relative to a directory of all that is below it, each before what it holds. -/
def below (t : FileTree) (location : List String) : List (List String) :=
  let relative := t.entries.filterMap fun e => location.isPrefixOf? e.1
  (relative.filter (!·.isEmpty)).mergeSort fun a b => !(b < a)

def children (t : FileTree) (location : List String) : List String :=
  (t.below location).filterMap fun
    | [name] => some name
    | _ => none

/-- Only dots are left of a path, and at least one. -/
def onlyDots (pieces : List String) : Bool :=
  pieces.contains "." && pieces.all fun piece => piece.isEmpty || piece == "."

/-- Goes down piece by piece and makes the directories that are missing, up to the first that cannot be
made. A directory that the path names with dots after it must be there already. -/
def makeDirs (t : FileTree) (location : List String) :
    List String → FileTree × Option (List String)
  | [] => (t, if t.isDir location then some location else none)
  | piece :: pieces =>
    if t.isDir location then
      match t.enter? location piece with
      | some next => t.makeDirs next pieces
      | none =>
        if onlyDots pieces then (t, none)
        else (t.put (location ++ [piece]) .dir).makeDirs (location ++ [piece]) pieces
    else (t, none)

/-- Makes a directory and those around it, unless they are there. -/
def makeDirAt (t : FileTree) (path : String) : FileTree × Option (List String) :=
  if path.isEmpty then (t, none) else t.makeDirs (t.origin path) (Path.pieces path)

/-- Writes a file into a directory, unless a directory stands in its place. -/
def write? (t : FileTree) (dir : List String) (name : String) (content : ByteArray) :
    Option FileTree :=
  if t.isDir (dir ++ [name]) then none else some (t.put (dir ++ [name]) (.file content))

/-- Adds a node with the directories around it, unless the path names the directory that it starts from
or leads through a file. -/
def add (t : FileTree) (path : String) (node : Node) : FileTree :=
  let location := (Path.pieces path).filter fun p => !p.isEmpty && p != "."
  match location.getLast?, t.makeDirs (t.origin path) location.dropLast with
  | some name, (t', some dir) => t'.put (dir ++ [name]) node
  | _, _ => t

/-- The files below a location that a tree lacks or holds with other content, by path from there. -/
def changesBelow (before after : FileTree) (location : List String) : List (String × ByteArray) :=
  let changed := after.entries.filterMap fun e =>
    match location.isPrefixOf? e.1, e.2 with
    | some names, .file content =>
      if before.node? e.1 == some (.file content) then none
      else some (String.intercalate "/" names, content)
    | _, _ => none
  changed.mergeSort fun a b => !(b.1 < a.1)

def changes (before after : FileTree) : List (String × ByteArray) :=
  before.changesBelow after after.workingDir

/-- The directories that a tree lacks, by path from the root. -/
def newDirs (before after : FileTree) : List String :=
  after.entries.filterMap fun e =>
    if e.2 == .dir && !before.isDir e.1 then some (String.intercalate "/" e.1) else none

end FileTree

end DocHarvest
