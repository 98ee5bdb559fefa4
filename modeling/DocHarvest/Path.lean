/-! Paths as they are written, with slashes between their pieces. Two spellings that differ in
repeated slashes or inner dots have the same steps; the root and a leading dot are steps of their own. -/

namespace DocHarvest.Path

def pieces (path : String) : List String :=
  (path.toList.splitOn '/').map String.ofList

def join (base name : String) : String :=
  if base.isEmpty || base.toList.getLast? == some '/' then base ++ name else base ++ "/" ++ name

def isAbsolute (path : String) : Bool :=
  path.toList.head? == some '/'

inductive Step where
  | root
  | here
  | up
  | down (name : String)
deriving DecidableEq, Repr

def Step.before : Step → Step → Bool
  | root, root => false
  | root, _ => true
  | here, up => true
  | here, down _ => true
  | up, down _ => true
  | down a, down b => a < b
  | _, _ => false

def innerStep? (piece : String) : Option Step :=
  if piece.isEmpty || piece == "." then none
  else if piece == ".." then some .up
  else some (.down piece)

/-- What a path says of the place where it starts. -/
def start (path : String) : List Step :=
  if isAbsolute path then [.root]
  else if (pieces path).head? == some "." then [.here]
  else []

def steps (path : String) : List Step :=
  start path ++ (pieces path).filterMap innerStep?

def isHere (path : String) : Bool :=
  steps path == [.here]

/-- Step by step, a path before its continuations. -/
def notAfter : List Step → List Step → Bool
  | [], _ => true
  | _ :: _, [] => false
  | a :: as, b :: bs => if a = b then notAfter as bs else a.before b

/-- Drops what has the same steps as the path before it. -/
def distinctAfter (path : String) : List String → List String
  | [] => []
  | p :: ps => if steps p = steps path then distinctAfter path ps else p :: distinctAfter p ps

def distinct : List String → List String
  | [] => []
  | p :: ps => p :: distinctAfter p ps

/-- In ascending order of steps; of several spellings of the same steps the first stays. -/
def sorted (paths : List String) : List String :=
  distinct (paths.mergeSort fun a b => notAfter (steps a) (steps b))

def fileName (path : String) : String :=
  match (steps path).getLast? with
  | some (.down name) => name
  | _ => ""

/-- What follows the last dot of the file name, unless nothing precedes that dot. -/
def extension (path : String) : String :=
  let backwards := (fileName path).toList.reverse
  match backwards.dropWhile (· != '.') with
  | _ :: _ :: _ => String.ofList (backwards.takeWhile (· != '.')).reverse
  | _ => ""

end DocHarvest.Path
