import DocHarvest.FileTree
import DocHarvest.Glob.Pattern

/-! Search for the files of a tree whose paths fit a pattern. A place is a path as the search has
spelled it. It starts from the root or from a dot, and the dot is never written. -/

namespace DocHarvest.Glob

def child (place name : String) : String :=
  if Path.isHere place then name else Path.join place name

def isDots (name : String) : Bool :=
  name == "." || name == ".."

def literalStep (t : FileTree) (place name : String) : List String :=
  if isDots name then if t.isDirAt place then [child place name] else []
  else if (t.locate? (child place name)).isSome then [child place name]
  else []

/-- The parent and the place itself, for a pattern that starts with a dot and fits them. -/
def dotSteps (pieces : List Piece) (place : String) : List String :=
  if pieces.head? == some (.char '.') then
    (["..", "."].filter fun d => fits pieces d.toList).map (Path.join place)
  else []

def wildStep (t : FileTree) (place : String) (pieces : List Piece) : List String :=
  match t.locate? place with
  | none => []
  | some location =>
    if t.isDir location then
      dotSteps pieces place
        ++ ((t.children location).filter fun n => fits pieces n.toList).map (child place)
    else []

/-- All places below a place, each with its last name. -/
def placesBelow (t : FileTree) (place : String) : List (String × String) :=
  match t.locate? place with
  | none => []
  | some location =>
    (t.below location).filterMap fun names =>
      names.getLast?.map fun last => (names.foldl child place, last)

mutual

def seek (t : FileTree) (place : String) : List Component → List String
  | [] => [place]
  | .anyDepth :: cs => seekBelow t place cs
  | .name pieces :: cs =>
    match literal? pieces with
    | some name => (literalStep t place (String.ofList name)).flatMap fun p => seek t p cs
    | none => (wildStep t place pieces).flatMap fun p => seek t p cs

/-- The places that the components lead to from any depth below a place. -/
def seekBelow (t : FileTree) (place : String) : List Component → List String
  | [] => ((placesBelow t place).map (·.1)).filter t.isDirAt
  | .anyDepth :: cs => seekBelow t place cs
  | .name pieces :: cs =>
    ((placesBelow t place).filter fun p => fits pieces p.2.toList).flatMap fun p => seek t p.1 cs

end

def components? (pattern : String) : Option (List Component) :=
  (pattern.toList.splitOn '/').mapM component?

/-- The place that a search starts from. An absolute pattern has an empty name before its first slash,
and that leads from the root to the root. -/
def origin (pattern : String) : String :=
  if Path.isAbsolute pattern then "/" else "."

/-- The files that a pattern finds. One that ends in a slash asks for directories. -/
def files? (t : FileTree) (pattern : String) : Option (List String) :=
  (components? pattern).map fun cs =>
    if pattern.toList.getLast? == some '/' then []
    else (seek t (origin pattern) cs).filter t.isFileAt

end DocHarvest.Glob
