/-! Scopes: the directory of a file and the directories around it. A directory is written with its
last separator, and the directory of a bare file name is empty. -/

namespace DocHarvest.Scope

def isSeparator (c : Char) : Bool :=
  c == '/' || c == '\\'

def directory (path : String) : String :=
  String.ofList (path.toList.reverse.dropWhile (!isSeparator ·)).reverse

/-- A directory, written backwards, and the directories around it up to the first that has less than
two slashes. -/
def chainBackwards (dir : List Char) : List (List Char) :=
  dir :: if dir.count '/' < 2 then [] else chainBackwards (dir.tail.dropWhile (· != '/'))
termination_by dir.length
decreasing_by
  cases dir with
  | nil => simp at *
  | cons c dir =>
    have h := (List.dropWhile_suffix (l := dir) (· != '/')).length_le
    rw [List.tail_cons, List.length_cons]
    omega

/-- The scopes that a file in `dir` looks into, nearest first. -/
def chain (dir : String) : List String :=
  (chainBackwards dir.toList.reverse).map fun d => String.ofList d.reverse

def contains (scope path : String) : Bool :=
  match scope.toList.isPrefixOf? path.toList with
  | some rest => !rest.isEmpty && !rest.any isSeparator
  | none => false

end DocHarvest.Scope
