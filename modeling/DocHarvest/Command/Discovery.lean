import DocHarvest.Failure
import DocHarvest.Glob

/-! The files that the operands of a command stand for. -/

namespace DocHarvest

inductive Warning where
  | noMatch (pattern : String)
  | notText (path : String)
deriving DecidableEq, Repr

def Warning.message : Warning → String
  | noMatch pattern => "no files matched: " ++ pattern
  | notText path => "skipping " ++ path ++ ": stream did not contain valid UTF-8"

namespace Discovery

def findAll (t : FileTree) : List String → Except Failure (List String)
  | [] => .ok []
  | pattern :: patterns =>
    match Glob.files? t pattern with
    | none => .error (.invalidPattern pattern)
    | some found => (findAll t patterns).map (found ++ ·)

/-- The pattern for the files below a directory that have an extension. -/
def patternBelow (dir ext : String) : String :=
  String.ofList (dir.toList.reverse.dropWhile (· == '/')).reverse ++ "/**/*." ++ ext

/-- The files of one operand: the file it names, those below the directory it names, or those that
it finds as a pattern. -/
def expand (t : FileTree) (extensions : List String) (operand : String) :
    Except Failure (List String) :=
  if t.isFileAt operand then .ok [operand]
  else if t.isDirAt operand then findAll t (extensions.map (patternBelow operand))
  else findAll t [operand]

def warnings (t : FileTree) (operand : String) (found : List String) : List Warning :=
  if found.isEmpty && !t.isDirAt operand then [.noMatch operand] else []

/-- The files of all operands in turn, up to the first that fails. -/
def expandAll (t : FileTree) (extensions : List String) :
    List String → List Warning × Except Failure (List String)
  | [] => ([], .ok [])
  | operand :: operands =>
    match expand t extensions operand with
    | .error failure => ([], .error failure)
    | .ok found =>
      let rest := expandAll t extensions operands
      (warnings t operand found ++ rest.1, rest.2.map (found ++ ·))

def files (t : FileTree) (extensions operands : List String) :
    List Warning × Except Failure (List String) :=
  let found := expandAll t extensions operands
  (found.1, found.2.map Path.sorted)

end Discovery

end DocHarvest
