import DocHarvest.Command.Discovery
import DocHarvest.Command.Options
import DocHarvest.Format
import DocHarvest.Index.Query

/-! The command: harvests the files that it is given and prints their records, or writes them into a
directory with one file for each source. -/

namespace DocHarvest

structure Outcome where
  code : Nat
  stdout : String
  failure : Option Failure
  warnings : List Warning
  unresolved : List String
  tree : FileTree
deriving DecidableEq

namespace Command

/-- A file that is not text is passed over. -/
def load (t : FileTree) : List String → List Warning × List Source
  | [] => ([], [])
  | path :: paths =>
    let rest := load t paths
    match (t.read? path).bind String.fromUTF8? with
    | some content => (rest.1, ⟨path, Path.extension path, content⟩ :: rest.2)
    | none => (.notText path :: rest.1, rest.2)

def unresolvedLine (r : Record) : String :=
  r.name.getD "<unnamed>" ++ " (" ++ r.file ++ ")"

def dropHere : List Char → List Char
  | '.' :: '/' :: s => dropHere s
  | s => s

/-- The part before the last dot, if it is not empty and the dot stands in the last piece. -/
def stem (path : List Char) : List Char :=
  let backwards := path.reverse
  match backwards.dropWhile (· != '.') with
  | _ :: c :: rest =>
    if (backwards.takeWhile (· != '.')).any Scope.isSeparator then path else (c :: rest).reverse
  | _ => path

/-- The name under which the records of a source are written: its path without what leads to it from
here and without its extension, with dots for separators. -/
def outputName (path : String) : String :=
  let trimmed := (dropHere path.toList).dropWhile (· == '/')
  String.ofList ((stem trimmed).map fun c => if Scope.isSeparator c then '.' else c)

/-- Writes the entries that have records, in order, up to the first that cannot be written. -/
def writeEntries (format : Format) (dir : String) (location : List String) (t : FileTree) :
    List Entry → FileTree × Option Failure
  | [] => (t, none)
  | e :: es =>
    if e.records.isEmpty then writeEntries format dir location t es
    else
      let name := outputName e.path ++ "." ++ format.extension
      match t.write? location name (format.render e.records).toUTF8 with
      | some t' => writeEntries format dir location t' es
      | none => (t, some (.cannotWrite (Path.join dir name)))

def writeInto (format : Format) (dir : String) (ix : Index) (t : FileTree) :
    FileTree × Option Failure :=
  match t.makeDirAt dir with
  | (t', some location) => writeEntries format dir location t' ix.entries
  | (t', none) => (t', some (.cannotCreate dir))

def failed (t : FileTree) (warnings : List Warning) (failure : Failure) : Outcome :=
  ⟨1, "", some failure, warnings, [], t⟩

def report (o : Options) (format : Format) (t : FileTree) (warnings : List Warning)
    (sources : List Source) : Outcome :=
  let ix := Index.build sources
  let unresolved := if o.unresolved then ix.unresolved.map unresolvedLine else []
  match o.output with
  | none => ⟨0, format.render ix.records, none, warnings, unresolved, t⟩
  | some dir =>
    let written := writeInto format dir ix t
    ⟨if written.2.isSome then 1 else 0, "", written.2, warnings, unresolved, written.1⟩

def harvest (o : Options) (t : FileTree) : Outcome :=
  match Format.ofName o.format o.pretty with
  | .error failure => failed t [] failure
  | .ok format =>
    match Discovery.files t o.extensions o.inputs with
    | (warnings, .error failure) => failed t warnings failure
    | (warnings, .ok []) => failed t warnings .noInput
    | (warnings, .ok paths) =>
      let loaded := load t paths
      report o format t (warnings ++ loaded.1) loaded.2

def run (arguments : List String) (t : FileTree) : Outcome :=
  match Request.ofArguments? arguments with
  | none => ⟨2, "", none, [], [], t⟩
  | some .help => ⟨0, Request.helpText, none, [], [], t⟩
  | some (.harvest o) => harvest o t

end Command

end DocHarvest
