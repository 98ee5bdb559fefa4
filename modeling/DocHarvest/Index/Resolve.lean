import DocHarvest.Index
import DocHarvest.Scope

/-! Modules by directory: a record without a module takes the one declared nearest to its file. -/

namespace DocHarvest

def isUnset (value : Option String) : Bool :=
  value.all String.isEmpty

def Parent.setModule (module : String) (p : Parent) : Parent :=
  if isUnset p.module then { p with module := some module } else p

namespace Record

def needsModule (r : Record) : Bool :=
  r.kind.isSome && isUnset r.module

def declaresModule (r : Record) : Bool :=
  r.isModule && !isUnset r.name

def setModule (module : String) (r : Record) : Record :=
  { r with module := some module, parent := r.parent.map (·.setModule module) }

end Record

namespace Index

/-- The first module declared by a file directly inside the scope. -/
def declaredIn? (ix : Index) (scope : String) : Option String :=
  let inside := (ix.entries.filter fun e => Scope.contains scope e.path).flatMap Entry.records
  (inside.find? Record.declaresModule).bind Record.name

def governing? (ix : Index) (dir : String) : Option String :=
  (Scope.chain dir).findSome? ix.declaredIn?

/-- The module that a record lacks, if one governs its directory. -/
def missingModule? (ix : Index) (r : Record) : Option String :=
  if r.needsModule then ix.governing? (Scope.directory r.file) else none

def resolveRecord (ix : Index) (r : Record) : Record :=
  match ix.missingModule? r with
  | some module => r.setModule module
  | none => r

/-- Resolves the records of one file, all against the index as it stands. -/
def resolve (ix : Index) (path : String) : Index :=
  match ix.position? path with
  | some i => ix.update i (List.map ix.resolveRecord)
  | none => ix

def resolvable (ix : Index) (path : String) : Nat :=
  ((ix.recordsOf? path).getD []).countP fun r => (ix.missingModule? r).isSome

/-- Resolves one file after another, and counts the records that were resolved. -/
def resolveEach (ix : Index) : List String → Nat × Index
  | [] => (0, ix)
  | path :: paths =>
    let rest := (ix.resolve path).resolveEach paths
    (ix.resolvable path + rest.1, rest.2)

def resolveAll (ix : Index) : Nat × Index :=
  ix.resolveEach ix.paths

/-- The index of some sources with every module resolved that can be. -/
def build (sources : List Source) : Index :=
  (ofSources sources).resolveAll.2

end Index

end DocHarvest
