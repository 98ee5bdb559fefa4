import DocHarvest.Index.Resolve

/-! Questions to an index. -/

namespace DocHarvest.Index

def unresolved (ix : Index) : List Record :=
  ix.records.filter Record.needsModule

def lookup? (ix : Index) (module name : String) : Option Record :=
  ix.records.find? fun r => r.module == some module && r.name == some name

def addToGroup (groups : Dictionary (List Record)) (r : Record) : Dictionary (List Record) :=
  match r.module with
  | some module => groups.insert module ((groups.get? module).getD [] ++ [r])
  | none => groups

def byModule (ix : Index) : Dictionary (List Record) :=
  ix.records.foldl addToGroup .empty

end DocHarvest.Index
