import DocHarvest.Record.Draft

/-! The index: the records of many files, each file under its path. A path keeps the place of its
first insertion and the records of its last. -/

namespace DocHarvest

structure Entry where
  path : String
  records : List Record
deriving DecidableEq

/-- The entries in order, with the position of each path among them. -/
@[ext]
structure Index where
  entries : List Entry
  positions : Dictionary Nat
  located : ∀ path i, positions.get? path = some i ↔ (entries.map Entry.path)[i]? = some path
deriving DecidableEq

namespace Index

def empty : Index :=
  ⟨[], .empty, by simp⟩

def position? (ix : Index) (path : String) : Option Nat :=
  ix.positions.get? path

def updateEntry (f : List Record → List Record) (e : Entry) : Entry :=
  { e with records := f e.records }

theorem map_path_modify (f : List Record → List Record) (es : List Entry) (i : Nat) :
    (es.modify i (updateEntry f)).map Entry.path = es.map Entry.path := by
  apply List.ext_getElem?
  intro j
  rw [List.getElem?_map, List.getElem?_map, List.getElem?_modify]
  cases es[j]? with
  | none => rfl
  | some e => by_cases hj : i = j <;> simp [hj, updateEntry]

/-- Changes the records of the entry at a position. -/
def update (ix : Index) (i : Nat) (f : List Record → List Record) : Index where
  entries := ix.entries.modify i (updateEntry f)
  positions := ix.positions
  located := by
    rw [map_path_modify]
    exact ix.located

theorem getElem?_concat_eq_some {α : Type} {l : List α} {a b : α} {i : Nat} :
    (l ++ [a])[i]? = some b ↔ l[i]? = some b ∨ l.length = i ∧ a = b := by
  rcases Nat.lt_trichotomy i l.length with hi | rfl | hi
  · rw [List.getElem?_append_left hi]
    exact ⟨Or.inl, fun h => h.resolve_right fun hl => Nat.ne_of_gt hi hl.1⟩
  · simp
  · have hl : (l ++ [a]).length ≤ i := by
      rw [List.length_append, List.length_singleton]
      exact hi
    rw [List.getElem?_eq_none hl, List.getElem?_eq_none (Nat.le_of_lt hi)]
    simp [Nat.ne_of_lt hi]

/-- Adds an entry for a path that has none. -/
def push (ix : Index) (path : String) (records : List Record) (h : ix.position? path = none) :
    Index where
  entries := ix.entries ++ [⟨path, records⟩]
  positions := ix.positions.insert path ix.entries.length
  located := by
    intro p i
    rw [Dictionary.get?_insert, List.map_append, List.map_singleton, getElem?_concat_eq_some,
      List.length_map, ← ix.located]
    by_cases hp : path = p
    · rw [position?, hp] at h
      simp [hp, h]
    · simp [hp]

def insert (ix : Index) (path : String) (records : List Record) : Index :=
  match h : ix.position? path with
  | some i => ix.update i fun _ => records
  | none => ix.push path records h

def addSource (ix : Index) (s : Source) : Index :=
  ix.insert s.path (s.records?.getD [])

def ofSources (sources : List Source) : Index :=
  sources.foldl addSource empty

def size (ix : Index) : Nat :=
  ix.entries.length

def paths (ix : Index) : List String :=
  ix.entries.map Entry.path

def records (ix : Index) : List Record :=
  ix.entries.flatMap Entry.records

def recordsOf? (ix : Index) (path : String) : Option (List Record) :=
  (ix.position? path).bind fun i => ix.entries[i]?.map Entry.records

end Index

end DocHarvest
