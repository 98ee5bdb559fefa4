/-! Dictionaries: values under distinct texts, in ascending order of the texts. -/

namespace DocHarvest

structure Dictionary (α : Type) where
  entries : List (String × α)
  ascending : entries.Pairwise (·.1 < ·.1)
deriving DecidableEq

namespace Dictionary

variable {α : Type}

def empty : Dictionary α :=
  ⟨[], .nil⟩

def insertEntry (key : String) (value : α) : List (String × α) → List (String × α)
  | [] => [(key, value)]
  | e :: es =>
    if key < e.1 then (key, value) :: e :: es
    else if key = e.1 then (key, value) :: es
    else e :: insertEntry key value es

theorem mem_insertEntry {key : String} {value : α} {es : List (String × α)} {e : String × α}
    (h : e ∈ insertEntry key value es) : e = (key, value) ∨ e ∈ es := by
  induction es with
  | nil => simpa [insertEntry] using h
  | cons x es ih =>
    rw [insertEntry] at h
    split at h
    · simpa using h
    · split at h
      · rcases List.mem_cons.1 h with rfl | h
        · exact .inl rfl
        · exact .inr (List.mem_cons_of_mem x h)
      · rcases List.mem_cons.1 h with rfl | h
        · exact .inr List.mem_cons_self
        · exact (ih h).imp_right (List.mem_cons_of_mem x)

theorem insertEntry_ascending (key : String) (value : α) {es : List (String × α)}
    (h : es.Pairwise (·.1 < ·.1)) : (insertEntry key value es).Pairwise (·.1 < ·.1) := by
  induction es with
  | nil => simp [insertEntry]
  | cons x es ih =>
    obtain ⟨hx, hs⟩ := List.pairwise_cons.1 h
    rw [insertEntry]
    split
    · next hk =>
      refine List.pairwise_cons.2 ⟨fun e he => ?_, h⟩
      rcases List.mem_cons.1 he with rfl | he
      · exact hk
      · exact String.lt_trans hk (hx e he)
    · next hk =>
      split
      · next he => exact List.pairwise_cons.2 ⟨fun e hm => he ▸ hx e hm, hs⟩
      · next he =>
        refine List.pairwise_cons.2 ⟨fun e hm => ?_, ih hs⟩
        rcases mem_insertEntry hm with rfl | hm
        · exact Std.lt_of_le_of_ne (String.not_lt.1 hk) (Ne.symm he)
        · exact hx e hm

def insert (d : Dictionary α) (key : String) (value : α) : Dictionary α :=
  ⟨insertEntry key value d.entries, insertEntry_ascending key value d.ascending⟩

def get? (d : Dictionary α) (key : String) : Option α :=
  (d.entries.find? (·.1 == key)).map (·.2)

theorem find?_insertEntry (key k : String) (value : α) (es : List (String × α)) :
    ((insertEntry key value es).find? (·.1 == k)).map (·.2) =
      if key = k then some value else (es.find? (·.1 == k)).map (·.2) := by
  induction es with
  | nil => by_cases hk : key = k <;> simp [insertEntry, hk]
  | cons e es ih =>
    rw [insertEntry]
    split
    · by_cases hk : key = k <;> simp [hk]
    · split
      · next he => by_cases hk : key = k <;> simp [← he, hk]
      · next he =>
        rw [List.find?_cons, List.find?_cons]
        split
        · next hk => simp [← beq_iff_eq.1 hk, he]
        · exact ih

@[simp] theorem get?_empty (key : String) : (empty : Dictionary α).get? key = none := rfl

theorem get?_insert (d : Dictionary α) (key k : String) (value : α) :
    (d.insert key value).get? k = if key = k then some value else d.get? k :=
  find?_insertEntry key k value d.entries

def ofList (pairs : List (String × α)) : Dictionary α :=
  pairs.foldl (fun d p => d.insert p.1 p.2) empty

end Dictionary

end DocHarvest
