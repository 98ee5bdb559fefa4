import DocHarvest.Index.Resolve
import Mathlib

/-! Positions. Every look-up and every change goes to the one entry that holds the path. -/

namespace DocHarvest.Index

lemma position?_eq_some_iff {ix : Index} {path : String} {i : Nat} :
    ix.position? path = some i ↔ ix.paths[i]? = some path :=
  ix.located path i

lemma position?_eq_none_iff {ix : Index} {path : String} :
    ix.position? path = none ↔ path ∉ ix.paths := by
  rw [Option.eq_none_iff_forall_ne_some, List.mem_iff_getElem?, not_exists]
  exact forall_congr' fun i => not_congr position?_eq_some_iff

lemma distinct (ix : Index) : (ix.entries.map Entry.path).Nodup := by
  rw [List.nodup_iff_getElem?_ne_getElem?]
  intro i j hij hj he
  have hp : ix.paths[j]? = some ix.paths[j] := List.getElem?_eq_getElem hj
  have hi := position?_eq_some_iff.2 (he.trans hp)
  have hj := position?_eq_some_iff.2 hp
  rw [hi, Option.some.injEq] at hj
  omega

lemma path_of_position? {ix : Index} {path : String} {i : Nat} (h : ix.position? path = some i) :
    ∃ e, ix.entries[i]? = some e ∧ e.path = path := by
  have hp := position?_eq_some_iff.1 h
  rwa [paths, List.getElem?_map, Option.map_eq_some_iff] at hp

lemma getElem?_eq_some_of_mem {ix : Index} {e : Entry} (h : e ∈ ix.entries) :
    ∃ i, ix.position? e.path = some i ∧ ix.entries[i]? = some e := by
  obtain ⟨i, hi⟩ := List.mem_iff_getElem?.1 h
  refine ⟨i, position?_eq_some_iff.2 ?_, hi⟩
  rw [paths, List.getElem?_map, hi, Option.map_some]

lemma recordsOf?_eq_some_iff {ix : Index} {path : String} {records : List Record} :
    ix.recordsOf? path = some records ↔ ⟨path, records⟩ ∈ ix.entries := by
  constructor
  · intro h
    obtain ⟨i, hi, hr⟩ := Option.bind_eq_some_iff.1 h
    obtain ⟨e, he, rfl⟩ := path_of_position? hi
    rw [he, Option.map_some, Option.some.injEq] at hr
    subst hr
    exact List.mem_of_getElem? he
  · intro h
    obtain ⟨i, hi, he⟩ := getElem?_eq_some_of_mem h
    rw [recordsOf?, hi, Option.bind_some, he, Option.map_some]

lemma recordsOf?_eq_none_iff {ix : Index} {path : String} :
    ix.recordsOf? path = none ↔ path ∉ ix.paths := by
  rw [Option.eq_none_iff_forall_ne_some, paths, List.mem_map, not_exists]
  constructor
  · rintro h e ⟨he, rfl⟩
    exact h e.records (recordsOf?_eq_some_iff.2 he)
  · intro h records hr
    exact h _ ⟨recordsOf?_eq_some_iff.1 hr, rfl⟩

lemma recordsOf?_eq_find? (ix : Index) (path : String) :
    ix.recordsOf? path = (ix.entries.find? (·.path == path)).map Entry.records := by
  cases hf : ix.entries.find? (·.path == path) with
  | none =>
    apply recordsOf?_eq_none_iff.2
    intro hm
    obtain ⟨e, he, hp⟩ := List.mem_map.1 hm
    exact List.find?_eq_none.1 hf e he (by simp [hp])
  | some e =>
    have hp : e.path = path := by simpa using List.find?_some hf
    apply recordsOf?_eq_some_iff.2
    rw [← hp]
    exact List.mem_of_find?_eq_some hf

lemma entries_update {ix : Index} {path : String} {i : Nat} (h : ix.position? path = some i)
    (f : List Record → List Record) :
    (ix.update i f).entries = ix.entries.map fun e => if e.path = path then updateEntry f e else e := by
  obtain ⟨e, he, hp⟩ := path_of_position? h
  apply List.ext_getElem?
  intro j
  rw [update, List.getElem?_modify, List.getElem?_map]
  cases hj : ix.entries[j]? with
  | none => rfl
  | some x =>
    have hx : i = j ↔ x.path = path := by
      constructor
      · rintro rfl
        rw [he, Option.some.injEq] at hj
        rw [← hj, hp]
      · rintro rfl
        have hjx : ix.position? x.path = some j := by
          rw [position?_eq_some_iff, paths, List.getElem?_map, hj, Option.map_some]
        rw [h, Option.some.injEq] at hjx
        exact hjx
    by_cases hij : i = j
    · simp [hij, hx.1 hij]
    · simp [hij, mt hx.2 hij]

lemma insert_eq_update {ix : Index} {path : String} {i : Nat} (h : ix.position? path = some i)
    (records : List Record) : ix.insert path records = ix.update i fun _ => records := by
  rw [insert]
  split
  · next j hj =>
    rw [h, Option.some.injEq] at hj
    rw [hj]
  · next hn =>
    rw [h] at hn
    cases hn

lemma entries_insert_of_notMem {ix : Index} {path : String} (h : path ∉ ix.paths)
    (records : List Record) :
    (ix.insert path records).entries = ix.entries ++ [⟨path, records⟩] := by
  rw [insert]
  split
  · next i hi => exact (h (List.mem_of_getElem? (position?_eq_some_iff.1 hi))).elim
  · rfl

lemma mem_entries_insert {ix : Index} {path : String} {records : List Record} {e : Entry} :
    e ∈ (ix.insert path records).entries ↔
      e = ⟨path, records⟩ ∨ e ∈ ix.entries ∧ e.path ≠ path := by
  cases h : ix.position? path with
  | none =>
    have hp : path ∉ ix.paths := position?_eq_none_iff.1 h
    have hn : ∀ e ∈ ix.entries, e.path ≠ path := by
      rintro e he rfl
      exact hp (List.mem_map_of_mem he)
    rw [entries_insert_of_notMem hp, List.mem_append, List.mem_singleton]
    constructor
    · exact fun hm => hm.symm.imp_right fun he => ⟨he, hn e he⟩
    · exact fun hm => (hm.imp_right And.left).symm
  | some i =>
    obtain ⟨x, hx, hp⟩ := path_of_position? h
    rw [insert_eq_update h, entries_update h, List.mem_map]
    constructor
    · rintro ⟨y, hy, rfl⟩
      split
      · next hpy => exact Or.inl (by rw [updateEntry, hpy])
      · next hpy => exact Or.inr ⟨hy, hpy⟩
    · rintro (rfl | ⟨he, hne⟩)
      · exact ⟨x, List.mem_of_getElem? hx, by rw [if_pos hp, updateEntry, hp]⟩
      · exact ⟨e, he, if_neg hne⟩

lemma recordsOf?_insert (ix : Index) (path p : String) (records : List Record) :
    (ix.insert path records).recordsOf? p = if path = p then some records else ix.recordsOf? p := by
  apply Option.ext
  intro rs
  rw [recordsOf?_eq_some_iff, mem_entries_insert]
  by_cases hp : path = p
  · simp [hp, eq_comm]
  · simp [hp, Ne.symm hp, recordsOf?_eq_some_iff]

lemma paths_insert (ix : Index) (path : String) (records : List Record) :
    (ix.insert path records).paths = if path ∈ ix.paths then ix.paths else ix.paths ++ [path] := by
  split
  · next hm =>
    obtain ⟨i, hi⟩ := List.mem_iff_getElem?.1 hm
    rw [insert_eq_update (position?_eq_some_iff.2 hi)]
    exact map_path_modify _ _ i
  · next hm =>
    rw [paths, entries_insert_of_notMem hm, List.map_append]
    rfl

def ofEntries (es : List Entry) : Index :=
  es.foldl (fun ix e => ix.insert e.path e.records) empty

lemma entries_ofEntries {es : List Entry} (h : (es.map Entry.path).Nodup) :
    (ofEntries es).entries = es := by
  induction es using List.reverseRecOn with
  | nil => rfl
  | append_singleton es e ih =>
    rw [List.map_append, List.nodup_append] at h
    have hi := ih h.1
    have he : e.path ∉ (ofEntries es).paths := by
      rw [paths, hi]
      exact fun hm => h.2.2 e.path hm e.path (List.mem_singleton_self _) rfl
    have hf : ofEntries (es ++ [e]) = (ofEntries es).insert e.path e.records := by
      rw [ofEntries, List.foldl_append]
      rfl
    rw [hf, entries_insert_of_notMem he, hi]

end DocHarvest.Index
