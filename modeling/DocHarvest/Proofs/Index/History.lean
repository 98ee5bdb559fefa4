import DocHarvest.Proofs.Index.Resolution

/-! The history of an index: steps that fill it, and calls that resolve its records. -/

namespace DocHarvest.Index

inductive Step where
  | insert (path : String) (records : List Record)
  | add (s : Source)

namespace Step

def path : Step → String
  | insert path _ => path
  | add s => s.path

def records : Step → List Record
  | insert _ records => records
  | add s => s.records?.getD []

def run (ix : Index) : Step → Index
  | insert path records => ix.insert path records
  | add s => ix.addSource s

lemma run_eq (ix : Index) (s : Step) : s.run ix = ix.insert s.path s.records := by
  cases s <;> rfl

end Step

inductive Call where
  | resolve (path : String)
  | resolveAll

def Call.run (ix : Index) : Call → Index
  | resolve path => ix.resolve path
  | resolveAll => ix.resolveAll.2

def ofSteps (steps : List Step) : Index :=
  steps.foldl Step.run empty

def after (ix : Index) (calls : List Call) : Index :=
  calls.foldl Call.run ix

section Induction

variable {motive : Index → Prop} {ix : Index}

lemma resolveEach_induction (hs : ∀ ix path, motive ix → motive (ix.resolve path)) (h : motive ix)
    (paths : List String) : motive (ix.resolveEach paths).2 := by
  induction paths generalizing ix with
  | nil => exact h
  | cons path paths ih => exact ih (hs ix path h)

lemma after_induction (hs : ∀ ix path, motive ix → motive (ix.resolve path)) (h : motive ix)
    (calls : List Call) : motive (ix.after calls) := by
  induction calls generalizing ix with
  | nil => exact h
  | cons c calls ih =>
    apply ih
    cases c with
    | resolve path => exact hs ix path h
    | resolveAll => exact resolveEach_induction hs h ix.paths

end Induction

lemma paths_resolve (ix : Index) (path : String) : (ix.resolve path).paths = ix.paths := by
  rw [resolve]
  split
  · exact map_path_modify _ _ _
  · rfl

lemma paths_after (ix : Index) (calls : List Call) : (ix.after calls).paths = ix.paths := by
  apply after_induction (motive := fun x => x.paths = ix.paths) ?_ rfl
  intro x path h
  rw [paths_resolve, h]

lemma ofSteps_concat (steps : List Step) (s : Step) :
    ofSteps (steps ++ [s]) = (ofSteps steps).insert s.path s.records := by
  rw [ofSteps, List.foldl_append]
  exact s.run_eq _

lemma paths_ofSteps (steps : List Step) :
    (ofSteps steps).paths = (steps.map Step.path).eraseDups := by
  induction steps using List.reverseRecOn with
  | nil => rfl
  | append_singleton steps s ih =>
    rw [ofSteps_concat, paths_insert, ih, List.map_append, List.map_singleton, eraseDups_concat]
    simp only [List.mem_eraseDups]

lemma recordsOf?_ofSteps (steps : List Step) (path : String) :
    (ofSteps steps).recordsOf? path = (steps.findRev? (·.path == path)).map Step.records := by
  induction steps using List.reverseRecOn with
  | nil => rfl
  | append_singleton steps s ih =>
    rw [ofSteps_concat, recordsOf?_insert, ih, List.findRev?_eq_find?_reverse,
      List.findRev?_eq_find?_reverse, List.reverse_append, List.reverse_singleton,
      List.singleton_append]
    by_cases hp : s.path = path
    · rw [if_pos hp, List.find?_cons_of_pos (by simpa using hp), Option.map_some]
    · rw [if_neg hp, List.find?_cons_of_neg (by simpa using hp)]

/-- Positions point at their entries at every time. The paths stand in the order of their first
insertion, and up to the first call the records are those of the last. -/
theorem layout_ofSteps_after (steps : List Step) (calls : List Call) :
    (∀ path i, ((ofSteps steps).after calls).position? path = some i ↔
      ∃ h : i < ((ofSteps steps).after calls).entries.length,
        (((ofSteps steps).after calls).entries[i]).path = path) ∧
    ((ofSteps steps).after calls).paths.Nodup ∧
    ((ofSteps steps).after calls).paths = (steps.map Step.path).eraseDups ∧
    ((ofSteps steps).after calls).size = (steps.map Step.path).toFinset.card ∧
    (∀ path, (ofSteps steps).recordsOf? path =
      (steps.findRev? (·.path == path)).map Step.records) ∧
    (∀ path, (ofSteps steps).recordsOf? path = none ↔ path ∉ steps.map Step.path) := by
  have hp : ((ofSteps steps).after calls).paths = (steps.map Step.path).eraseDups := by
    rw [paths_after, paths_ofSteps]
  refine ⟨?_, distinct _, hp, ?_, recordsOf?_ofSteps steps, ?_⟩
  · intro path i
    rw [position?_eq_some_iff, paths, List.getElem?_map, Option.map_eq_some_iff]
    constructor
    · rintro ⟨e, he, rfl⟩
      obtain ⟨hi, rfl⟩ := List.getElem?_eq_some_iff.1 he
      exact ⟨hi, rfl⟩
    · rintro ⟨hi, rfl⟩
      exact ⟨_, List.getElem?_eq_getElem hi, rfl⟩
  · have hd : ((ofSteps steps).after calls).paths.Nodup := distinct _
    have hs : ((ofSteps steps).after calls).paths.toFinset = (steps.map Step.path).toFinset := by
      apply Finset.ext
      intro path
      rw [List.mem_toFinset, List.mem_toFinset, hp, List.mem_eraseDups]
    rw [← hs, List.toFinset_card_of_nodup hd, paths, List.length_map, size]
  · intro path
    rw [recordsOf?_eq_none_iff, paths_ofSteps, List.mem_eraseDups]

end DocHarvest.Index
