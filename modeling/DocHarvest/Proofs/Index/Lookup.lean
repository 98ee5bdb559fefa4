import DocHarvest.Proofs.Index.Grouping

/-! Look-up beside the groups. The groups share out the records that have a module, and a look-up finds
the first record of its name in the group of its module. -/

namespace DocHarvest.Index

lemma mem_entries_byModule_iff {ix : Index} {module : String} {group : List Record} :
    (module, group) ∈ ix.byModule.entries ↔
      (∃ r ∈ ix.records, r.module = some module) ∧ group = ix.inModule module := by
  constructor
  · intro h
    exact ⟨mem_keys_byModule_iff.1 (List.mem_map_of_mem h), eq_inModule_of_mem h⟩
  · rintro ⟨⟨r, hr, hm⟩, rfl⟩
    exact Dictionary.get?_eq_some_iff.1 (get?_byModule_of_mem hr hm)

lemma perm_groups (ix : Index) :
    (ix.byModule.entries.flatMap Prod.snd).Perm (ix.records.filter (·.module.isSome)) := by
  rw [List.perm_iff_count]
  intro r
  by_cases hr : r ∈ ix.records
  · rw [List.count_flatMap, count_filter_ite]
    exact grouped_eq hr
  · have hg : r ∉ ix.byModule.entries.flatMap Prod.snd := by
      intro h
      obtain ⟨g, hg, hrg⟩ := List.mem_flatMap.1 h
      exact hr ((mem_group_iff hg).1 hrg).1
    rw [List.count_eq_zero.2 hg, List.count_eq_zero.2 (mt List.mem_of_mem_filter hr)]

lemma lookup?_eq (ix : Index) (module name : String) :
    ix.lookup? module name = (ix.inModule module).find? (·.name == some name) := by
  rw [lookup?, inModule, List.find?_filter]
  simp only [Bool.decide_and, Bool.decide_eq_true]

lemma lookup?_eq_some_iff {ix : Index} {module name : String} {r : Record} :
    ix.lookup? module name = some r ↔
      ∃ group, (module, group) ∈ ix.byModule.entries ∧ IsFirst (·.name = some name) group r := by
  have hf : (ix.inModule module).find? (·.name == some name) = some r ↔
      IsFirst (·.name = some name) (ix.inModule module) r := by
    rw [find?_eq_some_iff_isFirst]
    exact isFirst_congr fun _ => beq_iff_eq
  rw [lookup?_eq, hf]
  constructor
  · intro h
    obtain ⟨before, after, hs, -⟩ := h.split
    have hr : r ∈ ix.inModule module := hs ▸ List.mem_append_right before List.mem_cons_self
    obtain ⟨hr, hm⟩ := List.mem_filter.1 hr
    exact ⟨_, mem_entries_byModule_iff.2 ⟨⟨r, hr, beq_iff_eq.1 hm⟩, rfl⟩, h⟩
  · rintro ⟨group, hg, h⟩
    rwa [(mem_entries_byModule_iff.1 hg).2] at h

lemma lookup?_eq_none_iff {ix : Index} {module name : String} :
    ix.lookup? module name = none ↔
      ∀ group, (module, group) ∈ ix.byModule.entries → ∀ r ∈ group, r.name ≠ some name := by
  rw [lookup?_eq, List.find?_eq_none]
  simp only [beq_iff_eq]
  constructor
  · intro h group hg
    rwa [(mem_entries_byModule_iff.1 hg).2]
  · intro h r hr
    have hm : r.module = some module := by simpa using (List.mem_filter.1 hr).2
    exact h _ (mem_entries_byModule_iff.2 ⟨⟨r, (List.mem_filter.1 hr).1, hm⟩, rfl⟩) r hr

theorem byModule_lookup? (ix : Index) :
    (ix.byModule.entries.map Prod.fst).Pairwise (· < ·) ∧
    (∀ module, module ∈ ix.byModule.entries.map Prod.fst ↔
      ∃ r ∈ ix.records, r.module = some module) ∧
    (∀ g ∈ ix.byModule.entries, g.2 = ix.records.filter (·.module == some g.1)) ∧
    (ix.byModule.entries.flatMap Prod.snd).Perm (ix.records.filter (·.module.isSome)) ∧
    ∀ module name,
      (∀ r, ix.lookup? module name = some r ↔
        ∃ group, (module, group) ∈ ix.byModule.entries ∧ IsFirst (·.name = some name) group r) ∧
      (ix.lookup? module name = none ↔
        ∀ group, (module, group) ∈ ix.byModule.entries → ∀ r ∈ group, r.name ≠ some name) := by
  refine ⟨List.pairwise_map.2 ix.byModule.ascending, fun _ => mem_keys_byModule_iff, ?_, perm_groups ix,
    fun _ _ => ⟨fun _ => lookup?_eq_some_iff, lookup?_eq_none_iff⟩⟩
  exact fun _ hg => eq_inModule_of_mem hg

end DocHarvest.Index
