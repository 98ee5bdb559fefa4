import DocHarvest.Proofs.Index.Resolution

/-! Records by module. A record with a kind is either reported as unresolved or stands in the group of
its module, unless its module is the empty text: then it is both. -/

namespace DocHarvest.Index

lemma count_filter_ite {α : Type} [DecidableEq α] (p : α → Bool) (xs : List α) (a : α) :
    (xs.filter p).count a = if p a then xs.count a else 0 := by
  split
  · next h => exact List.count_filter h
  · next h => exact List.count_eq_zero.2 fun hm => h (List.mem_filter.1 hm).2

def inModule (ix : Index) (module : String) : List Record :=
  ix.records.filter (·.module == some module)

lemma getD_addToGroup (groups : Dictionary (List Record)) (r : Record) (key : String) :
    ((addToGroup groups r).get? key).getD [] =
      (groups.get? key).getD [] ++ [r].filter (·.module == some key) := by
  rw [addToGroup]
  split
  · next m hm =>
    rw [Dictionary.get?_insert]
    by_cases hk : m = key <;> simp [hm, hk]
  · next hm => simp [hm]

lemma getD_foldl_addToGroup (rs : List Record) (groups : Dictionary (List Record)) (key : String) :
    ((rs.foldl addToGroup groups).get? key).getD [] =
      (groups.get? key).getD [] ++ rs.filter (·.module == some key) := by
  induction rs generalizing groups with
  | nil => simp
  | cons r rs ih =>
    rw [List.foldl_cons, ih, getD_addToGroup, List.append_assoc, ← List.filter_append,
      List.singleton_append]

lemma getD_byModule (ix : Index) (module : String) :
    (ix.byModule.get? module).getD [] = ix.inModule module := by
  rw [byModule, getD_foldl_addToGroup, Dictionary.get?_empty]
  rfl

lemma eq_inModule_of_mem {ix : Index} {g : String × List Record} (h : g ∈ ix.byModule.entries) :
    g.2 = ix.inModule g.1 := by
  rw [← getD_byModule, Dictionary.get?_eq_some_iff.2 h, Option.getD_some]

lemma entries_byModule (ix : Index) :
    ix.byModule.entries = (ix.byModule.entries.map Prod.fst).map fun m => (m, ix.inModule m) := by
  rw [List.map_map, List.map_congr_left (g := id), List.map_id]
  exact fun g hg => Prod.ext rfl (eq_inModule_of_mem hg).symm

lemma ne_nil_of_mem_addToGroup {groups : Dictionary (List Record)}
    (h : ∀ g ∈ groups.entries, g.2 ≠ []) (r : Record) :
    ∀ g ∈ (addToGroup groups r).entries, g.2 ≠ [] := by
  intro g hg
  rw [addToGroup] at hg
  split at hg
  · rcases Dictionary.mem_insertEntry hg with rfl | hg
    · simp
    · exact h g hg
  · exact h g hg

lemma ne_nil_of_mem_foldl_addToGroup {groups : Dictionary (List Record)}
    (h : ∀ g ∈ groups.entries, g.2 ≠ []) (rs : List Record) :
    ∀ g ∈ (rs.foldl addToGroup groups).entries, g.2 ≠ [] := by
  induction rs generalizing groups with
  | nil => exact h
  | cons r rs ih => exact ih (ne_nil_of_mem_addToGroup h r)

lemma ne_nil_of_mem_byModule {ix : Index} {g : String × List Record}
    (h : g ∈ ix.byModule.entries) : g.2 ≠ [] :=
  ne_nil_of_mem_foldl_addToGroup (by simp [Dictionary.empty]) ix.records g h

section Record

variable {ix : Index} {r : Record}

lemma get?_byModule_of_mem {module : String} (hr : r ∈ ix.records) (hm : r.module = some module) :
    ix.byModule.get? module = some (ix.inModule module) := by
  have hg := ix.getD_byModule module
  have hin : r ∈ ix.inModule module := List.mem_filter.2 ⟨hr, by simpa using hm⟩
  cases hb : ix.byModule.get? module with
  | none =>
    rw [hb] at hg
    rw [← hg] at hin
    cases hin
  | some group =>
    rw [hb, Option.getD_some] at hg
    rw [hg]

lemma mem_group_iff {g : String × List Record} (hg : g ∈ ix.byModule.entries) :
    r ∈ g.2 ↔ r ∈ ix.records ∧ r.module = some g.1 := by
  rw [eq_inModule_of_mem hg, inModule, List.mem_filter, beq_iff_eq]

lemma mem_keys_byModule_iff {module : String} :
    module ∈ ix.byModule.entries.map Prod.fst ↔ ∃ r ∈ ix.records, r.module = some module := by
  constructor
  · intro h
    obtain ⟨g, hg, rfl⟩ := List.mem_map.1 h
    obtain ⟨r, hr⟩ := List.exists_mem_of_ne_nil g.2 (ne_nil_of_mem_byModule hg)
    exact ⟨r, (mem_group_iff hg).1 hr⟩
  · rintro ⟨r, hr, hm⟩
    have hg := Dictionary.get?_eq_some_iff.1 (get?_byModule_of_mem hr hm)
    exact List.mem_map_of_mem hg

/-- How often the groups hold a record, all together. -/
def grouped (ix : Index) (r : Record) : Nat :=
  (ix.byModule.entries.map fun g => g.2.count r).sum

lemma grouped_eq (hr : r ∈ ix.records) :
    ix.grouped r = if r.module.isSome then ix.records.count r else 0 := by
  have hc : ∀ g ∈ ix.byModule.entries,
      g.2.count r = if r.module = some g.1 then ix.records.count r else 0 := by
    intro g hg
    rw [eq_inModule_of_mem hg, inModule, count_filter_ite]
    simp only [beq_iff_eq]
  rw [grouped, List.map_congr_left hc]
  cases hm : r.module with
  | none => simp
  | some m =>
    have hb := get?_byModule_of_mem hr hm
    simp only [Option.some.injEq, eq_comm (a := m), Option.isSome_some, if_true]
    rw [sum_of_key_eq (fun _ => ix.records.count r) ix.byModule.nodup_keys]
    rw [Dictionary.get?, Option.map_eq_some_iff] at hb
    obtain ⟨g, hg, -⟩ := hb
    rw [hg]
    rfl

/-- Where an index reports a record: as unresolved or in one group, that of its module. -/
structure Placed (ix : Index) (r : Record) : Prop where
  once : ix.unresolved.count r + ix.grouped r = ix.records.count r
  apart : r ∈ ix.unresolved → ∀ g ∈ ix.byModule.entries, r ∉ g.2
  placed : r ∉ ix.unresolved → ∃ module group, r.module = some module ∧
    ix.byModule.get? module = some group ∧ r ∈ group ∧
    ∀ g ∈ ix.byModule.entries, r ∈ g.2 → g.1 = module

theorem placed_iff (hr : r ∈ ix.records) (hk : r.kind.isSome) :
    ix.Placed r ↔ r.module ≠ some "" := by
  have hpos : 0 < ix.records.count r := List.count_pos_iff.2 hr
  have hn : r.needsModule ↔ r.module = none ∨ r.module = some "" := by
    rw [Record.needsModule_iff, Record.LacksModule, and_iff_right hk]
  have hu : r ∈ ix.unresolved ↔ r.module = none ∨ r.module = some "" := by
    rw [unresolved, List.mem_filter, and_iff_right hr, hn]
  have hc : ix.unresolved.count r = if r.needsModule then ix.records.count r else 0 :=
    count_filter_ite _ _ _
  constructor
  · intro h hm
    have ho := h.once
    rw [hc, grouped_eq hr, if_pos (hn.2 (.inr hm)), if_pos (by simp [hm])] at ho
    omega
  · intro hne
    cases hm : r.module with
    | none =>
      refine ⟨?_, fun _ g hg hrg => ?_, fun h => (h (hu.2 (.inl hm))).elim⟩
      · rw [hc, grouped_eq hr, if_pos (hn.2 (.inl hm)), if_neg (by simp [hm]), add_zero]
      · rw [mem_group_iff hg, hm] at hrg
        cases hrg.2
    | some m =>
      have hs : ¬(r.module = none ∨ r.module = some "") := by
        rw [hm] at hne ⊢
        simpa using hne
      refine ⟨?_, fun h => (hs (hu.1 h)).elim, fun _ => ⟨m, _, hm, get?_byModule_of_mem hr hm, ?_, ?_⟩⟩
      · rw [hc, grouped_eq hr, if_neg (mt hn.1 hs), if_pos (by simp [hm]), zero_add]
      · exact List.mem_filter.2 ⟨hr, by simpa using hm⟩
      · intro g hg hrg
        rw [mem_group_iff hg, hm, Option.some.injEq] at hrg
        exact hrg.2.symm

end Record

theorem placed_iff_tabs :
    let ix := build
      [⟨"app/index.js", "js", "/**\n * @ngdoc module\n * @name app\n */"⟩,
        ⟨"app/ui/tabs.js", "js", "/**\n * @ngdoc directive\n * @name tabs\n */"⟩]
    let r : Record := { Record.blank (some "directive") with
      name := "tabs", module := "app", parent := some ⟨"app", none⟩, file := "app/ui/tabs.js" }
    r ∈ ix.records ∧ r.kind.isSome ∧ (ix.Placed r ↔ r.module ≠ some "") := by
  intro ix r
  have hr : r ∈ ix.records := by decide +kernel
  exact ⟨hr, rfl, placed_iff hr rfl⟩

/-- A module tag without content. -/
theorem not_placed_of_empty_module :
    let ix := build [⟨"src/store.js", "js", "/**\n * @ngdoc service\n * @name store\n * @module\n */"⟩]
    let r : Record := { Record.blank (some "service") with
      name := "store", module := "", parent := some ⟨"", none⟩, file := "src/store.js" }
    r ∈ ix.records ∧ r.kind.isSome ∧ r ∈ ix.unresolved ∧ ("", [r]) ∈ ix.byModule.entries ∧
      ¬ix.Placed r := by
  intro ix r
  have hu : r ∈ ix.unresolved := by decide +kernel
  have hg : ("", [r]) ∈ ix.byModule.entries := by decide +kernel
  exact ⟨by decide +kernel, rfl, hu, hg, fun h => h.apart hu _ hg List.mem_cons_self⟩

end DocHarvest.Index
