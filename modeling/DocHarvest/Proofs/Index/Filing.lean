import DocHarvest.Proofs.Index.History
import DocHarvest.Proofs.Index.Stability
import DocHarvest.Proofs.Record.Draft

/-! Records as an index of sources holds them: under the path of their file, and in the module of
their parent, which only a record that declares a module lacks. -/

namespace DocHarvest

namespace Record

/-- The parent is filled in exactly when the record is, as both lack the same module. -/
lemma Rooted.setModule {r : Record} (h : r.Rooted) (hr : r.LacksModule) (m : String) :
    (r.setModule m).Rooted where
  parent_eq_none_iff := by
    rw [Record.setModule, Option.map_eq_none_iff]
    exact h.parent_eq_none_iff
  module_eq := by
    intro p hp
    obtain ⟨q, hq, rfl⟩ := Option.map_eq_some_iff.1 hp
    have hu : isUnset q.module := by
      rw [h.module_eq q hq]
      exact isUnset_iff.2 hr.2
    rw [Parent.setModule, if_pos hu, module_setModule]

lemma Rooted.resolveRecord {r : Record} (h : r.Rooted) (ix : Index) :
    (ix.resolveRecord r).Rooted := by
  rw [Index.resolveRecord]
  split
  · next m hm => exact h.setModule (needsModule_iff.1 (Index.missingModule?_eq_some.1 hm).1) m
  · exact h

end Record

namespace Index

lemma file_resolveRecord (ix : Index) (r : Record) : (ix.resolveRecord r).file = r.file := by
  rw [resolveRecord]
  split <;> rfl

section Entries

variable {motive : Entry → Prop}

lemma forall_entries_resolve
    (hm : ∀ (ix : Index) e, motive e → motive ⟨e.path, e.records.map ix.resolveRecord⟩) {ix : Index}
    (h : ∀ e ∈ ix.entries, motive e) (path : String) : ∀ e ∈ (ix.resolve path).entries, motive e := by
  intro e he
  rw [entries_resolve] at he
  obtain ⟨x, hx, rfl⟩ := List.mem_map.1 he
  rw [resolveEntry]
  split
  · exact hm ix x (h x hx)
  · exact h x hx

lemma forall_entries_ofSources {sources : List Source}
    (hs : ∀ s ∈ sources, motive ⟨s.path, s.records⟩) : ∀ e ∈ (ofSources sources).entries, motive e := by
  induction sources using List.reverseRecOn with
  | nil => simp [ofSources, empty]
  | append_singleton sources s ih =>
    intro e he
    rw [ofSources, List.foldl_append] at he
    rcases mem_entries_insert.1 he with rfl | ⟨he, -⟩
    · exact hs s (List.mem_append_right sources (List.mem_singleton_self s))
    · exact ih (fun x hx => hs x (List.mem_append_left [s] hx)) e he

lemma forall_entries_after
    (hm : ∀ (ix : Index) e, motive e → motive ⟨e.path, e.records.map ix.resolveRecord⟩)
    {sources : List Source} (hs : ∀ s ∈ sources, motive ⟨s.path, s.records⟩) (calls : List Call) :
    (∀ e ∈ ((ofSources sources).after calls).entries, motive e) ∧
      ∀ e ∈ ((build sources).after calls).entries, motive e := by
  have hr : ∀ (ix : Index) path, (∀ e ∈ ix.entries, motive e) →
      ∀ e ∈ (ix.resolve path).entries, motive e := fun ix path h =>
    forall_entries_resolve hm h path
  have ho := forall_entries_ofSources hs
  exact ⟨after_induction hr ho calls, after_induction hr (resolveEach_induction hr ho _) calls⟩

end Entries

def Filed (ix : Index) : Prop :=
  ∀ e ∈ ix.entries, ∀ r ∈ e.records, r.file = e.path ∧ r.Rooted

lemma Filed.resolve {ix : Index} (h : ix.Filed) (path : String) : (ix.resolve path).Filed := by
  refine forall_entries_resolve (fun ix e he r hr => ?_) h path
  obtain ⟨y, hy, rfl⟩ := List.mem_map.1 hr
  obtain ⟨hf, hp⟩ := he y hy
  exact ⟨(file_resolveRecord ix y).trans hf, hp.resolveRecord ix⟩

lemma rooted_of_mem_records {s : Source} {r : Record} (h : r ∈ s.records) : r.Rooted := by
  rw [Source.records, Source.records?] at h
  split at h
  · cases h
  · obtain ⟨b, -, hb⟩ := List.mem_filterMap.1 h
    obtain ⟨r, hr, rfl⟩ := Option.map_eq_some_iff.1 hb
    have hp := Record.rooted_ofBlock? hr
    exact ⟨hp.parent_eq_none_iff, hp.module_eq⟩

lemma filed_ofSources (sources : List Source) : (ofSources sources).Filed :=
  forall_entries_ofSources fun _ _ _ hr =>
    ⟨Source.file_of_mem_records hr, rooted_of_mem_records hr⟩

theorem filed_build (sources : List Source) (calls : List Call) :
    ((ofSources sources).after calls).Filed ∧ ((build sources).after calls).Filed := by
  have hr : ∀ ix path, Filed ix → (ix.resolve path).Filed := fun ix path h => h.resolve path
  have hs := filed_ofSources sources
  exact ⟨after_induction hr hs calls, after_induction hr (resolveEach_induction hr hs _) calls⟩

end Index

end DocHarvest
