import DocHarvest.Index.Query
import DocHarvest.Proofs.Dictionary
import DocHarvest.Proofs.Index.Position

/-! Resolving files in any order. The modules that an index declares stay what they are while records
are resolved, so each record ends as the first index alone decides. -/

namespace DocHarvest

lemma isUnset_iff {value : Option String} : isUnset value ↔ value = none ∨ value = some "" := by
  cases value with
  | none => simp [isUnset]
  | some t => simp [isUnset]

namespace Record

def LacksModule (r : Record) : Prop :=
  r.kind.isSome ∧ (r.module = none ∨ r.module = some "")

lemma needsModule_iff {r : Record} : r.needsModule ↔ r.LacksModule := by
  rw [needsModule, Bool.and_eq_true, isUnset_iff, LacksModule]

def declared? (r : Record) : Option String :=
  if r.declaresModule then r.name else none

@[simp] lemma module_setModule (module : String) (r : Record) :
    (r.setModule module).module = some module := rfl

lemma find?_declaresModule (rs : List Record) :
    (rs.find? declaresModule).bind name = rs.findSome? declared? := by
  induction rs with
  | nil => rfl
  | cons r rs ih =>
    by_cases hr : r.declaresModule
    · obtain ⟨m, hm⟩ : ∃ m, r.name = some m := by
        cases hn : r.name with
        | none => simp [declaresModule, isUnset, hn] at hr
        | some m => exact ⟨m, rfl⟩
      simp [declared?, hr, hm]
    · simp only [List.find?_cons, List.findSome?_cons, declared?, hr, ih]
      simp

def Declares (r : Record) (m : String) : Prop :=
  r.kind = some "module" ∧ r.name = some m ∧ m ≠ ""

lemma declared?_eq_some_iff {r : Record} {m : String} : r.declared? = some m ↔ r.Declares m := by
  rw [declared?, Declares, Option.ite_none_right_eq_some, declaresModule, isModule]
  constructor
  · rintro ⟨hr, hm⟩
    simp_all [isUnset]
  · rintro ⟨hk, hm, hne⟩
    simp [isUnset, hk, hm, hne]

end Record

namespace Index

lemma findSome?_flatMap_records (es : List Entry) :
    (es.flatMap Entry.records).findSome? Record.declared? =
      es.findSome? fun e => e.records.findSome? Record.declared? := by
  induction es with
  | nil => rfl
  | cons e es ih =>
    rw [List.flatMap_cons, List.findSome?_append, List.findSome?_cons, ih]
    cases e.records.findSome? Record.declared? <;> rfl

lemma declaredIn?_eq (ix : Index) (scope : String) :
    ix.declaredIn? scope =
      (ix.entries.filter fun e => Scope.contains scope e.path).findSome? fun e =>
        e.records.findSome? Record.declared? := by
  rw [declaredIn?, Record.find?_declaresModule, findSome?_flatMap_records]

lemma ne_empty_of_governing? {ix : Index} {dir m : String} (h : ix.governing? dir = some m) :
    m ≠ "" := by
  obtain ⟨scope, _, hs⟩ := List.exists_of_findSome?_eq_some h
  rw [declaredIn?_eq] at hs
  obtain ⟨e, _, he⟩ := List.exists_of_findSome?_eq_some hs
  obtain ⟨r, _, hr⟩ := List.exists_of_findSome?_eq_some he
  exact (Record.declared?_eq_some_iff.1 hr).2.2

@[simp] lemma declared?_resolveRecord (ix : Index) (r : Record) :
    (ix.resolveRecord r).declared? = r.declared? := by
  rw [resolveRecord]
  split <;> rfl

def resolveEntry (ix : Index) (path : String) (e : Entry) : Entry :=
  if e.path = path then { e with records := e.records.map ix.resolveRecord } else e

lemma resolveEntry_path (ix : Index) (path : String) (e : Entry) :
    (ix.resolveEntry path e).path = e.path := by
  rw [resolveEntry]
  split <;> rfl

lemma entries_resolve (ix : Index) (path : String) :
    (ix.resolve path).entries = ix.entries.map (ix.resolveEntry path) := by
  rw [resolve]
  split
  · next i hi => exact entries_update hi _
  · next hn =>
    rw [List.map_congr_left (g := id), List.map_id]
    intro e he
    rw [resolveEntry, if_neg, id]
    rintro rfl
    exact position?_eq_none_iff.1 hn (List.mem_map_of_mem he)

@[simp] lemma positions_resolve (ix : Index) (path : String) :
    (ix.resolve path).positions = ix.positions := by
  rw [resolve]
  split <;> rfl

lemma findSome?_resolveEntry (ix : Index) (path : String) (e : Entry) :
    (ix.resolveEntry path e).records.findSome? Record.declared? =
      e.records.findSome? Record.declared? := by
  rw [resolveEntry]
  split
  · simp only [List.findSome?_map, Function.comp_def, declared?_resolveRecord]
  · rfl

lemma declaredIn?_resolve (ix : Index) (path : String) :
    (ix.resolve path).declaredIn? = ix.declaredIn? := by
  funext scope
  simp only [declaredIn?_eq, entries_resolve, List.filter_map, List.findSome?_map, Function.comp_def,
    resolveEntry_path, findSome?_resolveEntry]

@[simp] lemma governing?_resolve (ix : Index) (path : String) :
    (ix.resolve path).governing? = ix.governing? := by
  funext dir
  rw [governing?, governing?, declaredIn?_resolve]

@[simp] lemma missingModule?_resolve (ix : Index) (path : String) :
    (ix.resolve path).missingModule? = ix.missingModule? := by
  funext r
  rw [missingModule?, missingModule?, governing?_resolve]

@[simp] lemma resolveRecord_resolve (ix : Index) (path : String) :
    (ix.resolve path).resolveRecord = ix.resolveRecord := by
  funext r
  rw [resolveRecord, resolveRecord, missingModule?_resolve]

lemma missingModule?_eq_some {ix : Index} {r : Record} {m : String} :
    ix.missingModule? r = some m ↔
      r.needsModule ∧ ix.governing? (Scope.directory r.file) = some m := by
  rw [missingModule?]
  split <;> simp_all

@[simp] lemma missingModule?_resolveRecord (ix : Index) (r : Record) :
    ix.missingModule? (ix.resolveRecord r) = none := by
  rw [resolveRecord]
  split
  · next m hm =>
    -- Every answer is a name, so the record lacks nothing from then on.
    have he := ne_empty_of_governing? (missingModule?_eq_some.1 hm).2
    rw [missingModule?, if_neg]
    simp [Record.needsModule, isUnset, he]
  · next hm => exact hm

lemma module_resolveRecord (ix : Index) (r : Record) :
    (ix.resolveRecord r).module = (ix.missingModule? r).or r.module := by
  rw [resolveRecord]
  split
  · next m hm => rw [hm, Option.some_or, Record.module_setModule]
  · next hm => rw [hm, Option.none_or]

lemma module_ne_of_missingModule? {ix : Index} {r : Record} {m : String}
    (h : ix.missingModule? r = some m) : r.module ≠ some m := by
  obtain ⟨hr, hg⟩ := missingModule?_eq_some.1 h
  rcases (Record.needsModule_iff.1 hr).2 with hm | hm
  · simp [hm]
  · simpa [hm] using (ne_empty_of_governing? hg).symm

lemma resolveRecord_resolveRecord (ix : Index) (r : Record) :
    ix.resolveRecord (ix.resolveRecord r) = ix.resolveRecord r := by
  rw [resolveRecord, missingModule?_resolveRecord]

lemma resolveRecord_ne_iff {ix : Index} {r : Record} :
    r ≠ ix.resolveRecord r ↔ (ix.missingModule? r).isSome := by
  constructor
  · intro h
    by_contra hn
    rw [resolveRecord, Option.not_isSome_iff_eq_none.1 hn] at h
    exact h rfl
  · intro h he
    rw [he, missingModule?_resolveRecord] at h
    cases h

def resolvedEntry (ix : Index) (paths : List String) (e : Entry) : Entry where
  path := e.path
  records := e.records.map fun r => if e.path ∈ paths then ix.resolveRecord r else r

lemma resolvedEntry_resolveEntry (ix : Index) (path : String) (paths : List String) (e : Entry) :
    (ix.resolve path).resolvedEntry paths (ix.resolveEntry path e) =
      ix.resolvedEntry (path :: paths) e := by
  rw [resolveEntry]
  by_cases hp : e.path = path
  · simp only [resolvedEntry, resolveRecord_resolve, hp, if_true, List.map_map, List.mem_cons,
       true_or, Entry.mk.injEq, true_and]
    refine List.map_congr_left fun r _ => ?_
    rw [Function.comp_apply]
    split
    · exact ix.resolveRecord_resolveRecord r
    · rfl
  · simp [resolvedEntry, hp]

lemma resolveEach_entries (ix : Index) (paths : List String) :
    (ix.resolveEach paths).2.entries = ix.entries.map (ix.resolvedEntry paths) := by
  induction paths generalizing ix with
  | nil =>
    have he : ix.resolvedEntry [] = id := by
      funext e
      simp [resolvedEntry]
    rw [he, List.map_id, resolveEach]
  | cons path paths ih =>
    simp only [resolveEach, ih]
    simp only [entries_resolve, List.map_map]
    exact List.map_congr_left fun e _ => ix.resolvedEntry_resolveEntry path paths e

def missing (ix : Index) (e : Entry) : Nat :=
  e.records.countP fun r => (ix.missingModule? r).isSome

lemma missing_resolveEntry (ix : Index) (path : String) (e : Entry) :
    ix.missing (ix.resolveEntry path e) = if e.path = path then 0 else ix.missing e := by
  rw [resolveEntry]
  by_cases hp : e.path = path
  · simp [missing, hp, List.countP_eq_zero]
  · simp [hp]

lemma resolvable_eq_sum (ix : Index) (path : String) :
    ix.resolvable path = (ix.entries.map fun e => if e.path = path then ix.missing e else 0).sum := by
  rw [sum_of_key_eq _ ix.distinct, resolvable, recordsOf?_eq_find?]
  cases ix.entries.find? (·.path == path) <;> rfl

lemma resolveEach_count (ix : Index) (paths : List String) :
    (ix.resolveEach paths).1 =
      (ix.entries.map fun e => if e.path ∈ paths then ix.missing e else 0).sum := by
  induction paths generalizing ix with
  | nil => simp [resolveEach]
  | cons path paths ih =>
    have hm : (ix.resolve path).missing = ix.missing := by
      funext e
      simp only [missing, missingModule?_resolve]
    simp only [resolveEach, ih, resolvable_eq_sum, hm]
    simp only [entries_resolve, List.map_map, ← List.sum_map_add]
    congr 1
    refine List.map_congr_left fun e _ => ?_
    simp only [Function.comp_apply, resolveEntry_path, missing_resolveEntry, List.mem_cons]
    by_cases hp : e.path = path <;> simp [hp]

/-- How many records differ between two indexes, place by place. -/
def changes (before after : Index) : Nat :=
  ((before.entries.zip after.entries).map fun p =>
    (p.1.records.zip p.2.records).countP fun q => q.1 ≠ q.2).sum

lemma changes_resolveEach (ix : Index) (paths : List String) :
    ix.changes (ix.resolveEach paths).2 = (ix.resolveEach paths).1 := by
  rw [changes, resolveEach_entries, resolveEach_count, ← List.map_prod_left_eq_zip, List.map_map]
  congr 1
  refine List.map_congr_left fun e _ => ?_
  simp only [Function.comp_def, resolvedEntry, ← List.map_prod_left_eq_zip, List.countP_map, missing]
  by_cases hp : e.path ∈ paths
  · simp only [hp, if_true]
    refine List.countP_congr fun r _ => ?_
    simpa using resolveRecord_ne_iff
  · simp [hp]

/-- The record `r'` in the place of `r` after some files have been resolved, `listed` if the file of
`r` is one of them: it differs from `r` only if `r` lacks a module and one governs its directory, and
then only in the modules that are filled in. -/
structure Resolves (ix : Index) (listed : Prop) (r r' : Record) : Prop where
  kept : ¬(listed ∧ r.LacksModule ∧ (ix.governing? (Scope.directory r.file)).isSome) → r' = r
  filled : ∀ m, listed → r.LacksModule → ix.governing? (Scope.directory r.file) = some m →
    r' = { r with
      module := some m
      parent := r.parent.map fun p =>
        if p.module = none ∨ p.module = some "" then { p with module := some m } else p }

lemma setModule_eq (module : String) (p : Parent) :
    p.setModule module =
      if p.module = none ∨ p.module = some "" then { p with module := some module } else p := by
  simp only [Parent.setModule, isUnset_iff]

lemma resolves_resolveRecord (ix : Index) (listed : Prop) [Decidable listed] (r : Record) :
    ix.Resolves listed r (if listed then ix.resolveRecord r else r) where
  kept h := by
    split
    · next hl =>
      have hn : ix.missingModule? r = none := by
        rw [missingModule?]
        split
        · next hr =>
          rw [Record.needsModule_iff] at hr
          simpa [hl, hr] using h
        · rfl
      rw [resolveRecord, hn]
    · rfl
  filled m hl hr hm := by
    rw [if_pos hl, resolveRecord, missingModule?_eq_some.2 ⟨Record.needsModule_iff.2 hr, hm⟩]
    simp only [Record.setModule, setModule_eq]

@[simp] lemma positions_resolveEach (ix : Index) (paths : List String) :
    (ix.resolveEach paths).2.positions = ix.positions := by
  induction paths generalizing ix with
  | nil => rfl
  | cons path paths ih =>
    rw [resolveEach]
    exact (ih (ix.resolve path)).trans (ix.positions_resolve path)

lemma resolveEach_congr {ix : Index} {paths order : List String}
    (h : ∀ p ∈ ix.paths, p ∈ order ↔ p ∈ paths) : ix.resolveEach order = ix.resolveEach paths := by
  have hm : ∀ e ∈ ix.entries, e.path ∈ order ↔ e.path ∈ paths := fun e he =>
    h e.path (List.mem_map_of_mem he)
  refine Prod.ext ?_ (Index.ext ?_ (by simp))
  · rw [resolveEach_count, resolveEach_count]
    congr 1
    refine List.map_congr_left fun e he => ?_
    simp only [hm e he]
  · rw [resolveEach_entries, resolveEach_entries]
    refine List.map_congr_left fun e he => ?_
    simp only [resolvedEntry, hm e he]

@[simp] lemma missingModule?_resolveEach (ix : Index) (paths : List String) :
    (ix.resolveEach paths).2.missingModule? = ix.missingModule? := by
  induction paths generalizing ix with
  | nil => rfl
  | cons path paths ih =>
    rw [resolveEach]
    exact (ih (ix.resolve path)).trans (ix.missingModule?_resolve path)

lemma records_resolveAll (ix : Index) :
    ix.resolveAll.2.records = ix.records.map ix.resolveRecord := by
  rw [resolveAll, records, resolveEach_entries, List.flatMap_map, records, List.map_flatMap]
  refine List.flatMap_congr fun e he => ?_
  have hp : e.path ∈ ix.paths := List.mem_map_of_mem he
  simp only [resolvedEntry, hp, if_true]

lemma resolveEach_eq_self {ix : Index} (h : ∀ r ∈ ix.records, ix.missingModule? r = none)
    (paths : List String) : ix.resolveEach paths = (0, ix) := by
  have hr : ∀ e ∈ ix.entries, ∀ r ∈ e.records, ix.missingModule? r = none := fun e he r hm =>
    h r (List.mem_flatMap.2 ⟨e, he, hm⟩)
  refine Prod.ext ?_ (Index.ext ?_ (by simp))
  · rw [resolveEach_count, List.sum_eq_zero]
    intro n hn
    obtain ⟨e, he, rfl⟩ := List.mem_map.1 hn
    have hc : ix.missing e = 0 := List.countP_eq_zero.2 fun r hm => by simp [hr e he r hm]
    rw [hc, ite_self]
  · rw [resolveEach_entries, List.map_congr_left (g := id), List.map_id]
    intro e he
    have hs : ∀ r ∈ e.records, (if e.path ∈ paths then ix.resolveRecord r else r) = r := by
      intro r hm
      rw [resolveRecord, hr e he r hm, ite_self]
    rw [resolvedEntry, List.map_congr_left hs, List.map_id']
    rfl

lemma resolveAll_resolveAll (ix : Index) : ix.resolveAll.2.resolveAll = (0, ix.resolveAll.2) := by
  refine resolveEach_eq_self (fun r hr => ?_) _
  rw [records_resolveAll] at hr
  obtain ⟨r, -, rfl⟩ := List.mem_map.1 hr
  rw [resolveAll, missingModule?_resolveEach, missingModule?_resolveRecord]

lemma needsModule_resolveRecord (ix : Index) (r : Record) :
    (ix.resolveRecord r).needsModule =
      (r.needsModule && (ix.governing? (Scope.directory r.file)).isNone) := by
  rw [resolveRecord, missingModule?]
  split
  · next m hm =>
    split at hm
    · have he := ne_empty_of_governing? hm
      simp [Record.needsModule, isUnset, he, hm]
    · cases hm
  · next hm =>
    split at hm
    · next hr => simp [hr, hm]
    · next hr => simp [hr]

lemma unresolved_resolveAll (ix : Index) :
    ix.resolveAll.2.unresolved =
      ix.unresolved.filter fun r => (ix.governing? (Scope.directory r.file)).isNone := by
  have hf : Record.needsModule ∘ ix.resolveRecord = fun r =>
      (ix.governing? (Scope.directory r.file)).isNone && r.needsModule := by
    funext r
    rw [Function.comp_apply, needsModule_resolveRecord, Bool.and_comm]
  rw [unresolved, records_resolveAll, List.filter_map, hf, unresolved, List.filter_filter,
    List.map_congr_left (g := id), List.map_id]
  intro r hr
  have hg : ix.governing? (Scope.directory r.file) = none := by
    have hn := (Bool.and_eq_true_iff.1 (List.mem_filter.1 hr).2).1
    exact Option.isNone_iff_eq_none.1 hn
  rw [resolveRecord, missingModule?, hg, ite_self]
  rfl

theorem resolveEach_pointwise (ix : Index) (paths : List String) :
    List.Forall₂ (fun e e' => e'.path = e.path ∧
        List.Forall₂ (ix.Resolves (e.path ∈ paths)) e.records e'.records)
      ix.entries (ix.resolveEach paths).2.entries ∧
    (ix.resolveEach paths).1 = ix.changes (ix.resolveEach paths).2 ∧
    (∀ order, (∀ p ∈ ix.paths, p ∈ order ↔ p ∈ paths) →
      ix.resolveEach order = ix.resolveEach paths) ∧
    (∀ order, ix.paths ⊆ order → ix.resolveEach order = ix.resolveAll) ∧
    ix.resolveAll.2.resolveAll = (0, ix.resolveAll.2) ∧
    ix.resolveAll.2.unresolved =
      ix.unresolved.filter fun r => (ix.governing? (Scope.directory r.file)).isNone := by
  refine ⟨?_, (ix.changes_resolveEach paths).symm, fun order h => resolveEach_congr h,
    fun order h => resolveEach_congr fun p hp => ⟨fun _ => hp, fun _ => h hp⟩,
    ix.resolveAll_resolveAll, ix.unresolved_resolveAll⟩
  rw [resolveEach_entries, List.forall₂_map_right_iff, List.forall₂_same]
  intro e _
  refine ⟨rfl, ?_⟩
  rw [resolvedEntry, List.forall₂_map_right_iff, List.forall₂_same]
  intro r _
  exact ix.resolves_resolveRecord _ r

end Index

end DocHarvest
