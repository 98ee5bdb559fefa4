import DocHarvest.Index.Query
import DocHarvest.Proofs.Index.Renaming

/-! Paths with backslashes for slashes. No directory stands around one that is written without a slash,
so a record then finds the modules of its own directory alone. -/

namespace DocHarvest

namespace Scope

def toBackslash (c : Char) : Char :=
  if c == '/' then '\\' else c

def backslashed (path : String) : String :=
  String.ofList (path.toList.map toBackslash)

lemma isSeparator_toBackslash (c : Char) : isSeparator (toBackslash c) = isSeparator c := by
  rw [toBackslash]
  split
  · next h => rw [beq_iff_eq.1 h]; rfl
  · rfl

lemma slash_notMem_backslashed (path : String) : '/' ∉ (backslashed path).toList := by
  rw [backslashed, String.toList_ofList, List.mem_map]
  rintro ⟨c, -, hc⟩
  rw [toBackslash] at hc
  split at hc
  · cases hc
  · next h => exact h (beq_iff_eq.2 hc)

lemma eq_of_map_toBackslash {s t : List Char} (hs : '\\' ∉ s) (ht : '\\' ∉ t)
    (h : s.map toBackslash = t.map toBackslash) : s = t := by
  have back : ∀ u : List Char, '\\' ∉ u →
      (u.map toBackslash).map (fun c => if c == '\\' then '/' else c) = u := by
    intro u hu
    rw [List.map_map, List.map_congr_left (g := id), List.map_id]
    intro c hc
    have hne : c ≠ '\\' := ne_of_mem_of_not_mem hc hu
    by_cases hs : c = '/' <;> simp [toBackslash, hs, hne]
  rw [← back s hs, h, back t ht]

lemma backslashed_inj {s t : String} (hs : '\\' ∉ s.toList) (ht : '\\' ∉ t.toList) :
    backslashed s = backslashed t ↔ s = t := by
  rw [backslashed, backslashed, String.ofList_inj, ← String.toList_inj]
  exact ⟨eq_of_map_toBackslash hs ht, congrArg _⟩

lemma not_isSeparator_map {name : List Char} :
    (∀ c ∈ name.map toBackslash, ¬isSeparator c) ↔ ∀ c ∈ name, ¬isSeparator c := by
  simp only [List.forall_mem_map, isSeparator_toBackslash]

lemma directory_backslashed (path : String) :
    directory (backslashed path) = backslashed (directory path) := by
  obtain ⟨name, hp, hn⟩ := exists_name path
  refine directory_eq ?_ ?_ (not_isSeparator_map.2 hn)
  · intro c hc
    rw [backslashed, String.toList_ofList, List.getLast?_map, Option.mem_map] at hc
    obtain ⟨x, hx, rfl⟩ := hc
    rw [isSeparator_toBackslash]
    exact isDirectory_directory path x hx
  · rw [backslashed, backslashed, String.toList_ofList, String.toList_ofList, ← List.map_append, ← hp]

lemma contains_backslashed {scope path : String} (hs : '\\' ∉ scope.toList)
    (hp : '\\' ∉ path.toList) :
    contains (backslashed scope) (backslashed path) = contains scope path := by
  rw [Bool.eq_iff_iff, contains_iff, contains_iff, backslashed, backslashed, String.toList_ofList,
    String.toList_ofList]
  constructor
  · rintro ⟨name', he, hne, hn⟩
    obtain ⟨start, name, hpath, hstart, rfl⟩ := List.map_eq_append_iff.1 he
    have hb : '\\' ∉ start := fun hm => hp (hpath ▸ List.mem_append_left name hm)
    rw [eq_of_map_toBackslash hb hs hstart] at hpath
    exact ⟨name, hpath, mt (congrArg (List.map toBackslash)) hne, not_isSeparator_map.1 hn⟩
  · rintro ⟨name, he, hne, hn⟩
    refine ⟨name.map toBackslash, ?_, ?_, not_isSeparator_map.2 hn⟩
    · rw [he, List.map_append]
    · simpa using hne

lemma chain_backslashed (dir : String) : chain (backslashed dir) = [backslashed dir] :=
  chain_of_notMem (slash_notMem_backslashed dir)

end Scope

namespace Index

def backslashed (ix : Index) : Index :=
  ix.renamed Scope.backslashed

/-- No path has a backslash. -/
def Slashed (ix : Index) : Prop :=
  ∀ e ∈ ix.entries, '\\' ∉ e.path.toList ∧ ∀ r ∈ e.records, '\\' ∉ r.file.toList

/-- The module that a record lacks, if its own directory declares one. -/
def ownModule? (ix : Index) (r : Record) : Option String :=
  if r.needsModule then ix.declaredIn? (Scope.directory r.file) else none

/-- With backslashes every record gets the same module, and the same records stay without one. -/
structure KeepsModules (ix : Index) : Prop where
  modules : ix.backslashed.resolveAll.2.records.map Record.module =
    ix.resolveAll.2.records.map Record.module
  unresolved : ix.backslashed.resolveAll.2.unresolved =
    ix.resolveAll.2.unresolved.map (Record.renamed Scope.backslashed)

lemma missingModule?_of_ownModule? {ix : Index} {r : Record} {m : String}
    (h : ix.ownModule? r = some m) : ix.missingModule? r = some m := by
  rw [ownModule?, Option.ite_none_right_eq_some] at h
  obtain ⟨around, hc⟩ := Scope.exists_chain_eq (Scope.directory r.file)
  rw [missingModule?, if_pos h.1, governing?, hc, List.findSome?_cons, h.2]

lemma ownModule?_eq_of_isSome {ix : Index} {r : Record}
    (h : (ix.missingModule? r).isSome → (ix.ownModule? r).isSome) :
    ix.ownModule? r = ix.missingModule? r := by
  cases ho : ix.ownModule? r with
  | none =>
    rw [ho] at h
    exact (Option.not_isSome_iff_eq_none.1 fun hs => Bool.false_ne_true (h hs)).symm
  | some m => exact (missingModule?_of_ownModule? ho).symm

section Slashed

variable {ix : Index} (h : ix.Slashed)
include h

lemma entries_backslashed :
    ix.backslashed.entries = ix.entries.map (Entry.renamed Scope.backslashed) := by
  have hb : ∀ path ∈ ix.paths, '\\' ∉ path.toList := by
    rw [paths, List.forall_mem_map]
    exact fun e he => (h e he).1
  exact entries_renamed fun s hs t ht => (Scope.backslashed_inj (hb s hs) (hb t ht)).1

lemma declaredIn?_backslashed {dir : String} (hd : '\\' ∉ dir.toList) :
    ix.backslashed.declaredIn? (Scope.backslashed dir) = ix.declaredIn? dir :=
  declaredIn?_of_renamed (entries_backslashed h) fun e he => Scope.contains_backslashed hd (h e he).1

lemma missingModule?_backslashed {r : Record} (hr : '\\' ∉ r.file.toList) :
    ix.backslashed.missingModule? (r.renamed Scope.backslashed) = ix.ownModule? r := by
  have hd : '\\' ∉ (Scope.directory r.file).toList := fun hm =>
    hr ((Scope.isPrefix_directory r.file).subset hm)
  have hg : ix.backslashed.governing? (Scope.directory (Scope.backslashed r.file)) =
      ix.declaredIn? (Scope.directory r.file) := by
    rw [governing?, Scope.directory_backslashed, Scope.chain_backslashed, List.findSome?_singleton,
      declaredIn?_backslashed h hd]
  rw [missingModule?, ownModule?, ← hg]
  rfl

lemma missingModule?_of_mem {r : Record} (hr : r ∈ ix.records) :
    ix.backslashed.missingModule? (r.renamed Scope.backslashed) = ix.ownModule? r := by
  obtain ⟨e, he, hm⟩ := List.mem_flatMap.1 hr
  exact missingModule?_backslashed h ((h e he).2 r hm)

lemma modules_backslashed :
    ix.backslashed.resolveAll.2.records.map Record.module =
      ix.records.map fun r => (ix.ownModule? r).or r.module := by
  rw [records_resolveAll, records_of_renamed (entries_backslashed h), List.map_map, List.map_map]
  refine List.map_congr_left fun r hr => ?_
  rw [Function.comp_apply, Function.comp_apply, module_resolveRecord, missingModule?_of_mem h hr]
  rfl

lemma keepsModules_of_own (ho : ∀ r ∈ ix.records, ix.ownModule? r = ix.missingModule? r) :
    ix.KeepsModules := by
  have hr : ix.backslashed.resolveAll.2.records =
      ix.resolveAll.2.records.map (Record.renamed Scope.backslashed) := by
    rw [records_resolveAll, records_resolveAll, records_of_renamed (entries_backslashed h),
      List.map_map, List.map_map]
    refine List.map_congr_left fun r hr => resolveRecord_renamed ?_
    rw [missingModule?_of_mem h hr, ho r hr]
  constructor
  · rw [hr, List.map_map]
    rfl
  · rw [unresolved, hr, List.filter_map]
    rfl

theorem keepsModules_iff :
    ix.backslashed.resolveAll.2.records.map Record.module =
        ix.records.map (fun r => (ix.ownModule? r).or r.module) ∧
      (ix.KeepsModules ↔
        ∀ r ∈ ix.records, (ix.missingModule? r).isSome → (ix.ownModule? r).isSome) := by
  refine ⟨modules_backslashed h, ?_, fun ho => ?_⟩
  · intro hk r hr hs
    obtain ⟨m, hm⟩ := Option.isSome_iff_exists.1 hs
    have he := hk.modules
    rw [modules_backslashed h, records_resolveAll, List.map_map, List.map_eq_map_iff] at he
    have hr := he r hr
    rw [Function.comp_apply, module_resolveRecord, hm, Option.some_or] at hr
    -- Without a declaration in its own directory the record keeps a module that is unset.
    by_contra hn
    rw [Option.not_isSome_iff_eq_none.1 hn, Option.none_or] at hr
    exact module_ne_of_missingModule? hm hr
  · exact keepsModules_of_own h fun r hr => ownModule?_eq_of_isSome (ho r hr)

end Slashed

theorem keepsModules_iff_app :
    let ix := ofSources
      [⟨"app/index.js", "js", "/**\n * @ngdoc module\n * @name app\n */"⟩,
        ⟨"app/ui/tabs.js", "js", "/**\n * @ngdoc directive\n * @name tabs\n */"⟩,
        ⟨"app/ui/index.js", "js", "/**\n * @ngdoc module\n * @name app.ui\n */"⟩]
    ix.Slashed ∧
      ix.backslashed.resolveAll.2.records.map Record.module =
        ix.records.map (fun r => (ix.ownModule? r).or r.module) ∧
      (ix.KeepsModules ↔
        ∀ r ∈ ix.records, (ix.missingModule? r).isSome → (ix.ownModule? r).isSome) := by
  intro ix
  have h : ix.Slashed := by
    unfold Slashed
    decide +kernel
  exact ⟨h, keepsModules_iff h⟩

/-- A record whose module is declared in the directory above. -/
theorem not_keepsModules_of_subdirectory :
    let ix := ofSources
      [⟨"dir/a.js", "js", "/**\n * @ngdoc module\n * @name mod1\n */"⟩,
        ⟨"dir/sub/b.js", "js", "/**\n * @ngdoc method\n * @name Widget#render\n */"⟩]
    ix.Slashed ∧ ¬ix.KeepsModules := by
  intro ix
  have h : ix.Slashed := by
    unfold Slashed
    decide +kernel
  have hm : ix.backslashed.resolveAll.2.records.map Record.module ≠
      ix.resolveAll.2.records.map Record.module := by
    decide +kernel
  exact ⟨h, fun hk => hm hk.modules⟩

end Index

end DocHarvest
