import DocHarvest.Proofs.Index.Resolution
import DocHarvest.Proofs.Scope.Walk

/-! The declaration nearest to a directory. Of the directories outwards the first that declares a module
decides, in it the first file that does, and in the file the first record. -/

namespace DocHarvest

namespace Scope

/-- The path goes on from the scope with one name. -/
def Inside (scope path : String) : Prop :=
  ∃ name, path.toList = scope.toList ++ name ∧ name ≠ [] ∧ '/' ∉ name ∧ '\\' ∉ name

lemma contains_iff_inside {scope path : String} : contains scope path ↔ Inside scope path := by
  have hs : ∀ name : List Char, (∀ c ∈ name, ¬isSeparator c) ↔ '/' ∉ name ∧ '\\' ∉ name := by
    intro name
    simp only [isSeparator, Bool.or_eq_true, beq_iff_eq, not_or, forall_and]
    simp only [List.forall_mem_ne']
  simp only [contains_iff, hs, Inside]

/-- A scope that ends in a separator is the directory of every path in it. -/
lemma contains_iff_directory {scope path : String} (hs : IsDirectory scope) :
    contains scope path ↔ directory path = scope ∧ path ≠ scope := by
  constructor
  · intro h
    refine ⟨directory_of_contains hs h, ?_⟩
    rintro rfl
    obtain ⟨name, hp, hne, -⟩ := contains_iff.1 h
    exact hne (List.self_eq_append_right.1 hp)
  · rintro ⟨rfl, hne⟩
    obtain ⟨name, hp, hn⟩ := exists_name path
    refine contains_iff.2 ⟨name, hp, ?_, hn⟩
    rintro rfl
    rw [List.append_nil] at hp
    exact hne (String.toList_inj.1 hp)

end Scope

lemma Record.isSome_declared?_iff {r : Record} : r.declared?.isSome ↔ ∃ m, r.Declares m := by
  rw [Option.isSome_iff_exists]
  simp only [Record.declared?_eq_some_iff]

/-- The entry lies in the scope and declares a module. -/
def Entry.DeclaresIn (scope : String) (e : Entry) : Prop :=
  Scope.Inside scope e.path ∧ ∃ r ∈ e.records, ∃ m, r.Declares m

namespace Index

/-- Some entry in the scope declares a module. -/
def DeclaresIn (ix : Index) (scope : String) : Prop :=
  ∃ e ∈ ix.entries, e.DeclaresIn scope

variable {ix : Index}

lemma declares_of_contains_iff {scope : String} {e : Entry} :
    Scope.contains scope e.path ∧ (e.records.findSome? Record.declared?).isSome ↔
      e.DeclaresIn scope := by
  rw [Scope.contains_iff_inside, List.findSome?_isSome_iff, Entry.DeclaresIn]
  simp only [Record.isSome_declared?_iff]

lemma declaredIn?_eq_some_iff {scope m : String} :
    ix.declaredIn? scope = some m ↔ ∃ e r, IsFirst (Entry.DeclaresIn scope) ix.entries e ∧
      IsFirst (fun r => ∃ m, r.Declares m) e.records r ∧ r.Declares m := by
  rw [declaredIn?_eq, findSome?_eq_some_iff_isFirst]
  refine exists_congr fun e => ?_
  rw [isFirst_filter, isFirst_congr fun _ => declares_of_contains_iff, findSome?_eq_some_iff_isFirst]
  simp only [Record.isSome_declared?_iff, Record.declared?_eq_some_iff, exists_and_left]

lemma isSome_declaredIn?_iff {scope : String} : (ix.declaredIn? scope).isSome ↔ ix.DeclaresIn scope := by
  rw [declaredIn?_eq, List.findSome?_isSome_iff]
  simp only [List.mem_filter, and_assoc, declares_of_contains_iff, DeclaresIn]

theorem governing?_nearest (ix : Index) (dir : String) :
    (∀ m, ix.governing? dir = some m ↔ ∃ scope e r, IsFirst ix.DeclaresIn (Scope.outwards dir) scope ∧
      IsFirst (Entry.DeclaresIn scope) ix.entries e ∧
      IsFirst (fun r => ∃ m, r.Declares m) e.records r ∧ r.Declares m) ∧
    (ix.governing? dir = none ↔ ∀ scope ∈ Scope.outwards dir, ¬ix.DeclaresIn scope) ∧
    ∀ path, ∀ scope ∈ Scope.outwards (Scope.directory path), ∀ e ∈ ix.entries,
      Scope.Inside scope e.path ↔ Scope.directory e.path = scope ∧ e.path ≠ scope := by
  rw [governing?, Scope.chain_eq]
  refine ⟨fun m => ?_, ?_, ?_⟩
  · rw [findSome?_eq_some_iff_isFirst]
    refine exists_congr fun scope => ?_
    rw [isFirst_congr fun _ => isSome_declaredIn?_iff, declaredIn?_eq_some_iff]
    simp only [exists_and_left]
  · rw [List.findSome?_eq_none_iff]
    refine forall₂_congr fun scope _ => ?_
    rw [← isSome_declaredIn?_iff, Option.not_isSome_iff_eq_none]
  · intro path scope hs e _
    rw [← Scope.chain_eq] at hs
    rw [← Scope.contains_iff_inside]
    exact Scope.contains_iff_directory
      (Scope.isDirectory_of_mem_chain (Scope.isDirectory_directory path) hs)

end Index

end DocHarvest
