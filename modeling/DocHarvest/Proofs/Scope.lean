import DocHarvest.Scope
import DocHarvest.Proofs.Text.Cutting

/-! Scopes as beginnings of paths. A scope contains the paths that go on with one name. A chain takes
the beginnings of its directory that end in a slash, so below a base it ends with the chain of the base. -/

namespace DocHarvest.Scope

open Text

def IsDirectory (dir : String) : Prop :=
  ∀ c ∈ dir.toList.getLast?, isSeparator c

lemma contains_iff {scope path : String} :
    contains scope path ↔ ∃ name, path.toList = scope.toList ++ name ∧ name ≠ [] ∧
      ∀ c ∈ name, ¬isSeparator c := by
  rw [contains]
  split
  · next name hn =>
    have hp := List.isPrefixOf?_eq_some_iff_append_eq.1 hn
    simp only [← hp, List.append_cancel_left_eq, exists_eq_left']
    simp
  · next hn =>
    simp only [Bool.false_eq_true, false_iff, not_exists, not_and]
    intro name hp
    rw [List.isPrefixOf?_eq_some_iff_append_eq.2 hp.symm] at hn
    cases hn

section Directory

variable {dir path : String} {name : List Char}

lemma directory_eq (hd : IsDirectory dir) (hp : path.toList = dir.toList ++ name)
    (hn : ∀ c ∈ name, ¬isSeparator c) : directory path = dir := by
  have hr : ∀ c ∈ name.reverse, (!isSeparator c) = true := by simpa using hn
  have hh : ∀ c ∈ dir.toList.reverse.head?, ¬(!isSeparator c) = true := by
    rw [List.head?_reverse]
    simpa [IsDirectory] using hd
  rw [directory, hp, List.reverse_append, dropWhile_append_stop hr hh, List.reverse_reverse,
    String.ofList_toList]

lemma exists_name (path : String) :
    ∃ name, path.toList = (directory path).toList ++ name ∧ ∀ c ∈ name, ¬isSeparator c := by
  refine ⟨(path.toList.reverse.takeWhile (!isSeparator ·)).reverse, ?_, ?_⟩
  · rw [directory, String.toList_ofList, ← List.reverse_append, List.takeWhile_append_dropWhile,
      List.reverse_reverse]
  · intro c hc
    simpa using List.mem_takeWhile_imp (List.mem_reverse.1 hc)

lemma isPrefix_directory (path : String) : (directory path).toList <+: path.toList := by
  obtain ⟨name, hp, -⟩ := exists_name path
  exact ⟨name, hp.symm⟩

lemma isDirectory_directory (path : String) : IsDirectory (directory path) := by
  intro c hc
  rw [directory, String.toList_ofList, List.getLast?_reverse] at hc
  have hs := List.head?_dropWhile_not (!isSeparator ·) path.toList.reverse
  rw [Option.mem_def.1 hc] at hs
  simpa using hs

lemma directory_of_contains (hd : IsDirectory dir) (h : contains dir path) : directory path = dir := by
  obtain ⟨name, hp, -, hn⟩ := contains_iff.1 h
  exact directory_eq hd hp hn

end Directory

section Chain

/-- The parts of a text that start at a slash and reach to its end, longest first. -/
def fromSlashes (d : List Char) : List (List Char) :=
  d.tails.filter (·.head? == some '/')

lemma fromSlashes_slash (d : List Char) : fromSlashes ('/' :: d) = ('/' :: d) :: fromSlashes d := by
  simp [fromSlashes]

lemma fromSlashes_of_ne {c : Char} (h : c ≠ '/') (d : List Char) :
    fromSlashes (c :: d) = fromSlashes d := by
  simp [fromSlashes, h]

lemma fromSlashes_of_notMem {d : List Char} (h : '/' ∉ d) : fromSlashes d = [] := by
  rw [fromSlashes, List.filter_eq_nil_iff]
  intro s hs hh
  have hm : '/' ∈ s := List.mem_of_head? (beq_iff_eq.1 hh)
  exact h (((List.mem_tails s d).1 hs).subset hm)

lemma fromSlashes_append (d base : List Char) :
    fromSlashes (d ++ base) = (fromSlashes d).map (· ++ base) ++ fromSlashes base := by
  induction d with
  | nil => rfl
  | cons c d ih =>
    by_cases h : c = '/'
    · rw [h, List.cons_append, fromSlashes_slash, fromSlashes_slash, ih]
      rfl
    · rw [List.cons_append, fromSlashes_of_ne h, fromSlashes_of_ne h, ih]

lemma chainBackwards_dropWhile {d : List Char} (h : '/' ∈ d) :
    chainBackwards (d.dropWhile (· != '/')) = fromSlashes d := by
  obtain ⟨name, rest, rfl, hn⟩ := List.eq_append_cons_of_mem h
  have hd : (name ++ '/' :: rest).dropWhile (· != '/') = '/' :: rest :=
    dropWhile_append_stop (fun c hc => bne_iff_ne.2 (ne_of_mem_of_not_mem hc hn)) (by simp)
  rw [hd, fromSlashes_append, fromSlashes_of_notMem hn, fromSlashes_slash, List.map_nil,
    List.nil_append, chainBackwards]
  congr 1
  -- The part that the walk stops at has no slash but its first, so it leaves none out.
  by_cases hr : '/' ∈ rest
  · have hpos := List.count_pos_iff.2 hr
    rw [if_neg, List.tail_cons, chainBackwards_dropWhile hr]
    rw [List.count_cons_self]
    omega
  · rw [if_pos, fromSlashes_of_notMem hr]
    rw [List.count_cons_self, List.count_eq_zero_of_not_mem hr]
    omega
termination_by d.length

lemma slash_mem_tail {d : List Char} (h : ¬d.count '/' < 2) : '/' ∈ d.tail := by
  cases d with
  | nil => simp at h
  | cons c d =>
    rw [List.count_cons] at h
    rw [List.tail_cons, ← List.count_pos_iff]
    split at h <;> omega

lemma chainBackwards_eq (d : List Char) :
    chainBackwards d = d :: if d.count '/' < 2 then [] else fromSlashes d.tail := by
  rw [chainBackwards]
  congr 1
  split
  · rfl
  · next hc => exact chainBackwards_dropWhile (slash_mem_tail hc)

lemma chainBackwards_slash (d : List Char) : chainBackwards ('/' :: d) = fromSlashes ('/' :: d) := by
  simpa using chainBackwards_dropWhile (List.mem_cons_self (a := '/') (l := d))

lemma chain_append {base dir : String} (hb : base.toList.getLast? = some '/')
    (hd : dir.toList.getLast? = some '/') :
    chain (base ++ dir) = (chain dir).map (base ++ ·) ++ chain base := by
  obtain ⟨b, hb⟩ := List.head?_eq_some_iff.1 (List.head?_reverse.trans hb)
  obtain ⟨d, hd⟩ := List.head?_eq_some_iff.1 (List.head?_reverse.trans hd)
  have hs : ∀ s : List Char, String.ofList (s ++ '/' :: b).reverse = base ++ String.ofList s.reverse := by
    intro s
    rw [← hb, List.reverse_append, List.reverse_reverse, String.ofList_append, String.ofList_toList]
  rw [chain, chain, chain, String.toList_append, List.reverse_append, hb, hd, List.cons_append,
    chainBackwards_slash, chainBackwards_slash, chainBackwards_slash, ← List.cons_append,
    fromSlashes_append, List.map_append, List.map_map, List.map_map]
  congr 1
  exact List.map_congr_left fun s _ => hs s

lemma eq_or_of_mem_chain {dir scope : String} (h : scope ∈ chain dir) :
    scope = dir ∨ scope.toList <+: dir.toList ∧ scope.toList.getLast? = some '/' := by
  obtain ⟨s, hs, rfl⟩ := List.mem_map.1 h
  rw [String.toList_ofList, List.getLast?_reverse]
  rw [chainBackwards_eq, List.mem_cons] at hs
  rcases hs with rfl | hs
  · left
    rw [List.reverse_reverse, String.ofList_toList]
  · right
    split at hs
    · cases hs
    · obtain ⟨ht, hh⟩ := List.mem_filter.1 hs
      have hsuf := ((List.mem_tails _ _).1 ht).trans (List.tail_suffix _)
      rw [← List.reverse_prefix, List.reverse_reverse] at hsuf
      exact ⟨hsuf, by simpa using hh⟩

lemma chain_eq_cons (dir : String) :
    chain dir = dir :: if dir.toList.count '/' < 2 then []
      else (fromSlashes dir.toList.reverse.tail).map fun d => String.ofList d.reverse := by
  rw [chain, chainBackwards_eq, List.map_cons, List.reverse_reverse, String.ofList_toList,
    List.count_reverse]
  split <;> rfl

lemma exists_chain_eq (dir : String) : ∃ around, chain dir = dir :: around :=
  ⟨_, chain_eq_cons dir⟩

lemma chain_of_notMem {dir : String} (h : '/' ∉ dir.toList) : chain dir = [dir] := by
  rw [chain_eq_cons, List.count_eq_zero_of_not_mem h, if_pos Nat.zero_lt_two]

lemma isDirectory_of_mem_chain {dir scope : String} (hd : IsDirectory dir)
    (h : scope ∈ chain dir) : IsDirectory scope := by
  rcases eq_or_of_mem_chain h with rfl | ⟨-, hl⟩
  · exact hd
  · intro c hc
    rw [hl, Option.mem_some] at hc
    rw [← hc]
    rfl

end Chain

section Base

variable {base scope path : String}

lemma contains_base (base scope path : String) :
    contains (base ++ scope) (base ++ path) = contains scope path := by
  rw [Bool.eq_iff_iff, contains_iff, contains_iff]
  simp only [String.toList_append, List.append_assoc, List.append_cancel_left_eq]

/-- A path that goes on with a directory is not in the base itself, or in a scope around it. -/
lemma not_contains_base (hs : scope.toList <+: base.toList) (hp : '/' ∈ path.toList) :
    ¬contains scope (base ++ path) := by
  intro h
  obtain ⟨name, hn, -, hf⟩ := contains_iff.1 h
  obtain ⟨rest, hr⟩ := hs
  rw [String.toList_append, ← hr, List.append_assoc, List.append_cancel_left_eq] at hn
  exact hf '/' (hn ▸ List.mem_append_right rest hp) rfl

lemma slash_mem_directory (h : '/' ∈ path.toList) : '/' ∈ (directory path).toList := by
  obtain ⟨name, hp, hn⟩ := exists_name path
  rw [hp, List.mem_append] at h
  exact h.resolve_right fun hm => hn '/' hm rfl

lemma directory_base (h : '/' ∈ path.toList) : directory (base ++ path) = base ++ directory path := by
  obtain ⟨name, hp, hn⟩ := exists_name path
  refine directory_eq ?_ ?_ hn
  · rw [IsDirectory, String.toList_append,
      List.getLast?_append_of_ne_nil _ (List.ne_nil_of_mem (slash_mem_directory h))]
    exact isDirectory_directory path
  · rw [String.toList_append, String.toList_append, List.append_assoc, hp]

lemma getLast?_directory (h : '/' ∈ path.toList) (hb : '\\' ∉ path.toList) :
    (directory path).toList.getLast? = some '/' := by
  obtain ⟨c, hc⟩ := Option.ne_none_iff_exists'.1
    (mt List.getLast?_eq_none_iff.1 (List.ne_nil_of_mem (slash_mem_directory h)))
  have hm : c ≠ '\\' := by
    rintro rfl
    exact hb ((isPrefix_directory path).subset (List.mem_of_getLast? hc))
  have hs := isDirectory_directory path c hc
  rw [hc, Option.some.injEq]
  simpa [isSeparator, hm] using hs

end Base

end DocHarvest.Scope
