import Mathlib

/-! Lists: results that may be missing, pieces between separators, and members in a strict order. -/

namespace DocHarvest

section MapM

variable {α β : Type} {f : α → Option β} {xs : List α} {ys : List β}

lemma map_eq_of_mapM (h : xs.mapM f = some ys) : xs.map f = ys.map some := by
  induction xs generalizing ys with
  | nil =>
    cases h
    rfl
  | cons x xs ih =>
    rw [List.mapM_cons] at h
    obtain ⟨y, hy, h⟩ := Option.bind_eq_some_iff.1 h
    obtain ⟨zs, hzs, h⟩ := Option.bind_eq_some_iff.1 h
    cases h
    rw [List.map_cons, List.map_cons, hy, ih hzs]

lemma mapM_eq_some (h : xs.map f = ys.map some) : xs.mapM f = some ys := by
  induction xs generalizing ys with
  | nil =>
    cases ys with
    | nil => rfl
    | cons y ys => cases h
  | cons x xs ih =>
    cases ys with
    | nil => cases h
    | cons y ys =>
      obtain ⟨hx, hxs⟩ := List.cons.inj h
      simp [hx, ih hxs]

end MapM

lemma eq_of_mem_iff {α : Type} {r : α → α → Prop} (hr : ∀ a b, r a b → ¬r b a) {xs ys : List α}
    (hx : xs.Pairwise r) (hy : ys.Pairwise r) (h : ∀ a, a ∈ xs ↔ a ∈ ys) : xs = ys := by
  have hne : ∀ a b, r a b → a ≠ b := by
    rintro a _ hab rfl
    exact hr a a hab hab
  have hp : xs.Perm ys :=
    (List.perm_ext_iff_of_nodup (hx.imp (hne _ _)) (hy.imp (hne _ _))).2 h
  exact hp.eq_of_pairwise (fun a b _ _ hab hba => (hr a b hab hba).elim) hx hy

lemma head?_splitOnP {α : Type} (p : α → Bool) (xs : List α) :
    (xs.splitOnP p).head? = some (xs.takeWhile (!p ·)) := by
  induction xs with
  | nil => rfl
  | cons x xs ih =>
    rw [List.splitOnP_cons_eq_if_modifyHead]
    by_cases hx : p x
    · simp [hx]
    · simp [hx, ih]

lemma notMem_of_mem_splitOn {α : Type} [BEq α] [LawfulBEq α] {x : α} {xs piece : List α}
    (h : piece ∈ xs.splitOn x) : x ∉ piece := by
  induction xs generalizing piece with
  | nil =>
    rw [List.splitOn_nil, List.mem_singleton] at h
    simp [h]
  | cons c xs ih =>
    rw [List.splitOn_cons_eq_if_modifyHead] at h
    split at h
    · rcases List.mem_cons.1 h with rfl | h
      · exact List.not_mem_nil
      · exact ih h
    · next hc =>
      obtain ⟨first, rest, hs⟩ := List.exists_cons_of_ne_nil (List.splitOn_ne_nil x xs)
      rw [hs] at h ih
      rw [List.modifyHead_cons] at h
      rcases List.mem_cons.1 h with rfl | h
      · rw [List.mem_cons, not_or]
        exact ⟨fun he => hc (by simp [he]), ih List.mem_cons_self⟩
      · exact ih (List.mem_cons_of_mem first h)

lemma mem_intercalate_singleton_iff {α : Type} {x sep : α} (h : x ≠ sep) {xs : List (List α)} :
    x ∈ List.intercalate [sep] xs ↔ ∃ l ∈ xs, x ∈ l := by
  induction xs with
  | nil => simp
  | cons l xs ih =>
    cases xs with
    | nil => simp
    | cons l' xs => simp [List.intercalate_cons_cons, h, ih]

lemma eraseDups_concat {α : Type} [BEq α] [LawfulBEq α] [DecidableEq α] (xs : List α) (x : α) :
    (xs ++ [x]).eraseDups = if x ∈ xs then xs.eraseDups else xs.eraseDups ++ [x] := by
  rw [List.eraseDups_append]
  by_cases h : x ∈ xs
  · simp [List.removeAll, h]
  · simp [List.removeAll, h, List.eraseDups_cons]

lemma eraseDups_filter {α : Type} [BEq α] [LawfulBEq α] [DecidableEq α] (p : α → Bool) (xs : List α) :
    (xs.filter p).eraseDups = xs.eraseDups.filter p := by
  induction xs using List.reverseRecOn with
  | nil => rfl
  | append_singleton xs x ih =>
    rw [List.filter_append, eraseDups_concat]
    by_cases hx : p x
    · rw [List.filter_cons_of_pos hx, List.filter_nil, eraseDups_concat, ih]
      by_cases hm : x ∈ xs <;> simp [hm, hx]
    · rw [List.filter_cons_of_neg hx, List.filter_nil, List.append_nil, ih]
      by_cases hm : x ∈ xs <;> simp [hm, hx]

section First

variable {α β : Type} {p q : α → Prop} {xs : List α} {x : α}

/-- `x` stands in `xs` and has the property, and nothing before it has. -/
structure IsFirst (p : α → Prop) (xs : List α) (x : α) : Prop where
  holds : p x
  split : ∃ before after, xs = before ++ x :: after ∧ ∀ y ∈ before, ¬p y

lemma isFirst_congr (h : ∀ y, p y ↔ q y) : IsFirst p xs x ↔ IsFirst q xs x := by
  rw [show p = q from funext fun y => propext (h y)]

lemma find?_eq_some_iff_isFirst {f : α → Bool} :
    xs.find? f = some x ↔ IsFirst (fun y => f y) xs x := by
  rw [List.find?_eq_some_iff_append]
  simp only [Bool.not_eq_true']
  exact ⟨fun ⟨hx, before, after, he, hb⟩ => ⟨hx, before, after, he, by simpa using hb⟩,
    fun ⟨hx, before, after, he, hb⟩ => ⟨hx, before, after, he, by simpa using hb⟩⟩

lemma findSome?_eq_some_iff_isFirst {f : α → Option β} {b : β} :
    xs.findSome? f = some b ↔ ∃ x, IsFirst (fun y => (f y).isSome) xs x ∧ f x = some b := by
  rw [List.findSome?_eq_some_iff]
  constructor
  · rintro ⟨before, x, after, he, hx, hb⟩
    exact ⟨x, ⟨by simp [hx], before, after, he, by simpa using hb⟩, hx⟩
  · rintro ⟨x, ⟨-, before, after, he, hb⟩, hx⟩
    exact ⟨before, x, after, he, hx, by simpa using hb⟩

lemma isFirst_filter {f : α → Bool} :
    IsFirst p (xs.filter f) x ↔ IsFirst (fun y => f y ∧ p y) xs x := by
  classical
  have h : ∀ {p : α → Prop} [DecidablePred p] {ys : List α},
      ys.find? (fun y => decide (p y)) = some x ↔ IsFirst p ys x := by
    intro p _ ys
    rw [find?_eq_some_iff_isFirst]
    exact isFirst_congr fun y => decide_eq_true_iff
  rw [← h, List.find?_filter]
  simp only [decide_eq_true_eq]
  exact h

end First

end DocHarvest
