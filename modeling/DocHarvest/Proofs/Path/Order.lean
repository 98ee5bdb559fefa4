import DocHarvest.Path
import DocHarvest.Proofs.Dictionary

/-! The order of paths, and the list of distinct paths in that order. It depends only on which steps occur,
and of several spellings of the same steps it has the first. -/

namespace DocHarvest.Path

namespace Step

def Before (a b : Step) : Prop :=
  a.before b

lemma before_down {m n : String} : (down m).Before (down n) ↔ m < n :=
  decide_eq_true_iff

variable {a b c : Step}

lemma Before.asymm (h : a.Before b) : ¬b.Before a := by
  cases a with
  | down m =>
    cases b with
    | down n => exact fun h' => String.lt_asymm (before_down.1 h) (before_down.1 h')
    | _ => cases h
  | _ => cases b <;> simp_all [Before, before]

lemma Before.trans (h : a.Before b) (h' : b.Before c) : a.Before c := by
  cases a with
  | down m =>
    cases b with
    | down n =>
      cases c with
      | down k => exact before_down.2 (String.lt_trans (before_down.1 h) (before_down.1 h'))
      | _ => cases h'
    | _ => cases h
  | _ => cases b <;> cases c <;> simp_all [Before, before]

lemma before_or_before (h : a ≠ b) : a.Before b ∨ b.Before a := by
  cases a with
  | down m =>
    cases b with
    | down n =>
      rw [before_down, before_down]
      by_contra hn
      push Not at hn
      exact h (congrArg down (String.le_antisymm hn.2 hn.1))
    | _ => exact .inr rfl
  | _ => cases b <;> simp_all [Before, before]

end Step

/-- At the first place where the steps differ, the one of `p` comes before that of `q`, or `p` has none
there. -/
def Precedes (p q : String) : Prop :=
  List.Lex Step.Before (steps p) (steps q)

section NotAfter

variable {as bs cs : List Step}

lemma notAfter_self (as : List Step) : notAfter as as := by
  induction as with
  | nil => rfl
  | cons a as ih => rwa [notAfter, if_pos rfl]

lemma lex_iff : List.Lex Step.Before as bs ↔ notAfter as bs ∧ as ≠ bs := by
  induction as generalizing bs with
  | nil => cases bs <;> simp [notAfter]
  | cons a as ih =>
    cases bs with
    | nil => simp [notAfter]
    | cons b bs =>
      rw [notAfter, List.cons_lex_cons_iff, ih]
      by_cases hab : a = b
      · subst hab
        have ha : ¬a.Before a := fun h => h.asymm h
        simp [ha]
      · simp [hab, Step.Before]

lemma notAfter_iff : notAfter as bs ↔ List.Lex Step.Before as bs ∨ as = bs := by
  rw [lex_iff]
  constructor
  · intro h
    by_cases he : as = bs
    · exact .inr he
    · exact .inl ⟨h, he⟩
  · rintro (⟨h, -⟩ | rfl)
    · exact h
    · exact notAfter_self as

lemma notAfter_total (as bs : List Step) : notAfter as bs || notAfter bs as := by
  induction as generalizing bs with
  | nil => simp [notAfter]
  | cons a as ih =>
    cases bs with
    | nil => simp [notAfter]
    | cons b bs =>
      rw [notAfter, notAfter]
      by_cases hab : a = b
      · simpa [hab] using ih bs
      · rw [if_neg hab, if_neg (Ne.symm hab), Bool.or_eq_true]
        exact Step.before_or_before hab

lemma notAfter_trans (h : notAfter as bs) (h' : notAfter bs cs) : notAfter as cs := by
  induction as generalizing bs cs with
  | nil => rfl
  | cons a as ih =>
    cases bs with
    | nil => cases h
    | cons b bs =>
      cases cs with
      | nil => cases h'
      | cons c cs =>
        rw [notAfter] at h h' ⊢
        by_cases hab : a = b
        · subst hab
          rw [if_pos rfl] at h
          split at h'
          · next hac => rw [if_pos hac, ih h h']
          · next hac => rwa [if_neg hac]
        · rw [if_neg hab] at h
          by_cases hbc : b = c
          · subst hbc
            rwa [if_neg hab]
          · rw [if_neg hbc] at h'
            have hac : a ≠ c := by
              rintro rfl
              exact Step.Before.asymm h h'
            rw [if_neg hac]
            exact Step.Before.trans h h'

lemma lex_asymm (h : List.Lex Step.Before as bs) : ¬List.Lex Step.Before bs as := by
  have : Std.Asymm Step.Before := ⟨fun _ _ => Step.Before.asymm⟩
  exact Std.Asymm.asymm _ _ h

lemma lex_of_lex_of_notAfter (h : List.Lex Step.Before as bs) (h' : notAfter bs cs) :
    List.Lex Step.Before as cs := by
  refine lex_iff.2 ⟨notAfter_trans (lex_iff.1 h).1 h', ?_⟩
  rintro rfl
  rcases notAfter_iff.1 h' with hlex | rfl
  · exact lex_asymm h hlex
  · exact lex_asymm h h

end NotAfter

section Distinct

variable {path : String} {ps qs : List String} {ss : List Step}

def atMost (p q : String) : Bool :=
  notAfter (steps p) (steps q)

def Ascending (ps : List String) : Prop :=
  ps.Pairwise fun p q => atMost p q

lemma distinctAfter_sublist (path : String) (ps : List String) : (distinctAfter path ps).Sublist ps := by
  induction ps generalizing path with
  | nil => exact .slnil
  | cons p ps ih =>
    rw [distinctAfter]
    split
    · exact (ih path).cons p
    · exact (ih p).cons_cons p

lemma pairwise_distinctAfter (h : Ascending (path :: ps)) :
    (path :: distinctAfter path ps).Pairwise Precedes := by
  induction ps generalizing path with
  | nil => exact List.pairwise_singleton _ path
  | cons p ps ih =>
    obtain ⟨hpath, hps⟩ := List.pairwise_cons.1 h
    rw [distinctAfter]
    split
    · exact ih (List.pairwise_cons.2 ⟨fun q hq => hpath q (List.mem_cons_of_mem p hq), hps.of_cons⟩)
    · next hne =>
      have hp : Precedes path p := lex_iff.2 ⟨hpath p List.mem_cons_self, Ne.symm hne⟩
      refine List.pairwise_cons.2 ⟨fun q hq => ?_, ih hps⟩
      rcases List.mem_cons.1 hq with rfl | hq
      · exact hp
      · exact lex_of_lex_of_notAfter hp
          (List.rel_of_pairwise_cons hps ((distinctAfter_sublist p ps).subset hq))

lemma pairwise_distinct (h : Ascending ps) : (distinct ps).Pairwise Precedes := by
  cases ps with
  | nil => exact .nil
  | cons p ps => exact pairwise_distinctAfter h

lemma find?_distinctAfter (h : steps path ≠ ss) :
    (distinctAfter path ps).find? (steps · == ss) = ps.find? (steps · == ss) := by
  induction ps generalizing path with
  | nil => rfl
  | cons p ps ih =>
    rw [distinctAfter, List.find?_cons]
    split
    · next hp => rw [ih h, hp, beq_eq_false_iff_ne.2 h]
    · rw [List.find?_cons]
      by_cases hs : steps p = ss
      · rw [beq_iff_eq.2 hs]
      · rw [beq_eq_false_iff_ne.2 hs, ih hs]

lemma find?_distinct (ps : List String) (ss : List Step) :
    (distinct ps).find? (steps · == ss) = ps.find? (steps · == ss) := by
  cases ps with
  | nil => rfl
  | cons p ps =>
    rw [distinct, List.find?_cons, List.find?_cons]
    by_cases hs : steps p = ss
    · rw [beq_iff_eq.2 hs]
    · rw [beq_eq_false_iff_ne.2 hs, find?_distinctAfter hs]

end Distinct

section Sorted

variable {p : String} {ps qs : List String} {ss : List Step}

lemma atMost_trans (p q r : String) (h : atMost p q) (h' : atMost q r) : atMost p r :=
  notAfter_trans h h'

lemma atMost_total (p q : String) : atMost p q || atMost q p :=
  notAfter_total (steps p) (steps q)

/-- Sorting keeps the order of paths with the same steps. -/
lemma filter_mergeSort (ps : List String) (ss : List Step) :
    (ps.mergeSort atMost).filter (steps · == ss) = ps.filter (steps · == ss) := by
  have hsame : Ascending (ps.filter (steps · == ss)) := by
    refine List.pairwise_of_forall_mem_list fun a ha b hb => ?_
    have ha : steps a = ss := by simpa using (List.mem_filter.1 ha).2
    have hb : steps b = ss := by simpa using (List.mem_filter.1 hb).2
    rw [atMost, ha, hb]
    exact notAfter_self ss
  have hsub := (List.sublist_mergeSort atMost_trans atMost_total hsame List.filter_sublist).filter
    (steps · == ss)
  have hlen := ((ps.mergeSort_perm atMost).filter (steps · == ss)).length_eq
  simp only [List.filter_filter, Bool.and_self] at hsub
  exact (hsub.eq_of_length hlen.symm).symm

lemma sorted_eq (ps : List String) : sorted ps = distinct (ps.mergeSort atMost) := rfl

lemma find?_sorted (ps : List String) (ss : List Step) :
    (sorted ps).find? (steps · == ss) = ps.find? (steps · == ss) := by
  rw [sorted_eq, find?_distinct, ← List.head?_filter, filter_mergeSort, List.head?_filter]

lemma pairwise_sorted (ps : List String) : (sorted ps).Pairwise Precedes :=
  pairwise_distinct (List.pairwise_mergeSort atMost_trans atMost_total ps)

lemma nodup_steps_sorted (ps : List String) : ((sorted ps).map steps).Nodup := by
  rw [List.Nodup, List.pairwise_map]
  exact (pairwise_sorted ps).imp fun h => (lex_iff.1 h).2

lemma mem_sorted_iff : p ∈ sorted ps ↔ ps.find? (steps · == steps p) = some p := by
  rw [← find?_sorted, find?_key_eq_some_iff (nodup_steps_sorted ps), and_iff_left rfl]

lemma mem_map_steps_iff : ss ∈ ps.map steps ↔ (ps.find? (steps · == ss)).isSome := by
  simp

lemma mem_map_steps_sorted : ss ∈ (sorted ps).map steps ↔ ss ∈ ps.map steps := by
  rw [mem_map_steps_iff, mem_map_steps_iff, find?_sorted]

lemma sorted_congr (h : ∀ ss, ps.find? (steps · == ss) = qs.find? (steps · == ss)) :
    sorted ps = sorted qs := by
  refine eq_of_mem_iff (fun _ _ => lex_asymm) (pairwise_sorted ps) (pairwise_sorted qs) fun p => ?_
  rw [mem_sorted_iff, mem_sorted_iff, h]

lemma map_steps_sorted_congr (h : ∀ ss, ss ∈ ps.map steps ↔ ss ∈ qs.map steps) :
    (sorted ps).map steps = (sorted qs).map steps := by
  refine eq_of_mem_iff (r := List.Lex Step.Before) (fun _ _ => lex_asymm) ?_ ?_ fun ss => ?_
  · exact List.pairwise_map.2 (pairwise_sorted ps)
  · exact List.pairwise_map.2 (pairwise_sorted qs)
  · rw [mem_map_steps_sorted, mem_map_steps_sorted, h]

end Sorted

end DocHarvest.Path
