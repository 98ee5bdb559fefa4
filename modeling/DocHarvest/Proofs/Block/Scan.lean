import DocHarvest.Proofs.Text.Position
import DocHarvest.Record.Draft

/-! The comments of a text by position. Each comes from the first opening at or after the end of the
one before, and ends where the next closing begins; no opening outside of them has a body. -/

namespace DocHarvest.Block

open Text

/-- A slash with two or more stars after it. -/
def Opens (s : List Char) (i : Nat) : Prop :=
  s[i]? = some '/' ∧ s[i + 1]? = some '*' ∧ s[i + 2]? = some '*'

/-- The position after the stars that follow a slash. -/
def bodyStart (s : List Char) (i : Nat) : Nat :=
  i + 1 + ((s.drop (i + 1)).takeWhile isStar).length

structure Starts (s : List Char) (i : Nat) : Prop where
  opens : Opens s i
  body : bodyStart s i < s.length

/-- One or more stars and a slash after them. -/
def Closes (s : List Char) (p : Nat) : Prop :=
  ∃ n, 0 < n ∧ (∀ k < n, s[p + k]? = some '*') ∧ s[p + n]? = some '/'

/-- The end of a body: where the first closing begins, or the end of the text. -/
def IsEnd (s : List Char) (body e : Nat) : Prop :=
  IsLeast {p | body ≤ p ∧ (Closes s p ∨ p = s.length)} e

structure IsNext (s : List Char) (start i e : Nat) : Prop where
  opening : IsLeast {i | start ≤ i ∧ Starts s i} i
  closing : IsEnd s (bodyStart s i) e

inductive Scan (s : List Char) : Nat → List (Nat × Nat) → Prop
  | done {start : Nat} (h : ∀ i, start ≤ i → ¬Starts s i) : Scan s start []
  | next {start i e : Nat} {spans : List (Nat × Nat)} (h : IsNext s start i e)
      (hs : Scan s e spans) : Scan s start ((i, e) :: spans)

lemma lt_bodyStart {s : List Char} {i : Nat} : i < bodyStart s i := by
  rw [bodyStart]
  omega

lemma IsEnd.le_length {s : List Char} {b e : Nat} (h : IsEnd s b e) (hb : b ≤ s.length) : e ≤ s.length :=
  h.2 ⟨hb, .inr rfl⟩

namespace Scan

variable {s : List Char} {start : Nat} {spans spans' : List (Nat × Nat)}

lemma of_succ (h : Scan s (start + 1) spans) (hs : ¬Starts s start) : Scan s start spans := by
  have hlater : ∀ i, start ≤ i → Starts s i → start + 1 ≤ i := by
    intro i hi hi'
    rcases hi.eq_or_lt with rfl | hlt
    · exact (hs hi').elim
    · exact hlt
  cases h with
  | done h => exact .done fun i hi hi' => h i (hlater i hi hi') hi'
  | next h hr =>
    refine .next ⟨⟨⟨?_, h.opening.1.2⟩, fun i hi => ?_⟩, h.closing⟩ hr
    · have := h.opening.1.1
      omega
    · exact h.opening.2 ⟨hlater i hi.1 hi.2, hi.2⟩

lemma unique (h : Scan s start spans) (h' : Scan s start spans') : spans = spans' := by
  induction h generalizing spans' with
  | done hn =>
    cases h' with
    | done => rfl
    | next hx => exact (hn _ hx.opening.1.1 hx.opening.1.2).elim
  | next hx hr ih =>
    cases h' with
    | done hn => exact (hn _ hx.opening.1.1 hx.opening.1.2).elim
    | next hx' hr' =>
      obtain rfl := hx.opening.unique hx'.opening
      obtain rfl := hx.closing.unique hx'.closing
      rw [ih hr']

lemma bounds (h : Scan s start spans) : ∀ b ∈ spans, start ≤ b.1 ∧ b.1 < b.2 ∧ b.2 ≤ s.length := by
  induction h with
  | done => nofun
  | @next start i e spans hx hr ih =>
    have hi := hx.opening.1.1
    have hie : i < e := lt_bodyStart.trans_le hx.closing.1.1
    rw [List.forall_mem_cons]
    refine ⟨⟨hi, hie, hx.closing.le_length hx.opening.1.2.body.le⟩, fun b hb => ?_⟩
    obtain ⟨hb, hlt⟩ := ih b hb
    exact ⟨by omega, hlt⟩

lemma starts_and_ends (h : Scan s start spans) :
    ∀ b ∈ spans, Starts s b.1 ∧ IsEnd s (bodyStart s b.1) b.2 := by
  induction h with
  | done => nofun
  | next hx hr ih => exact List.forall_mem_cons.2 ⟨⟨hx.opening.1.2, hx.closing⟩, ih⟩

lemma ordered (h : Scan s start spans) : spans.Pairwise fun a b => a.2 ≤ b.1 := by
  induction h with
  | done => exact .nil
  | next hx hr ih => exact List.pairwise_cons.2 ⟨fun b hb => (hr.bounds b hb).1, ih⟩

lemma covers (h : Scan s start spans) {i : Nat} (hi : start ≤ i) (hs : Starts s i) :
    ∃ b ∈ spans, b.1 ≤ i ∧ i < b.2 := by
  induction h with
  | done hn => exact (hn i hi hs).elim
  | @next start j e spans hx hr ih =>
    by_cases hlt : i < e
    · exact ⟨(j, e), List.mem_cons_self, hx.opening.2 ⟨hi, hs⟩, hlt⟩
    · obtain ⟨b, hb, hbi⟩ := ih (not_lt.1 hlt)
      exact ⟨b, List.mem_cons_of_mem _ hb, hbi⟩

lemma eq_nil_iff (h : Scan s start spans) : spans = [] ↔ ∀ i, start ≤ i → ¬Starts s i := by
  constructor
  · rintro rfl
    cases h with
    | done hn => exact hn
  · intro hn
    exact h.unique (.done hn)

end Scan

section Positions

variable {s : List Char} {i p : Nat}

lemma head?_dropWhile_isStar (u : List Char) :
    (u.dropWhile isStar).head? = some '/' ↔
      ∃ n : Nat, (∀ k < n, u[k]? = some '*') ∧ u[n]? = some '/' := by
  induction u with
  | nil => simp
  | cons c u ih =>
    by_cases hc : c = '*'
    · subst hc
      rw [List.dropWhile_cons_of_pos (by rfl), ih]
      constructor
      · rintro ⟨n, hk, hn⟩
        refine ⟨n + 1, fun k hlt => ?_, hn⟩
        cases k with
        | zero => rfl
        | succ k => exact hk k (by omega)
      · rintro ⟨n, hk, hn⟩
        cases n with
        | zero => cases hn
        | succ n => exact ⟨n, fun k hlt => hk (k + 1) (by omega), hn⟩
    · rw [List.dropWhile_cons_of_neg (by simpa [isStar] using hc)]
      constructor
      · exact fun h => ⟨0, nofun, h⟩
      · rintro ⟨n, hk, hn⟩
        cases n with
        | zero => exact hn
        | succ n => exact (hc (Option.some.inj (hk 0 (by omega)))).elim

lemma closesComment_drop : closesComment (s.drop p) ↔ Closes s p := by
  have hget : ∀ k, s[p + k]? = (s.drop p)[k]? := fun k => List.getElem?_drop.symm
  simp only [Closes, hget]
  cases s.drop p with
  | nil => simp [closesComment]
  | cons c u =>
    rw [closesComment, Bool.and_eq_true, beq_iff_eq, head?_dropWhile_isStar, isStar, beq_iff_eq]
    constructor
    · rintro ⟨rfl, n, hk, hn⟩
      refine ⟨n + 1, by omega, fun k hlt => ?_, hn⟩
      cases k with
      | zero => rfl
      | succ k => exact hk k (by omega)
    · rintro ⟨n, hpos, hk, hn⟩
      obtain ⟨n, rfl⟩ := Nat.exists_eq_add_one_of_ne_zero hpos.ne'
      exact ⟨Option.some.inj (hk 0 hpos), n, fun k hlt => hk (k + 1) (by omega), hn⟩

lemma opensComment_drop : opensComment (s.drop i) ↔ Opens s i := by
  have hget : ∀ k, s[i + k]? = (s.drop i)[k]? := fun k => List.getElem?_drop.symm
  have hzero : s[i]? = (s.drop i)[0]? := hget 0
  rw [Opens, hzero, hget, hget, opensComment]
  match s.drop i with
  | [] => simp
  | [x] => simp
  | [x, y] => simp
  | x :: y :: z :: u =>
    simp only [String.reduceToList, List.isPrefixOf_cons_cons, List.isPrefixOf_nil_left, Bool.and_true,
      Bool.and_eq_true, beq_iff_eq, List.getElem?_cons_zero, List.getElem?_cons_succ,
      Option.some.injEq, @eq_comm _ x, @eq_comm _ y, @eq_comm _ z]

lemma dropWhile_isStar (s : List Char) (i : Nat) :
    (s.drop (i + 1)).dropWhile isStar = s.drop (bodyStart s i) := by
  have hdrop : ∀ u : List Char, u.dropWhile isStar = u.drop (u.takeWhile isStar).length := by
    intro u
    have happ : (u.takeWhile isStar ++ u.dropWhile isStar).drop (u.takeWhile isStar).length =
        u.dropWhile isStar := List.drop_left
    rw [List.takeWhile_append_dropWhile] at happ
    exact happ.symm
  rw [hdrop, bodyStart, List.drop_drop]

lemma starts_iff :
    opensComment (s.drop i) && !((s.drop (i + 1)).dropWhile isStar).isEmpty ↔ Starts s i := by
  rw [Bool.and_eq_true, opensComment_drop, dropWhile_isStar, Bool.not_eq_true', List.isEmpty_eq_false_iff,
    Ne, List.drop_eq_nil_iff, not_le]
  exact ⟨fun h => ⟨h.1, h.2⟩, fun h => ⟨h.opens, h.body⟩⟩

lemma exists_end {b : Nat} {u : List Char} (hu : s.drop b = u) (hb : b ≤ s.length) :
    ∃ e, IsEnd s b e ∧ (breakWhere closesComment u).2 = s.drop e :=
  exists_isLeast_breakWhere (fun _ => closesComment_drop) hu hb

lemma exists_scan {u : List Char} {start : Nat} (hu : s.drop start = u) :
    ∃ spans, Scan s start spans ∧ comments u = spans.map fun b => s.extract b.1 b.2 := by
  induction u using comments.induct generalizing start with
  | case1 =>
    have hl := List.drop_eq_nil_iff.1 hu
    refine ⟨[], .done fun i hi hs => ?_, by simp [comments]⟩
    have hb := hs.body
    have := lt_bodyStart (s := s) (i := i)
    omega
  | case2 c t hc ih =>
    have ht : s.drop (start + 1) = t := drop_succ hu
    have hs : Starts s start := by
      rw [← starts_iff, ht, hu]
      exact hc
    obtain ⟨e, he, hd⟩ := exists_end (dropWhile_isStar s start).symm hs.body.le
    rw [ht] at hd
    obtain ⟨spans, hscan, hcomments⟩ := ih hd.symm
    refine ⟨(start, e) :: spans, .next ⟨⟨⟨le_rfl, hs⟩, fun i hi => hi.1⟩, he⟩ hscan, ?_⟩
    have hblock : c :: t.takeWhile isStar ++ (breakWhere closesComment (t.dropWhile isStar)).1 =
        s.extract start e := by
      apply eq_extract ?_ (lt_bodyStart.le.trans he.1.1)
      rw [← hd, hu, List.append_assoc, breakWhere_append, List.cons_append,
        List.takeWhile_append_dropWhile]
    rw [comments, if_pos hc, hcomments, hblock]
    rfl
  | case3 c t hc ih =>
    have ht : s.drop (start + 1) = t := drop_succ hu
    have hs : ¬Starts s start := by
      rw [← starts_iff, ht, hu]
      exact hc
    obtain ⟨spans, hscan, hcomments⟩ := ih ht
    rw [comments, if_neg hc]
    exact ⟨spans, hscan.of_succ hs, hcomments⟩

end Positions

lemma records?_eq_none_iff {path extension content : String} :
    Source.records? ⟨path, extension, content⟩ = none ↔
      extension ≠ "ngdoc" ∧ comments content.toList = [] := by
  rw [Source.records?, Source.blocks, Source.layout]
  by_cases hx : extension = "ngdoc"
  · simp [hx]
  · cases comments content.toList <;> simp [hx]

theorem comments_scan (content : String) :
    ∃ spans, Scan content.toList 0 spans ∧ (∀ spans', Scan content.toList 0 spans' → spans' = spans) ∧
      comments content.toList = (spans.map fun b => content.toList.extract b.1 b.2) ∧
      (∀ b ∈ spans, b.1 < b.2 ∧ b.2 ≤ content.toList.length) ∧
      spans.Pairwise (fun a b => a.2 ≤ b.1) ∧
      (∀ i, Starts content.toList i → ∃ b ∈ spans, b.1 ≤ i ∧ i < b.2) ∧
      (comments content.toList = [] ↔ ∀ i, ¬Starts content.toList i) ∧
      ∀ path extension, Source.records? ⟨path, extension, content⟩ = none ↔
        extension ≠ "ngdoc" ∧ ∀ i, ¬Starts content.toList i := by
  obtain ⟨spans, hs, hc⟩ := exists_scan (show content.toList.drop 0 = content.toList from List.drop_zero)
  have hnil : comments content.toList = [] ↔ ∀ i, ¬Starts content.toList i := by
    rw [hc, List.map_eq_nil_iff, hs.eq_nil_iff]
    exact ⟨fun h i => h i i.zero_le, fun h i _ => h i⟩
  refine ⟨spans, hs, fun spans' hs' => hs'.unique hs, hc, fun b hb => (hs.bounds b hb).2, hs.ordered,
    fun i hi => hs.covers i.zero_le hi, hnil, fun path extension => ?_⟩
  rw [← hnil]
  exact records?_eq_none_iff

end DocHarvest.Block
