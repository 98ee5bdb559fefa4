import DocHarvest.Proofs.Text.Cutting
import DocHarvest.Record.Draft

/-! A source written as comments with text between them: each comment is one block, and no text
between two of them is part of any. -/

namespace DocHarvest

open Text

namespace Block

lemma comments_of_not_opensComment {c : Char} {s : List Char} (h : ¬opensComment (c :: s)) :
    comments (c :: s) = comments s := by
  rw [comments, if_neg]
  rw [Bool.and_eq_true, not_and]
  exact fun ho => (h ho).elim

lemma not_opensComment_append {s t : List Char} (hs : s ≠ []) (h : ¬"/**".toList <+: s)
    (ht : t.head? ≠ some '*') : ¬opensComment (s ++ t) := by
  intro ho
  obtain ⟨u, hu⟩ := List.isPrefixOf_iff_prefix.1 ho
  -- A mark that does not lie inside `s` has a star at the head of `t`.
  match s, hs with
  | [x], _ =>
    obtain ⟨-, rfl⟩ := List.cons.inj hu
    exact ht rfl
  | [x, y], _ =>
    obtain ⟨-, hu⟩ := List.cons.inj hu
    obtain ⟨-, rfl⟩ := List.cons.inj hu
    exact ht rfl
  | x :: y :: z :: s, _ =>
    apply h
    apply List.prefix_of_prefix_length_le ⟨u, hu⟩ (List.prefix_append _ t)
    simp

lemma comments_append {s t : List Char} (h : ¬"/**".toList <:+: s)
    (ht : t.head? ≠ some '*') : comments (s ++ t) = comments t := by
  induction s with
  | nil => rfl
  | cons c s ih =>
    rw [List.infix_cons_iff, not_or] at h
    have hc : ¬opensComment (c :: (s ++ t)) :=
      not_opensComment_append (List.cons_ne_nil c s) h.1 ht
    rw [List.cons_append, comments_of_not_opensComment hc, ih h.2]

lemma closesComment_cons {c : Char} {s : List Char} :
    closesComment (c :: s) ↔ c = '*' ∧ (s.dropWhile isStar).head? = some '/' := by
  simp [closesComment, isStar]

/-- A run of stars in `s` that a slash ends would end inside `s`. -/
lemma not_closesComment_append {s t : List Char} (hs : s ≠ []) (h : ¬"*/".toList <:+: s)
    (hl : s.getLast? ≠ some '*') : ¬closesComment (s ++ t) := by
  induction s with
  | nil => exact (hs rfl).elim
  | cons c s ih =>
    rw [List.cons_append, closesComment_cons]
    rintro ⟨rfl, hd⟩
    rw [List.infix_cons_iff, not_or] at h
    cases s with
    | nil => exact hl rfl
    | cons x s =>
      rw [List.getLast?_cons_cons] at hl
      by_cases hx : x = '*'
      · have hstar : isStar x := beq_iff_eq.2 hx
        rw [List.cons_append, List.dropWhile_cons_of_pos hstar] at hd
        apply ih (List.cons_ne_nil x s) h.2 hl
        exact closesComment_cons.2 ⟨hx, hd⟩
      · rw [List.cons_append, List.dropWhile_cons_of_neg (by simpa [isStar] using hx)] at hd
        cases hd
        exact h.1 ⟨s, rfl⟩

lemma breakWhere_closesComment {s : List Char} (h : ¬"*/".toList <:+: s)
    (hl : s.getLast? ≠ some '*') (t : List Char) :
    breakWhere closesComment (s ++ '*' :: '/' :: t) = (s, '*' :: '/' :: t) := by
  have hc : closesComment ('*' :: '/' :: t) := closesComment_cons.2 ⟨rfl, rfl⟩
  rw [breakWhere_append_stop, breakWhere_of_here hc, List.append_nil]
  rintro a b rfl hb
  apply not_closesComment_append hb
  · exact fun hi => h (hi.trans (List.suffix_append a b).isInfix)
  · rwa [List.getLast?_append_of_ne_nil a hb] at hl

end Block

/-- A comment of a source, and the text from there to the next. -/
structure Comment where
  body : String
  gap : String
deriving DecidableEq, Repr

namespace Comment

def block (c : Comment) : Block :=
  ⟨.comment, "/**" ++ c.body⟩

def write (c : Comment) : String :=
  "/**" ++ c.body ++ "*/" ++ c.gap

def writeAll (cs : List Comment) : String :=
  String.join (cs.map write)

@[mk_iff]
structure Separate (c : Comment) : Prop where
  body_ne : c.body ≠ ""
  head : c.body.toList.head? ≠ some '*'
  last : c.body.toList.getLast? ≠ some '*'
  body_closed : ¬"*/".toList <:+: c.body.toList
  gap_head : ¬"**".toList <+: c.gap.toList
  gap_open : ¬"/**".toList <:+: c.gap.toList

instance (c : Comment) : Decidable c.Separate :=
  decidable_of_iff _ (separate_iff c).symm

lemma toList_writeAll_cons (c : Comment) (cs : List Comment) :
    (writeAll (c :: cs)).toList =
      '/' :: '*' :: '*' :: (c.body.toList ++ '*' :: '/' :: (c.gap.toList ++ (writeAll cs).toList)) := by
  simp [writeAll, write, String.join_cons]

lemma head?_writeAll (cs : List Comment) : (writeAll cs).toList.head? ≠ some '*' := by
  cases cs with
  | nil => simp [writeAll]
  | cons c cs => simp [toList_writeAll_cons]

namespace Separate

variable {c : Comment}

lemma comments_gap (h : c.Separate) {t : List Char} (ht : t.head? ≠ some '*') :
    Block.comments ('*' :: '/' :: (c.gap.toList ++ t)) = Block.comments t := by
  have hg : ¬"/**".toList <:+: '*' :: '/' :: c.gap.toList := by
    rw [List.infix_cons_iff, List.infix_cons_iff]
    rintro (hp | hp | hi)
    · simp at hp
    · exact h.gap_head (List.cons_prefix_cons.1 hp).2
    · exact h.gap_open hi
  exact Block.comments_append hg ht

lemma comments_write (h : c.Separate) (t : List Char) :
    Block.comments ('/' :: '*' :: '*' :: (c.body.toList ++ '*' :: '/' :: t)) =
      ('/' :: '*' :: '*' :: c.body.toList) :: Block.comments ('*' :: '/' :: t) := by
  have hne : c.body.toList ≠ [] := by simpa using h.body_ne
  have hstop : ∀ x ∈ (c.body.toList ++ '*' :: '/' :: t).head?, ¬Block.isStar x := by
    rw [List.head?_append_of_ne_nil _ hne]
    intro x hx hs
    rw [Option.mem_def, beq_iff_eq.1 hs] at hx
    exact h.head hx
  have hstars : ∀ x ∈ ['*', '*'], Block.isStar x := List.all_eq_true.1 rfl
  have htake := takeWhile_append_stop hstars hstop
  have hdrop := dropWhile_append_stop hstars hstop
  rw [List.cons_append, List.cons_append, List.nil_append] at htake hdrop
  rw [Block.comments, hdrop, htake, Block.breakWhere_closesComment h.body_closed h.last, if_pos]
  · rfl
  · simp [Block.opensComment, hne]

end Separate

lemma comments_writeAll {cs : List Comment} (h : ∀ c ∈ cs, c.Separate) :
    Block.comments (writeAll cs).toList = cs.map fun c => c.block.text.toList := by
  induction cs with
  | nil => simp [writeAll, Block.comments]
  | cons c cs ih =>
    have hc := h c List.mem_cons_self
    rw [toList_writeAll_cons, hc.comments_write, hc.comments_gap (head?_writeAll cs),
      ih fun x hx => h x (List.mem_cons_of_mem c hx), List.map_cons]
    simp [block]

lemma blocks_writeAll {path extension first : String} {cs : List Comment} (hx : extension ≠ "ngdoc")
    (hf : ¬"/**".toList <:+: first.toList) (hc : ∀ c ∈ cs, c.Separate) :
    Source.blocks ⟨path, extension, first ++ writeAll cs⟩ = cs.map block := by
  have hl : Source.layout ⟨path, extension, first ++ writeAll cs⟩ = .comment := by
    rw [Source.layout, if_neg (by simpa using hx)]
  simp only [Source.blocks, hl]
  rw [String.toList_append, Block.comments_append hf (head?_writeAll cs), comments_writeAll hc,
    List.map_map]
  apply List.map_congr_left
  intro c _
  rw [Function.comp_apply, String.ofList_toList]
  rfl

theorem records?_writeAll {path extension first : String} {cs : List Comment}
    (hx : extension ≠ "ngdoc") (hf : ¬"/**".toList <:+: first.toList)
    (hc : ∀ c ∈ cs, c.Separate) :
    Source.records? ⟨path, extension, first ++ writeAll cs⟩ =
      if cs = [] then none
      else some (cs.filterMap fun c =>
        (Record.ofBlock? c.block none).map fun r => { r with file := path }) := by
  rw [Source.records?, blocks_writeAll hx hf hc]
  cases cs with
  | nil => rfl
  | cons c cs =>
    rw [if_neg (List.cons_ne_nil c cs), List.map_cons]
    dsimp only
    rw [← List.map_cons, List.filterMap_map]
    rfl

/-- Openings inside a comment, stars and slashes next to one, and comments of another sort. -/
theorem records?_writeAll_signs :
    let first := "/* x */ /"
    let cs : List Comment :=
      [⟨"\n * @ngdoc a /** b * / c\n ", "*"⟩, ⟨" x ", "/* y */ /"⟩,
        ⟨" @ngdoc b @param", "*/*"⟩, ⟨" @ngdoc c", ""⟩]
    "js" ≠ "ngdoc" ∧ ¬"/**".toList <:+: first.toList ∧ (∀ c ∈ cs, c.Separate) ∧
      Source.records? ⟨"a.js", "js", first ++ writeAll cs⟩ =
        if cs = [] then none
        else some (cs.filterMap fun c =>
          (Record.ofBlock? c.block none).map fun r => { r with file := "a.js" }) := by
  intro first cs
  have hx : "js" ≠ "ngdoc" := by decide
  have hf : ¬"/**".toList <:+: first.toList := by decide
  have hc : ∀ c ∈ cs, c.Separate := by decide +kernel
  exact ⟨hx, hf, hc, records?_writeAll hx hf hc⟩

end Comment

end DocHarvest
