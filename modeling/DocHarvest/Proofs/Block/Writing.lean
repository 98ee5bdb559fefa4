import DocHarvest.Proofs.Block.Decoration
import DocHarvest.Proofs.List

/-! Tags written as a comment, and read back as they were. -/

namespace DocHarvest

open Block Text

structure TagText where
  key : String
  content : String
deriving DecidableEq, Repr

namespace TagText

def toTag (t : TagText) : Tag :=
  ⟨.ofText t.key, t.content⟩

def write (t : TagText) : List Char :=
  ['\n', ' ', '*', ' ', '@'] ++ t.key.toList ++
    if t.content = "" then [] else ' ' :: decorate t.content.toList

def writeAll (tags : List TagText) : List Char :=
  tags.flatMap write ++ ['\n', ' ']

def writeComment (tags : List TagText) : String :=
  String.ofList ('/' :: '*' :: '*' :: writeAll tags)

@[mk_iff]
structure Writable (t : TagText) : Prop where
  key_ne : t.key ≠ ""
  key_char : ∀ c ∈ t.key.toList, c.isAlphanum ∨ c = '_'
  head : ∀ c ∈ t.content.toList.head?, ¬isBlank c
  last : ∀ c ∈ t.content.toList.getLast?, ¬isBlank c
  unmarked : Unmarked t.content.toList

def isWritable (t : TagText) : Bool :=
  t.key != "" && t.key.toList.all Tag.isKeyChar && t.content.toList.head?.all (!isBlank ·) &&
    t.content.toList.getLast?.all (!isBlank ·) &&
    t.content.toList.tails.all (fun d => (marker? d).isNone) &&
    (t.content.toList.splitOn '\n').tail.all fun l => l.head?.all fun c => !isBlank c && c != '@'

lemma isWritable_iff {t : TagText} : t.isWritable ↔ t.Writable := by
  simp only [isWritable, Bool.and_eq_true, writable_iff, unmarked_iff]
  simp [Tag.isKeyChar, Option.all_eq_true, and_assoc]

instance (t : TagText) : Decidable t.Writable :=
  decidable_of_iff _ isWritable_iff

def spaced (t : TagText) : List Char :=
  if t.content = "" then [] else ' ' :: t.content.toList

def body (t : TagText) : List Char :=
  t.key.toList ++ t.spaced

lemma not_isBlank_of_isKeyChar {c : Char} (h : Tag.isKeyChar c) : ¬isBlank c := by
  rcases (by simpa [Tag.isKeyChar] using h : c.isAlphanum ∨ c = '_') with ha | rfl
  · exact not_isBlank_of_isAlphanum ha
  · decide

namespace Writable

variable {t : TagText}

lemma isKeyChar (h : t.Writable) : ∀ c ∈ t.key.toList, Tag.isKeyChar c := by
  intro c hc
  simpa [Tag.isKeyChar] using h.key_char c hc

lemma key_ne_of_not (h : t.Writable) {x : Char} (hx : ¬Tag.isKeyChar x) :
    ∀ c ∈ t.key.toList, c ≠ x := by
  rintro c hc rfl
  exact hx (h.isKeyChar c hc)

lemma unmarked_body (h : t.Writable) : Unmarked t.body := by
  have hk : ∀ c ∈ t.key.toList, c ≠ '*' ∧ c ≠ '\n' := fun c hc =>
    ⟨h.key_ne_of_not (by decide) c hc, h.key_ne_of_not (by decide) c hc⟩
  rw [body, spaced]
  split
  · exact Unmarked.nil.append hk
  · exact (h.unmarked.cons (by decide) (by decide)).append hk

lemma exists_body_eq (h : t.Writable) : ∃ s x, t.body = s ++ [x] ∧ ¬isBlank x := by
  rw [body, spaced]
  split
  · rcases List.eq_nil_or_concat t.key.toList with hn | ⟨s, x, hx⟩
    · exact (h.key_ne (by simpa using hn)).elim
    · refine ⟨s, x, by simpa using hx, not_isBlank_of_isKeyChar (h.isKeyChar x ?_)⟩
      simp [hx]
  · next hne =>
    rcases List.eq_nil_or_concat t.content.toList with hn | ⟨s, x, hx⟩
    · exact (hne (by simpa using hn)).elim
    · exact ⟨t.key.toList ++ ' ' :: s, x, by simp [hx], h.last x (by simp [hx])⟩

lemma write_eq (h : t.Writable) :
    t.write = '\n' :: ' ' :: '*' :: ' ' :: '@' :: decorate t.body := by
  have hn : '\n' ∉ t.key.toList := fun hm => h.key_ne_of_not (by decide) _ hm rfl
  rw [write, body, spaced, decorate_append, decorate_eq_self hn]
  split <;> rfl

lemma decorate_body_ne_nil (h : t.Writable) : decorate t.body ≠ [] := by
  obtain ⟨c, s, hk⟩ := List.exists_cons_of_ne_nil (l := t.key.toList) (by simpa using h.key_ne)
  have hc : c ≠ '\n' := h.key_ne_of_not (by decide) c (by simp [hk])
  rw [body, hk, List.cons_append, decorate_cons_of_ne hc]
  simp

lemma breakWhere_body (h : t.Writable) {w : List Char}
    (hw : (w.dropWhile isBlank).head? ≠ some '@') :
    breakWhere atMarker (decorate t.body ++ w) =
      (decorate t.body ++ (breakWhere atMarker w).1, (breakWhere atMarker w).2) := by
  obtain ⟨s, x, hs, hx⟩ := h.exists_body_eq
  apply breakWhere_append_stop
  intro a b hab hb
  have hu := h.unmarked_body
  rw [hs] at hu hab
  exact not_atMarker hu hx hw ⟨a, hab.symm⟩ hb

lemma not_isIndent_head? (h : t.Writable) :
    ∀ l ∈ ('@' :: t.body).splitOn '\n', ∀ c ∈ l.head?, ¬isIndent c := by
  have hline := h.unmarked_body.line
  obtain ⟨k, ks, hs⟩ := exists_splitOn_eq t.body
  rw [splitOn_cons_of_ne (by decide), hs]
  rw [hs] at hline
  intro l hl c hc
  rcases List.mem_cons.1 hl with rfl | hl
  · cases hc
    decide
  · exact fun hi => (hline l hl c hc).1 (isBlank_of_isIndent hi)

lemma stripDecoration_item (h : t.Writable) {tail : List Char}
    (ht : tail = [] ∨ tail = ['\n', ' ']) :
    stripDecoration ('*' :: ' ' :: '@' :: (decorate t.body ++ tail)) = '@' :: (t.body ++ tail) := by
  have hd : '@' :: decorate t.body = decorate ('@' :: t.body) :=
    (decorate_cons_of_ne (by decide) _).symm
  rw [← List.cons_append, hd, stripDecoration_decorate h.not_isIndent_head? ht, List.cons_append]

lemma trim_spaced (h : t.Writable) {tail : List Char} (ht : ∀ c ∈ tail, isBlank c) :
    trimEnd (trimStart (t.spaced ++ tail)) = t.content.toList := by
  rw [spaced]
  split
  · next hc =>
    rw [List.nil_append, trimStart, ← List.append_nil tail, List.dropWhile_append_of_pos ht, hc]
    rfl
  · next hc =>
    have hb : isBlank ' ' = true := by decide
    obtain ⟨c, s, hk⟩ := List.exists_cons_of_ne_nil (l := t.content.toList) (by simpa using hc)
    have hn : ¬isBlank c := h.head c (by simp [hk])
    rw [trimStart, List.cons_append, List.dropWhile_cons_of_pos hb, hk, List.cons_append,
      List.dropWhile_cons_of_neg hn, ← List.cons_append, ← hk, trimEnd_append h.last ht]

lemma ofItem?_body (h : t.Writable) {tail : List Char} (ht : tail = [] ∨ tail = ['\n', ' ']) :
    Tag.ofItem? ('@' :: (t.body ++ tail)) = some t.toTag := by
  have hblank : ∀ c ∈ tail, isBlank c := by
    rcases ht with rfl | rfl <;> exact List.all_eq_true.1 (by decide)
  have hstop : ∀ c ∈ (t.spaced ++ tail).head?, ¬Tag.isKeyChar c := by
    intro c hc
    rw [spaced] at hc
    split at hc
    · rcases ht with rfl | rfl
      · cases hc
      · cases hc
        decide
    · cases hc
      decide
  have hhead : (t.key.toList ++ (t.spaced ++ tail)).head?.any Tag.isKeyChar := by
    obtain ⟨c, s, hk⟩ := List.exists_cons_of_ne_nil (l := t.key.toList) (by simpa using h.key_ne)
    simpa [hk] using h.isKeyChar c (by simp [hk])
  rw [Tag.ofItem?, body, List.append_assoc, Tag.keyAndContent?, hhead, beq_self_eq_true,
    Bool.and_true, if_pos rfl, takeWhile_append_stop h.isKeyChar hstop,
    dropWhile_append_stop h.isKeyChar hstop, h.trim_spaced hblank]
  simp [toTag]

end Writable

lemma writeAll_cons {t : TagText} (h : t.Writable) (tags : List TagText) :
    writeAll (t :: tags) =
      '\n' :: ' ' :: '*' :: ' ' :: '@' :: (decorate t.body ++ writeAll tags) := by
  rw [writeAll, List.flatMap_cons, h.write_eq, List.append_assoc]
  rfl

lemma head?_dropWhile_writeAll {tags : List TagText} (h : ∀ t ∈ tags, t.Writable) :
    ((writeAll tags).dropWhile isBlank).head? ≠ some '@' := by
  cases tags with
  | nil => decide
  | cons t tags =>
    have hb : isBlank '\n' = true ∧ isBlank ' ' = true ∧ isBlank '*' = false := by decide
    simp [writeAll_cons (h t List.mem_cons_self), hb]

lemma atMarker_writeAll {t : TagText} (h : t.Writable) (tags : List TagText) :
    atMarker (writeAll (t :: tags)) := by
  rw [atMarker_iff, writeAll_cons h]
  exact ⟨['\n', ' '], [' '], _, List.all_eq_true.1 (by decide), List.all_eq_true.1 (by decide), rfl⟩

lemma commentItems_writeAll_nil : commentItems (writeAll []) = [] := by
  have hw : writeAll [] = ['\n', ' '] := rfl
  rw [hw, commentItems_of_none (by decide), commentItems_of_none (by decide), commentItems]

lemma commentItems_writeAll_cons {t : TagText} (h : t.Writable) {tags : List TagText}
    (ht : ∀ t ∈ tags, t.Writable) :
    commentItems (writeAll (t :: tags)) =
      ('*' :: ' ' :: '@' :: (decorate t.body ++ (breakWhere atMarker (writeAll tags)).1)) ::
        commentItems (breakWhere atMarker (writeAll tags)).2 := by
  have hb := h.breakWhere_body (head?_dropWhile_writeAll ht)
  have hm : marker? ('*' :: ' ' :: '@' :: (decorate t.body ++ writeAll tags)) =
      some (['*', ' ', '@'], decorate t.body ++ writeAll tags) :=
    marker?_star (List.all_eq_true.1 (by decide : [' '].all isBlank)) _
  rw [writeAll_cons h, commentItems_of_none (marker?_eq_none_of_ne (by decide) _),
    commentItems_of_none (marker?_eq_none_of_ne (by decide) _),
    commentItems_of_some hm (by simp [hb, h.decorate_body_ne_nil]), hb]
  rfl

lemma map_ofItem?_commentItems {tags : List TagText} (h : ∀ t ∈ tags, t.Writable) :
    (commentItems (writeAll tags)).map (fun item => Tag.ofItem? (stripDecoration item)) =
      (tags.map toTag).map some := by
  induction tags with
  | nil =>
    rw [commentItems_writeAll_nil]
    rfl
  | cons t tags ih =>
    have ht := h t List.mem_cons_self
    have hts : ∀ x ∈ tags, x.Writable := fun x hx => h x (List.mem_cons_of_mem t hx)
    rw [commentItems_writeAll_cons ht hts, List.map_cons, List.map_cons, List.map_cons]
    -- The end of the comment belongs to the item of the last tag only.
    cases tags with
    | nil =>
      have hb : breakWhere atMarker (writeAll []) = (['\n', ' '], []) := by decide
      rw [hb, ht.stripDecoration_item (.inr rfl), ht.ofItem?_body (.inr rfl), commentItems]
      rfl
    | cons u tags =>
      rw [breakWhere_of_here (atMarker_writeAll (hts u List.mem_cons_self) tags),
        ht.stripDecoration_item (.inl rfl), ht.ofItem?_body (.inl rfl), ih hts]

lemma commentItems_open {tags : List TagText} (h : ∀ t ∈ tags, t.Writable) :
    commentItems ('/' :: '*' :: '*' :: writeAll tags) = commentItems (writeAll tags) := by
  have hslash := marker?_eq_none_of_ne (c := '/') (by decide) ('*' :: '*' :: writeAll tags)
  have hstar : marker? ('*' :: '*' :: writeAll tags) = none := by
    apply marker?_star_eq_none
    rw [List.dropWhile_cons_of_neg (by decide)]
    simp
  have hlast := marker?_star_eq_none (head?_dropWhile_writeAll h)
  rw [commentItems_of_none hslash, commentItems_of_none hstar, commentItems_of_none hlast]

lemma items_writeComment {tags : List TagText} (h : ∀ t ∈ tags, t.Writable) :
    Block.items ⟨.comment, writeComment tags⟩ =
      (commentItems (writeAll tags)).map stripDecoration := by
  rw [← commentItems_open h]
  simp only [Block.items, writeComment, String.toList_ofList]

theorem tags?_writeComment {tags : List TagText} (h : ∀ t ∈ tags, t.Writable) :
    Block.tags? ⟨.comment, writeComment tags⟩ = some (tags.map toTag) := by
  rw [Block.tags?, items_writeComment h]
  apply mapM_eq_some
  rw [List.map_map]
  exact map_ofItem?_commentItems h

/-- Stars at both ends of lines, at signs, and lines without anything on them. -/
theorem tags?_writeComment_signs :
    let tags : List TagText :=
      [⟨"ngdoc", "method"⟩, ⟨"param", "x* y *\n\n*z @w\n**"⟩, ⟨"scope", ""⟩, ⟨"see", "@a * b"⟩,
        ⟨"_1", ""⟩]
    (∀ t ∈ tags, t.Writable) ∧
      Block.tags? ⟨.comment, writeComment tags⟩ = some (tags.map toTag) := by
  intro tags
  have h : ∀ t ∈ tags, t.Writable := by decide
  exact ⟨h, tags?_writeComment h⟩

end TagText

end DocHarvest
