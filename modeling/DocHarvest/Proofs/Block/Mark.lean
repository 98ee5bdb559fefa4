import DocHarvest.Proofs.Block.Key
import DocHarvest.Proofs.Record.Draft

/-! The documentation mark. It makes a documentation tag of an item only if it is the item's first key:
inside a longer key, after another key or in the text of a tag it makes none. -/

namespace DocHarvest.Block

open Text

def mark : List Char :=
  "@ngdoc".toList

/-- The mark is the first thing in the item that reads as a tag, and its key goes no further. -/
def IsMarked (item : List Char) : Prop :=
  ∃ before after, item = before ++ mark ++ after ∧ Tag.Keyless before ∧
    ∀ c ∈ after.head?, ¬Tag.isKeyChar c

lemma isMarked_iff {item : List Char} : IsMarked item ↔ Tag.key? item = some "ngdoc".toList := by
  have hne : "ngdoc".toList ≠ [] := by decide
  have hk : ∀ c ∈ "ngdoc".toList, Tag.isKeyChar c := List.all_eq_true.1 (by decide)
  have ha : ∀ before after, before ++ mark ++ after = before ++ '@' :: ("ngdoc".toList ++ after) :=
    fun before after => List.append_assoc before mark after
  simp only [Tag.key?_eq_some_iff, IsMarked, ha, and_iff_right hne, and_iff_right hk]

variable {b : Block} {tags : List Tag}

lemma isDocumentation_iff : b.isDocumentation ↔ ∃ item ∈ b.items, mark <:+: item := by
  rw [isDocumentation, List.any_eq_true]
  simp only [hasPiece_iff]
  rfl

lemma key_eq_kind_iff {item : List Char} {t : Tag} (h : b.tagOf? item = some t) :
    t.key = .kind ↔ IsMarked item := by
  obtain ⟨key, ht, hk⟩ := exists_key_of_tagOf? h
  rw [ht, Key.ofText_eq_kind_iff, isMarked_iff, hk _ (by decide), ← String.toList_inj,
    String.toList_ofList]

lemma exists_kind_iff (h : b.tags? = some tags) :
    (∃ t ∈ tags, t.key = .kind) ↔ ∃ item ∈ b.items, IsMarked item := by
  constructor
  · rintro ⟨t, ht, hk⟩
    obtain ⟨item, hi, hit⟩ := exists_item_of_mem h ht
    exact ⟨item, hi, (key_eq_kind_iff hit).1 hk⟩
  · rintro ⟨item, hi, hm⟩
    obtain ⟨t, ht, hit⟩ := exists_tag_of_mem h hi
    exact ⟨t, ht, (key_eq_kind_iff hit).2 hm⟩

lemma exists_findRev?_kind_iff :
    (∃ t, tags.findRev? (·.key == Key.kind) = some t) ↔ ∃ t ∈ tags, t.key = .kind := by
  rw [← Option.isSome_iff_exists, List.findRev?_eq_find?_reverse, List.find?_isSome]
  simp

variable {defaultModule : Option String}

lemma ofBlock?_eq_none_iff :
    Record.ofBlock? b defaultModule = none ↔
      (∀ item ∈ b.items, ¬mark <:+: item) ∨ b.tags? = none ∨
        ∃ tags, b.tags? = some tags ∧ ∃ t ∈ tags, t.isBadParam := by
  have hd : ¬b.isDocumentation ↔ ∀ item ∈ b.items, ¬mark <:+: item := by
    rw [isDocumentation_iff]
    simp only [not_exists, not_and]
  rw [← hd, Record.ofBlock?]
  split
  · next h =>
    rw [or_iff_right (not_not.2 h)]
    cases b.tags? with
    | none => simp
    | some tags => simp [Record.ofTags?_eq_none_iff]
  · next h => simp [h]

/-- Only a block with a documentation tag becomes a record, and the last such tag gives its kind. -/
structure OnlyMarked (b : Block) (defaultModule : Option String) : Prop where
  marked : ∀ r, Record.ofBlock? b defaultModule = some r → ∃ tags t, b.tags? = some tags ∧
    tags.findRev? (·.key == .kind) = some t ∧ r.kind = some t.content
  unmarked : (∀ tags, b.tags? = some tags → ∀ t ∈ tags, t.key ≠ .kind) →
    Record.ofBlock? b defaultModule = none

lemma onlyMarked_of_ofBlock?_eq_none (h : Record.ofBlock? b defaultModule = none) :
    b.OnlyMarked defaultModule := by
  refine ⟨fun r hr => ?_, fun _ => h⟩
  rw [h] at hr
  cases hr

lemma onlyMarked_of_isMarked (h : ∃ item ∈ b.items, IsMarked item) :
    b.OnlyMarked defaultModule := by
  constructor
  case marked =>
    intro r hr
    obtain ⟨-, tags, ht, hr⟩ := Record.ofBlock?_eq_some_iff.1 hr
    obtain ⟨t, hf⟩ := exists_findRev?_kind_iff.2 ((exists_kind_iff ht).2 h)
    refine ⟨tags, t, ht, hf, ?_⟩
    rw [Record.kind_ofTags? hr, Tag.kindOf, hf, Option.map_some]
  case unmarked =>
    intro hn
    cases ht : b.tags? with
    | none => exact ofBlock?_eq_none_iff.2 (.inr (.inl ht))
    | some tags =>
      obtain ⟨t, hm, hk⟩ := (exists_kind_iff ht).2 h
      exact (hn tags ht t hm hk).elim

theorem onlyMarked_iff (b : Block) (defaultModule : Option String) :
    b.OnlyMarked defaultModule ↔
      (∃ item ∈ b.items, IsMarked item) ∨ (∀ item ∈ b.items, ¬mark <:+: item) ∨ b.tags? = none ∨
        ∃ tags, b.tags? = some tags ∧ ∃ t ∈ tags, t.isBadParam := by
  rw [← @ofBlock?_eq_none_iff b defaultModule]
  constructor
  · intro h
    cases hr : Record.ofBlock? b defaultModule with
    | none => exact .inr rfl
    | some r =>
      obtain ⟨tags, t, ht, hf, -⟩ := h.marked r hr
      exact .inl ((exists_kind_iff ht).1 (exists_findRev?_kind_iff.1 ⟨t, hf⟩))
  · rintro (h | h)
    · exact onlyMarked_of_isMarked h
    · exact onlyMarked_of_ofBlock?_eq_none h

/-- A longer key that starts like the mark. -/
theorem not_onlyMarked_of_longer_key :
    let b : Block := ⟨.comment, "/**\n * @ngdocs overview\n * @name intro\n "⟩
    let r : Record := { Record.blank none with
      name := "intro", parent := some ⟨none, none⟩, extra := .ofList [("ngdocs", "overview")] }
    b.tags? = some [⟨.other "ngdocs", "overview"⟩, ⟨.name, "intro"⟩] ∧
      Record.ofBlock? b none = some r ∧ ¬b.OnlyMarked none := by
  intro b r
  have ht : b.tags? = some [⟨.other "ngdocs", "overview"⟩, ⟨.name, "intro"⟩] := by decide +kernel
  have hr : Record.ofBlock? b none = some r := by decide +kernel
  refine ⟨ht, hr, fun h => ?_⟩
  obtain ⟨_, _, -, -, hk⟩ := h.marked r hr
  cases hk

end DocHarvest.Block
