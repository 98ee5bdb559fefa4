import DocHarvest.Proofs.Block.Key
import DocHarvest.Proofs.Record.Closed
import DocHarvest.Proofs.Text.Lines

/-! The description of a page. The first line that a description mark starts makes a tag of it, and all
tags for a description have the same content: the whole text after the first mark. -/

namespace DocHarvest

open Markup Text

namespace Block

lemma exists_of_lineItem? {line item : List Char} (h : lineItem? line = some item) :
    item = line.takeWhile (· != '\r') ∧ ∃ rest, item = '@' :: rest := by
  rw [lineItem?] at h
  split at h
  · next a c rest hl =>
    rw [Option.ite_none_right_eq_some, beq_iff_eq] at h
    obtain ⟨rfl, h⟩ := h
    cases h
    exact ⟨hl.symm, _, rfl⟩
  · cases h

lemma stripDecoration_of_at {rest : List Char} (h : '\n' ∉ '@' :: rest) :
    stripDecoration ('@' :: rest) = '@' :: rest := by
  rw [stripDecoration, List.splitOn_eq_singleton h, List.map_singleton, List.intercalate_singleton]
  rfl

/-- The items of a page have no decoration. -/
lemma items_page (text : String) : items ⟨.page, text⟩ = pageItems text.toList := by
  have hid : ∀ item ∈ pageItems text.toList, stripDecoration item = id item := by
    intro item hi
    obtain ⟨line, hl, hitem⟩ := List.mem_filterMap.1 hi
    obtain ⟨hline, rest, rfl⟩ := exists_of_lineItem? hitem
    apply stripDecoration_of_at
    intro hn
    rw [hline] at hn
    exact notMem_of_mem_splitOn hl ((List.takeWhile_prefix _).subset hn)
  calc items ⟨.page, text⟩ = (pageItems text.toList).map stripDecoration := rfl
    _ = (pageItems text.toList).map id := List.map_congr_left hid
    _ = pageItems text.toList := List.map_id _

end Block

namespace Tag

def descriptionText : List Char :=
  "description".toList

lemma cutAt?_descriptionMark {before : List Char} (h : ¬descriptionMark <:+: before)
    (after : List Char) :
    cutAt? descriptionMark (before ++ (descriptionMark ++ after)) = some (before, after) := by
  have hat : '@' ∉ descriptionText := by decide
  exact cutAt?_append hat h after

lemma lineItem?_descriptionMark (rest : List Char) :
    Block.lineItem? (descriptionMark ++ rest) =
      some (descriptionMark ++ rest.takeWhile (· != '\r')) := by
  have hr : '\r' ∉ descriptionMark := by decide
  rw [Block.lineItem?, takeWhile_append_of_notMem hr]
  rfl

lemma key?_descriptionMark (rest : List Char) :
    key? (separateDescription (descriptionMark ++ rest)) = some descriptionText := by
  have hnil : ¬descriptionMark <:+: [] := by decide
  have hcut : cutAt? descriptionMark (descriptionMark ++ rest) = some ([], rest) :=
    cutAt?_descriptionMark hnil rest
  have hk : ∀ c ∈ descriptionText, isKeyChar c := List.all_eq_true.1 (by decide)
  rw [separateDescription, hcut]
  exact key?_at (by decide) hk (by simp; decide)

lemma content_withWholeDescription {page before after : List Char} {t : Tag}
    (h : cutAt? descriptionMark page = some (before, after)) (hk : t.key = .description) :
    (t.withWholeDescription page).content = String.ofList after := by
  rw [withWholeDescription, hk, h]

end Tag

namespace Block

variable {text : String} {tags : List Tag}

lemma tagOf?_page (text : String) (item : List Char) :
    tagOf? ⟨.page, text⟩ item = (Tag.ofItem? (Tag.separateDescription item)).map
      (Tag.withWholeDescription text.toList) := rfl

lemma exists_item_of_line {before after : List Char} (hb : before = [] ∨ before.getLast? = some '\n')
    (ht : text.toList = before ++ (Tag.descriptionMark ++ after)) :
    ∃ rest, Tag.descriptionMark ++ rest ∈ items ⟨.page, text⟩ := by
  have hn : '\n' ∉ Tag.descriptionMark := by decide
  have hline := takeWhile_mem_splitOn hb (Tag.descriptionMark ++ after)
  rw [takeWhile_append_of_notMem hn, ← ht] at hline
  rw [items_page]
  exact ⟨_, List.mem_filterMap.2 ⟨_, hline, Tag.lineItem?_descriptionMark _⟩⟩

lemma exists_description_tag {rest : List Char} (h : Block.tags? ⟨.page, text⟩ = some tags)
    (hi : Tag.descriptionMark ++ rest ∈ items ⟨.page, text⟩) : ∃ t ∈ tags, t.key = .description := by
  obtain ⟨t, hm, ht⟩ := exists_tag_of_mem h hi
  obtain ⟨u, hu, hk⟩ := Tag.exists_ofItem?_of_key? (Tag.key?_descriptionMark rest)
  rw [tagOf?_page, hu, Option.map_some, Option.some.injEq] at ht
  refine ⟨t, hm, ?_⟩
  rw [← ht, Tag.key_withWholeDescription, hk]
  rfl

lemma content_of_description {before after : List Char} (h : Block.tags? ⟨.page, text⟩ = some tags)
    (hc : cutAt? Tag.descriptionMark text.toList = some (before, after)) {t : Tag} (ht : t ∈ tags)
    (hk : t.key = .description) : t.content = String.ofList after := by
  obtain ⟨item, -, hof⟩ := exists_item_of_mem h ht
  obtain ⟨u, -, rfl⟩ := Option.map_eq_some_iff.1 hof
  rw [Tag.key_withWholeDescription] at hk
  exact Tag.content_withWholeDescription hc hk

end Block

namespace Record

theorem description_ofBlock?_page {header body : String} {defaultModule : Option String} {r : Record}
    (hl : header = "" ∨ header.toList.getLast? = some '\n')
    (hn : ¬"@description".toList <:+: header.toList)
    (h : ofBlock? ⟨.page, header ++ "@description" ++ body⟩ defaultModule = some r) :
    r.description = some (Segment.ofMarkup body) := by
  obtain ⟨-, tags, ht, hr⟩ := ofBlock?_eq_some_iff.1 h
  have htext : (header ++ "@description" ++ body).toList =
      header.toList ++ (Tag.descriptionMark ++ body.toList) := by
    rw [String.toList_append, String.toList_append, List.append_assoc]
    rfl
  have hcut : cutAt? Tag.descriptionMark (header ++ "@description" ++ body).toList =
      some (header.toList, body.toList) := htext ▸ Tag.cutAt?_descriptionMark hn body.toList
  have hlast : header.toList = [] ∨ header.toList.getLast? = some '\n' :=
    hl.imp_left String.toList_eq_nil_iff.2
  have hdescription : Tag.last? .description tags = some body := by
    obtain ⟨rest, hi⟩ := Block.exists_item_of_line hlast htext
    apply Tag.last?_eq_some (Block.exists_description_tag ht hi)
    intro t hm hk
    rw [Block.content_of_description ht hcut hm hk, String.ofList_toList]
  rw [(follows_ofTags? hr).description, hdescription, Option.map_some]

/-- A mark that runs into a word and a carriage return, and lines of the description that start tags. -/
theorem description_ofBlock?_page_marks :
    let header := "@ngdoc overview\n@name guide:intro\n@descriptio\n text\n"
    let body := "X\r\n@description again\n@name other\n"
    let r : Record := { blank (some "overview") with
      name := "other", description := some [.text body], parent := some ⟨none, "guide"⟩,
      extra := .ofList [("descriptio", "")] }
    (header = "" ∨ header.toList.getLast? = some '\n') ∧ ¬"@description".toList <:+: header.toList ∧
      ofBlock? ⟨.page, header ++ "@description" ++ body⟩ none = some r ∧
      r.description = some (Segment.ofMarkup body) := by
  intro header body r
  have hl : header = "" ∨ header.toList.getLast? = some '\n' := .inr (by decide +kernel)
  have hn : ¬"@description".toList <:+: header.toList := by decide +kernel
  have h : ofBlock? ⟨.page, header ++ "@description" ++ body⟩ none = some r := by decide +kernel
  exact ⟨hl, hn, h, description_ofBlock?_page hl hn h⟩

end Record

end DocHarvest
