import DocHarvest.Block.Tag
import DocHarvest.Proofs.List
import DocHarvest.Proofs.Text.Cutting

/-! The key of an item: it stands after the first at sign that a key can follow. -/

namespace DocHarvest

open Text

namespace Key

lemma ofText_eq_kind_iff {text : String} : ofText text = kind ↔ text = "ngdoc" := by
  unfold ofText
  split <;> simp_all

lemma eq_of_ofText {text key : String} (h : ofText text = other key) : text = key := by
  unfold ofText at h
  split at h <;> simp_all

end Key

namespace Tag

def key? (item : List Char) : Option (List Char) :=
  (keyAndContent? item).map Prod.fst

lemma key?_cons (c : Char) (s : List Char) :
    key? (c :: s) = if c == '@' && s.head?.any isKeyChar then some (s.takeWhile isKeyChar) else key? s := by
  rw [key?, keyAndContent?]
  split <;> rfl

/-- No at sign of the text has a key after it. -/
def Keyless (s : List Char) : Prop :=
  ∀ c, isKeyChar c → ¬['@', c] <:+: s

lemma keyless_cons_iff {c : Char} {s : List Char} :
    Keyless (c :: s) ↔ ¬(c == '@' && s.head?.any isKeyChar) ∧ Keyless s := by
  have hc : (∀ x, isKeyChar x → ¬['@', x] <+: c :: s) ↔ ¬(c == '@' && s.head?.any isKeyChar) := by
    cases s with
    | nil => simp
    | cons y s =>
      simp only [List.cons_prefix_cons, List.nil_prefix, and_true, List.head?_cons, Option.any_some,
        Bool.and_eq_true, beq_iff_eq, not_and]
      exact ⟨fun h hc hy => h y hy hc.symm rfl, fun h x hx hc hy => h hc.symm (hy ▸ hx)⟩
  rw [← hc]
  simp only [Keyless, List.infix_cons_iff, not_or, imp_and, forall_and]

lemma key?_eq_none_iff {s : List Char} : key? s = none ↔ Keyless s := by
  induction s with
  | nil => simp [key?, keyAndContent?, Keyless]
  | cons c s ih =>
    rw [key?_cons, keyless_cons_iff, ← ih]
    split
    · next h => simp [h]
    · next h => simp [h]

lemma not_isKeyChar_at : ¬isKeyChar '@' := by
  decide

lemma key?_append (before u : List Char) :
    key? (before ++ '@' :: u) = (key? before).or (key? ('@' :: u)) := by
  induction before with
  | nil => rfl
  | cons c before ih =>
    have hh : (before ++ '@' :: u).head?.any isKeyChar = before.head?.any isKeyChar := by
      cases before with
      | nil => simpa using not_isKeyChar_at
      | cons x before => rfl
    rw [List.cons_append, key?_cons, key?_cons, hh, takeWhile_append_cons not_isKeyChar_at, ih]
    split <;> rfl

lemma key?_at {key after : List Char} (hne : key ≠ []) (hk : ∀ c ∈ key, isKeyChar c)
    (ha : ∀ c ∈ after.head?, ¬isKeyChar c) : key? ('@' :: (key ++ after)) = some key := by
  have hh : (key ++ after).head?.any isKeyChar := by
    obtain ⟨c, s, rfl⟩ := List.exists_cons_of_ne_nil hne
    simpa using hk c List.mem_cons_self
  rw [key?_cons, hh, beq_self_eq_true, Bool.and_true, if_pos rfl, takeWhile_append_stop hk ha]

lemma key?_eq_some_iff {item key : List Char} :
    key? item = some key ↔ ∃ before after, item = before ++ '@' :: (key ++ after) ∧ Keyless before ∧
      key ≠ [] ∧ (∀ c ∈ key, isKeyChar c) ∧ ∀ c ∈ after.head?, ¬isKeyChar c := by
  constructor
  · intro h
    induction item with
    | nil => cases h
    | cons c s ih =>
      rw [key?_cons] at h
      split at h
      · next hc =>
        cases h
        rw [Bool.and_eq_true, beq_iff_eq] at hc
        obtain ⟨rfl, hs⟩ := hc
        refine ⟨[], s.dropWhile isKeyChar, ?_, ?_, ?_, ?_, ?_⟩
        · rw [List.takeWhile_append_dropWhile]
          rfl
        · simp [Keyless]
        · cases s with
          | nil => cases hs
          | cons x s =>
            rw [List.takeWhile_cons_of_pos (by simpa using hs)]
            exact List.cons_ne_nil _ _
        · exact fun x hx => List.mem_takeWhile_imp hx
        · intro x hx
          have hd := List.head?_dropWhile_not isKeyChar s
          rw [Option.mem_def.1 hx] at hd
          simpa using hd
      · next hc =>
        obtain ⟨before, after, rfl, hb, hk⟩ := ih h
        refine ⟨c :: before, after, rfl, keyless_cons_iff.2 ⟨fun hcb => hc ?_, hb⟩, hk⟩
        cases before with
        | nil => simp at hcb
        | cons x before => exact hcb
  · rintro ⟨before, after, rfl, hb, hne, hk, ha⟩
    rw [key?_append, key?_eq_none_iff.2 hb, Option.none_or, key?_at hne hk ha]

lemma ofItem?_eq_some {item : List Char} {t : Tag} (h : ofItem? item = some t) :
    ∃ key, key? item = some key ∧ t.key = .ofText (String.ofList key) := by
  obtain ⟨p, hp, rfl⟩ := Option.map_eq_some_iff.1 h
  exact ⟨p.1, by rw [key?, hp, Option.map_some], rfl⟩

lemma exists_ofItem?_of_key? {item key : List Char} (h : key? item = some key) :
    ∃ t, ofItem? item = some t ∧ t.key = .ofText (String.ofList key) := by
  obtain ⟨p, hp, rfl⟩ := Option.map_eq_some_iff.1 h
  exact ⟨_, by rw [ofItem?, hp, Option.map_some], rfl⟩

/-- A description mark can be the key of an item, but not part of another key. -/
lemma key?_separateDescription_eq_some_iff {item key : List Char}
    (hk : ¬"description".toList <+: key) :
    key? (separateDescription item) = some key ↔ key? item = some key := by
  have hd : ∀ before rest, key? (before ++ descriptionMark ++ rest) = some key ↔
      key? before = some key := by
    intro before rest
    have hkey : ∀ c ∈ "description".toList, isKeyChar c := List.all_eq_true.1 (by decide)
    have hm : key? ('@' :: ("description".toList ++ rest)) ≠ some key := by
      rw [key?_cons, if_pos (by rfl), List.takeWhile_append_of_pos hkey]
      intro he
      exact hk ⟨_, Option.some.inj he⟩
    have ha : before ++ descriptionMark ++ rest =
        before ++ '@' :: ("description".toList ++ rest) := List.append_assoc _ _ _
    rw [ha, key?_append]
    cases key? before with
    | none => simpa using hm
    | some k => rfl
  rw [separateDescription]
  split
  · next before after h => rw [eq_of_cutAt? h, hd, hd]
  · rfl

lemma key_withWholeDescription (page : List Char) (t : Tag) :
    (t.withWholeDescription page).key = t.key := by
  rw [withWholeDescription]
  split <;> rfl

end Tag

namespace Block

def tagOf? (b : Block) (item : List Char) : Option Tag :=
  match b.layout with
  | .comment => Tag.ofItem? item
  | .page => (Tag.ofItem? (Tag.separateDescription item)).map (Tag.withWholeDescription b.text.toList)

lemma tags?_eq_mapM (b : Block) : b.tags? = b.items.mapM b.tagOf? := by
  unfold tags? tagOf?
  cases b.layout <;> rfl

variable {b : Block} {tags : List Tag}

lemma map_tagOf?_items (h : b.tags? = some tags) : b.items.map b.tagOf? = tags.map some := by
  rw [tags?_eq_mapM] at h
  exact map_eq_of_mapM h

lemma exists_item_of_mem (h : b.tags? = some tags) {t : Tag} (ht : t ∈ tags) :
    ∃ item ∈ b.items, b.tagOf? item = some t := by
  rw [← List.mem_map, map_tagOf?_items h]
  exact List.mem_map_of_mem ht

lemma exists_tag_of_mem (h : b.tags? = some tags) {item : List Char} (hi : item ∈ b.items) :
    ∃ t ∈ tags, b.tagOf? item = some t := by
  obtain ⟨t, ht, he⟩ := List.mem_map.1 (map_tagOf?_items h ▸ List.mem_map_of_mem hi)
  exact ⟨t, ht, he.symm⟩

lemma exists_key_of_tagOf? {item : List Char} {t : Tag} (h : b.tagOf? item = some t) :
    ∃ key, t.key = .ofText (String.ofList key) ∧
      ∀ k, ¬"description".toList <+: k → (Tag.key? item = some k ↔ key = k) := by
  rw [tagOf?] at h
  split at h
  · obtain ⟨key, hk, ht⟩ := Tag.ofItem?_eq_some h
    exact ⟨key, ht, fun k _ => by rw [hk, Option.some.injEq]⟩
  · obtain ⟨u, hu, rfl⟩ := Option.map_eq_some_iff.1 h
    obtain ⟨key, hk, ht⟩ := Tag.ofItem?_eq_some hu
    refine ⟨key, by rw [Tag.key_withWholeDescription, ht], fun k hd => ?_⟩
    rw [← Tag.key?_separateDescription_eq_some_iff hd, hk, Option.some.injEq]

end Block

end DocHarvest
