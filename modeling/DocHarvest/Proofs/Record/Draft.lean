import DocHarvest.Record.Draft
import DocHarvest.Proofs.Dictionary

/-! What the tags of a block make of its record. Only a parameter stops them; none of them changes the
kind or the parent, and those without a field of their own are kept under their keys. -/

namespace DocHarvest

/-- The texts that are kept when a tag is added to them. -/
def Tag.keep (t : Tag) (extra : Dictionary String) : Dictionary String :=
  match t.key with
  | .other key => extra.insert key t.content
  | _ => extra

def Tag.isBadParam (t : Tag) : Prop :=
  t.key = .param ∧ Param.parse? t.content = none

namespace Draft

variable {c : Context} {d d' : Draft} {t : Tag} {tags : List Tag}

lemma addTag?_eq_some (h : d.addTag? c t = some d') :
    d'.record.kind = d.record.kind ∧ d'.record.parent = d.record.parent ∧
      d'.record.extra = t.keep d.record.extra := by
  rw [addTag?] at h
  rw [Tag.keep]
  cases hk : t.key with
  | param =>
    rw [hk] at h
    obtain ⟨p, -, rfl⟩ := Option.map_eq_some_iff.1 h
    exact ⟨rfl, rfl, rfl⟩
  | name =>
    rw [hk] at h
    cases h
    rw [setName]
    split <;> exact ⟨rfl, rfl, rfl⟩
  | _ =>
    rw [hk] at h
    cases h
    exact ⟨rfl, rfl, rfl⟩

lemma addTag?_eq_none_iff : d.addTag? c t = none ↔ t.isBadParam := by
  rw [addTag?, Tag.isBadParam]
  cases t.key <;> simp

/-- What no tag changes: the kind is settled before the tags act, and the parent after them. -/
structure Underway (c : Context) (d : Draft) : Prop where
  kind : d.record.kind = c.kind
  parent : d.record.parent = none

lemma underway_blank (c : Context) : Underway c ⟨.blank c.kind, none⟩ :=
  ⟨rfl, rfl⟩

lemma Underway.foldlM (h : d.Underway c) (ht : tags.foldlM (Draft.addTag? c) d = some d') :
    d'.Underway c := by
  induction tags generalizing d with
  | nil =>
    cases ht
    exact h
  | cons t tags ih =>
    rw [List.foldlM_cons] at ht
    obtain ⟨e, he, hd⟩ := Option.bind_eq_some_iff.1 ht
    obtain ⟨hk, hp, -⟩ := addTag?_eq_some he
    exact ih ⟨hk.trans h.kind, hp.trans h.parent⟩ hd

lemma foldlM_eq_none_iff : tags.foldlM (Draft.addTag? c) d = none ↔ ∃ t ∈ tags, t.isBadParam := by
  induction tags generalizing d with
  | nil => simp
  | cons t tags ih =>
    rw [List.foldlM_cons, List.exists_mem_cons_iff]
    cases he : d.addTag? c t with
    | none => simp [addTag?_eq_none_iff.1 he]
    | some e =>
      have ht : ¬t.isBadParam := by
        rw [← addTag?_eq_none_iff (c := c) (d := d), he]
        exact Option.some_ne_none e
      rw [or_iff_right ht]
      exact ih

lemma extra_foldlM (ht : tags.foldlM (Draft.addTag? c) d = some d') :
    d'.record.extra = tags.foldl (fun extra t => t.keep extra) d.record.extra := by
  induction tags generalizing d with
  | nil =>
    cases ht
    rfl
  | cons t tags ih =>
    rw [List.foldlM_cons] at ht
    obtain ⟨e, he, hd⟩ := Option.bind_eq_some_iff.1 ht
    rw [ih hd, (addTag?_eq_some he).2.2, List.foldl_cons]

end Draft

lemma Tag.isSome_get?_keep (t : Tag) (extra : Dictionary String) (key : String) :
    ((t.keep extra).get? key).isSome ↔ (extra.get? key).isSome ∨ t.key = .other key := by
  rw [Tag.keep]
  split
  · next k hk =>
    rw [Dictionary.get?_insert, hk, Key.other.injEq]
    split
    · next he => simp [he]
    · next he => simp [he]
  · next hk => exact (or_iff_left (hk key)).symm

lemma Tag.isSome_get?_foldl_keep (tags : List Tag) (extra : Dictionary String) (key : String) :
    ((tags.foldl (fun extra t => t.keep extra) extra).get? key).isSome ↔
      (extra.get? key).isSome ∨ ∃ t ∈ tags, t.key = .other key := by
  induction tags generalizing extra with
  | nil => simp
  | cons t tags ih =>
    rw [List.foldl_cons, ih, isSome_get?_keep, List.exists_mem_cons_iff, or_assoc]

namespace Record

structure Rooted (r : Record) : Prop where
  parent_eq_none_iff : r.parent = none ↔ r.kind = some "module"
  module_eq : ∀ p, r.parent = some p → p.module = r.module

lemma rooted_finish {c : Draft.Context} {d : Draft} (h : d.Underway c) : d.finish.Rooted := by
  have hm : d.record.isModule ↔ d.record.kind = some "module" := beq_iff_eq
  rw [Draft.finish]
  split
  · next hk => exact ⟨by simp [h.parent, hm.1 hk], by simp [h.parent]⟩
  · next hk => exact ⟨by simpa using mt hm.2 hk, by simp⟩

variable {b : Block} {tags : List Tag} {defaultModule : Option String} {r : Record}

lemma kind_ofTags? (h : ofTags? tags defaultModule = some r) : r.kind = Tag.kindOf tags := by
  obtain ⟨d, hd, rfl⟩ := Option.map_eq_some_iff.1 h
  have hk : d.record.kind = Tag.kindOf tags := ((Draft.underway_blank _).foldlM hd).kind
  rw [← hk, Draft.finish]
  split <;> rfl

lemma isSome_extra_ofTags? (h : ofTags? tags defaultModule = some r) (key : String) :
    (r.extra.get? key).isSome ↔ ∃ t ∈ tags, t.key = .other key := by
  obtain ⟨d, hd, rfl⟩ := Option.map_eq_some_iff.1 h
  have he : d.finish.extra = d.record.extra := by
    rw [Draft.finish]
    split <;> rfl
  rw [he, Draft.extra_foldlM hd, Tag.isSome_get?_foldl_keep]
  simp [blank]

lemma ofTags?_eq_none_iff : ofTags? tags defaultModule = none ↔ ∃ t ∈ tags, t.isBadParam := by
  rw [ofTags?, Option.map_eq_none_iff, Draft.foldlM_eq_none_iff]

lemma ofBlock?_eq_some_iff :
    ofBlock? b defaultModule = some r ↔
      b.isDocumentation ∧ ∃ tags, b.tags? = some tags ∧ ofTags? tags defaultModule = some r := by
  rw [ofBlock?]
  split
  · next h => simp [h, Option.bind_eq_some_iff]
  · next h => simp [h]

lemma rooted_ofTags? (h : ofTags? tags defaultModule = some r) : r.Rooted := by
  obtain ⟨d, hd, rfl⟩ := Option.map_eq_some_iff.1 h
  exact rooted_finish ((Draft.underway_blank _).foldlM hd)

lemma rooted_ofBlock? (h : ofBlock? b defaultModule = some r) : r.Rooted := by
  obtain ⟨-, tags, -, ht⟩ := ofBlock?_eq_some_iff.1 h
  exact rooted_ofTags? ht

end Record

end DocHarvest
