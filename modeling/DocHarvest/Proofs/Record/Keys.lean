import DocHarvest.Proofs.Block.Key
import DocHarvest.Proofs.Index.Filing
import DocHarvest.Proofs.Record.Encoding

/-! The keys of a record's JSON object. A tag is kept under a key of its own, which is that of a field
only where no tag stands for the field. -/

namespace DocHarvest

def Json.keys : Json → List String
  | .object members => members.map Prod.fst
  | _ => []

namespace Record

lemma map_fst_present_sublist (slots : List (String × Option Json)) :
    ((present slots).map Prod.fst).Sublist (slots.map Prod.fst) := by
  induction slots with
  | nil => exact List.Sublist.slnil
  | cons s slots ih =>
    obtain ⟨key, _ | value⟩ := s
    · exact ih.cons key
    · exact ih.cons_cons key

lemma mem_map_fst_present {slots : List (String × Option Json)} {key : String} :
    key ∈ (present slots).map Prod.fst ↔ ∃ value, (key, some value) ∈ slots := by
  induction slots with
  | nil => simp [present]
  | cons s slots ih =>
    obtain ⟨k, _ | value⟩ := s
    · rw [present_cons_none, ih]
      simp
    · rw [present_cons_some, List.map_cons, List.mem_cons, ih]
      simp [exists_or]

lemma keys_toJson (r : Record) :
    r.toJson.keys = (present r.slots).map Prod.fst ++ "file" :: r.extra.entries.map Prod.fst := by
  rw [toJson, Json.keys, fieldMembers_eq_present, extraMembers]
  simp [Function.comp_def]

lemma mem_extra_keys {r : Record} {key : String} :
    key ∈ r.extra.entries.map Prod.fst ↔ (r.extra.get? key).isSome := by
  rw [Option.isSome_iff_exists, List.mem_map]
  simp only [Dictionary.get?_eq_some_iff]
  exact ⟨fun ⟨e, he, hk⟩ => ⟨e.2, hk ▸ he⟩, fun ⟨v, hv⟩ => ⟨_, hv, rfl⟩⟩

lemma nodup_keys_toJson_iff {r : Record} :
    r.toJson.keys.Nodup ↔ ¬(r.extra.get? "file").isSome ∧
      ∀ key, (r.extra.get? key).isSome → ¬∃ value, (key, some value) ∈ r.slots := by
  have hf : ("file" :: (present r.slots).map Prod.fst).Nodup :=
    ((map_fst_present_sublist r.slots).cons_cons "file").nodup nodup_fieldKeys
  rw [List.nodup_cons] at hf
  rw [keys_toJson, List.nodup_append', List.nodup_cons, List.disjoint_cons_right]
  simp only [hf, r.extra.nodup_keys, mem_extra_keys, List.Disjoint, mem_map_fst_present, and_true,
    true_and, not_false_eq_true]
  exact and_congr_right fun _ => ⟨fun h key he hs => h hs he, fun h key hs he => h key he hs⟩

end Record

/-- The key of the tag is that of a field that the record has and no tag stands for. -/
def Tag.Clashes (kind : Option String) (t : Tag) : Prop :=
  t.key = .other "docType" ∨ t.key = .other "params" ∨ t.key = .other "file" ∨
    t.key = .other "parentDoc" ∧ kind ≠ some "module"

lemma Block.exists_ofText_of_mem {b : Block} {tags : List Tag} (h : b.tags? = some tags) {t : Tag}
    (ht : t ∈ tags) : ∃ text, t.key = .ofText text := by
  obtain ⟨item, -, hi⟩ := exists_item_of_mem h ht
  obtain ⟨key, hk, -⟩ := exists_key_of_tagOf? hi
  exact ⟨_, hk⟩

namespace Record

/-- What a record keeps of its tags for good, whatever module it is given later. -/
structure Carries (tags : List Tag) (r : Record) : Prop where
  known : ∀ t ∈ tags, ∃ text, t.key = .ofText text
  kind : r.kind = Tag.kindOf tags
  extra : ∀ key, (r.extra.get? key).isSome ↔ ∃ t ∈ tags, t.key = .other key
  parent : r.parent = none ↔ r.kind = some "module"

variable {tags : List Tag} {r : Record}

lemma mem_slots_iff {key : String} (hk : Key.ofText key = .other key) :
    (∃ value, (key, some value) ∈ r.slots) ↔
      key = "docType" ∨ key = "params" ∨ key = "parentDoc" ∧ r.parent ≠ none := by
  -- The other keys of fields are keys of tags, which no tag is kept under.
  have hn : ∀ k ∈ fieldKeys, Key.ofText k = .other k → k = "docType" ∨ k = "params" ∨ k = "parentDoc" := by
    decide
  constructor
  · rintro ⟨value, hv⟩
    have hm : key ∈ fieldKeys := map_fst_slots r ▸ List.mem_map_of_mem hv
    rcases hn key hm hk with rfl | rfl | rfl
    · exact .inl rfl
    · exact .inr (.inl rfl)
    · refine .inr (.inr ⟨rfl, fun hp => ?_⟩)
      simp [slots, hp] at hv
  · rintro (rfl | rfl | ⟨rfl, hp⟩)
    · exact ⟨_, List.mem_cons_self⟩
    · exact ⟨.array (r.params.map Param.toJson), by simp [slots]⟩
    · obtain ⟨p, hp⟩ := Option.ne_none_iff_exists'.1 hp
      exact ⟨p.toJson, by simp [slots, hp]⟩

lemma Carries.nodup_keys_iff (h : r.Carries tags) :
    r.toJson.keys.Nodup ↔ ∀ t ∈ tags, ¬t.Clashes (Tag.kindOf tags) := by
  have hp : r.parent ≠ none ↔ Tag.kindOf tags ≠ some "module" := by
    rw [← h.kind]
    exact not_congr h.parent
  rw [nodup_keys_toJson_iff]
  constructor
  · rintro ⟨hf, hs⟩ t ht hc
    have he : ∀ key, t.key = .other key → (r.extra.get? key).isSome := fun key hk =>
      (h.extra key).2 ⟨t, ht, hk⟩
    rcases hc with hc | hc | hc | ⟨hc, hm⟩
    · exact hs _ (he _ hc) ((mem_slots_iff (by decide)).2 (.inl rfl))
    · exact hs _ (he _ hc) ((mem_slots_iff (by decide)).2 (.inr (.inl rfl)))
    · exact hf (he _ hc)
    · exact hs _ (he _ hc) ((mem_slots_iff (by decide)).2 (.inr (.inr ⟨rfl, hp.2 hm⟩)))
  · intro hc
    refine ⟨fun hf => ?_, fun key he hs => ?_⟩
    · obtain ⟨t, ht, hk⟩ := (h.extra _).1 hf
      exact hc t ht (.inr (.inr (.inl hk)))
    · obtain ⟨t, ht, hk⟩ := (h.extra key).1 he
      obtain ⟨text, hx⟩ := h.known t ht
      obtain rfl := Key.eq_of_ofText (hx.symm.trans hk)
      rcases (mem_slots_iff (hx.symm.trans hk)).1 hs with rfl | rfl | ⟨rfl, hm⟩
      · exact hc t ht (.inl hk)
      · exact hc t ht (.inr (.inl hk))
      · exact hc t ht (.inr (.inr (.inr ⟨hk, hp.1 hm⟩)))

lemma carries_ofBlock? {b : Block} (ht : b.tags? = some tags) (hr : ofTags? tags none = some r) :
    r.Carries tags :=
  ⟨fun _ hm => b.exists_ofText_of_mem ht hm, kind_ofTags? hr, isSome_extra_ofTags? hr,
    (rooted_ofTags? hr).parent_eq_none_iff⟩

lemma Carries.withFile (h : r.Carries tags) (path : String) :
    Carries tags { r with file := path } :=
  ⟨h.known, h.kind, h.extra, h.parent⟩

lemma Carries.resolveRecord (h : r.Carries tags) (ix : Index) :
    (ix.resolveRecord r).Carries tags := by
  rw [Index.resolveRecord]
  split
  · exact ⟨h.known, h.kind, h.extra, Option.map_eq_none_iff.trans h.parent⟩
  · exact h

end Record

lemma forall₂_filterMap {α β γ : Type} {R : β → γ → Prop} {f : α → Option β} {g : α → Option γ}
    (h : ∀ a, Option.Rel R (f a) (g a)) (xs : List α) :
    List.Forall₂ R (xs.filterMap f) (xs.filterMap g) := by
  induction xs with
  | nil => exact .nil
  | cons x xs ih =>
    have hx := h x
    rw [List.filterMap_cons, List.filterMap_cons]
    cases hf : f x <;> cases hg : g x <;> rw [hf, hg] at hx
    · exact ih
    · cases hx
    · cases hx
    · cases hx with
      | some hr => exact .cons hr ih

namespace Source

/-- The tags of each block of a source that makes a record, in order. -/
def taggings (s : Source) : List (List Tag) :=
  s.blocks.filterMap fun b => (Record.ofBlock? b none).bind fun _ => b.tags?

lemma records_eq (s : Source) :
    s.records = s.blocks.filterMap fun b =>
      (Record.ofBlock? b none).map fun r => { r with file := s.path } := by
  rw [records, records?]
  split
  · next h => rw [h]; rfl
  · rfl

lemma forall₂_carries (s : Source) : List.Forall₂ Record.Carries s.taggings s.records := by
  rw [records_eq]
  refine forall₂_filterMap (fun b => ?_) s.blocks
  cases hb : Record.ofBlock? b none with
  | none => exact .none
  | some r =>
    obtain ⟨-, tags, ht, hr⟩ := Record.ofBlock?_eq_some_iff.1 hb
    rw [Option.bind_some, ht]
    exact .some ((Record.carries_ofBlock? ht hr).withFile s.path)

end Source

/-- The keys of the record from a block with these tags are distinct unless a tag clashes. -/
def Record.DistinctUnlessClash (tags : List Tag) (r : Record) : Prop :=
  r.toJson.keys.Nodup ↔ ∀ t ∈ tags, ¬t.Clashes (Tag.kindOf tags)

/-- The records of an entry are those of a source, block by block. -/
def Entry.OfSource (R : List Tag → Record → Prop) (sources : List Source) (e : Entry) : Prop :=
  ∃ s ∈ sources, s.path = e.path ∧ List.Forall₂ R s.taggings e.records

lemma Entry.OfSource.imp {R S : List Tag → Record → Prop} (h : ∀ tags r, R tags r → S tags r)
    {sources : List Source} {e : Entry} (he : e.OfSource R sources) : e.OfSource S sources := by
  obtain ⟨s, hs, hp, hr⟩ := he
  exact ⟨s, hs, hp, hr.imp h⟩

theorem Index.distinctUnlessClash_after (sources : List Source) (calls : List Call) :
    (∀ s : Source, List.Forall₂ Record.DistinctUnlessClash s.taggings s.records) ∧
      (∀ e ∈ ((ofSources sources).after calls).entries,
        e.OfSource Record.DistinctUnlessClash sources) ∧
      ∀ e ∈ ((build sources).after calls).entries,
        e.OfSource Record.DistinctUnlessClash sources := by
  have hd : ∀ tags r, Record.Carries tags r → r.DistinctUnlessClash tags := fun _ _ h =>
    h.nodup_keys_iff
  have hm : ∀ (ix : Index) (e : Entry), e.OfSource Record.Carries sources →
      Entry.OfSource Record.Carries sources ⟨e.path, e.records.map ix.resolveRecord⟩ := by
    rintro ix e ⟨s, hs, hp, hr⟩
    refine ⟨s, hs, hp, List.forall₂_map_right_iff.2 ?_⟩
    exact hr.imp fun _ _ h => h.resolveRecord ix
  obtain ⟨ho, hb⟩ := forall_entries_after hm (fun s hs => ⟨s, hs, rfl, s.forall₂_carries⟩) calls
  exact ⟨fun s => s.forall₂_carries.imp hd, fun e he => (ho e he).imp hd,
    fun e he => (hb e he).imp hd⟩

/-- A tag that is called like the field that holds the path of the source. -/
theorem Source.not_nodup_keys_of_file_tag :
    let s : Source :=
      ⟨"src/store.js", "js", "/**\n * @ngdoc service\n * @name store\n * @file storage.js\n */"⟩
    ∃ r ∈ s.records, r.toJson.keys = ["docType", "ngdoc", "name", "params", "parentDoc", "file", "file"] ∧
      ¬r.toJson.keys.Nodup := by
  intro s
  let r : Record := { Record.blank (some "service") with
    name := "store", parent := some ⟨none, none⟩, file := "src/store.js",
    extra := .ofList [("file", "storage.js")] }
  exact ⟨r, by decide +kernel, by decide +kernel, by decide +kernel⟩

end DocHarvest
