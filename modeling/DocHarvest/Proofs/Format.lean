import DocHarvest.Format
import DocHarvest.Proofs.Json.Parsing
import DocHarvest.Proofs.Json.Writing
import DocHarvest.Proofs.Record.Encoding

/-! What is written for a list of records is a document, and it determines the records. -/

namespace DocHarvest.Format

open Json

def tree (records : List Record) : Tree :=
  (Json.array (records.map Record.toJson)).tree

lemma tree_injective : Function.Injective tree := fun _ _ h =>
  array_map_injective Record.toJson_injective (eq_of_tree h)

lemma exists_document (pretty : Bool) (records : List Record) :
    ∃ text, (array pretty).render records = text ++ "\n" ∧ Document text (tree records) := by
  have hp : (if pretty then Style.indented else Style.compact).Plain := by
    split
    · exact Style.plain_indented
    · exact Style.plain_compact
  exact ⟨_, rfl, document_render hp _⟩

lemma eq_of_render {pretty pretty' : Bool} {records records' : List Record}
    (h : (array pretty).render records = (array pretty').render records') : records = records' := by
  obtain ⟨text, ht, hd⟩ := exists_document pretty records
  obtain ⟨text', ht', hd'⟩ := exists_document pretty' records'
  rw [ht, ht', String.append_left_inj] at h
  rw [h] at hd
  exact tree_injective (hd.unique hd')

/-- The text is a document whether it is indented or not, it is read as one and the same tree, and
no other list of records has this tree, or this text in one of the two layouts. -/
theorem read?_render (records : List Record) :
    (∀ pretty, ∃ text, (array pretty).render records = text ++ "\n" ∧
        (∀ t, Document text t ↔ t = tree records) ∧ read? text = some (tree records)) ∧
      (∀ records', tree records' = tree records ↔ records' = records) ∧
      ∀ records' pretty pretty',
        (array pretty').render records' = (array pretty).render records → records' = records := by
  refine ⟨fun pretty => ?_, fun _ => tree_injective.eq_iff, fun _ _ _ => eq_of_render⟩
  obtain ⟨text, ht, hd⟩ := exists_document pretty records
  refine ⟨text, ht, fun t => ⟨fun h => h.unique hd, ?_⟩, read?_eq_some_iff.2 hd⟩
  rintro rfl
  exact hd

end DocHarvest.Format
