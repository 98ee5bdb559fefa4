import DocHarvest.Dictionary
import DocHarvest.Proofs.List

/-! Look-up by key among entries whose keys are distinct. Where the keys ascend, the entries that can be
looked up are all there is to a list. -/

namespace DocHarvest

section Key

variable {α κ : Type} [BEq κ] [LawfulBEq κ] {key : α → κ} {k : κ} {xs : List α}

lemma find?_key_eq_some_iff (h : (xs.map key).Nodup) {x : α} :
    xs.find? (key · == k) = some x ↔ x ∈ xs ∧ key x = k := by
  constructor
  · intro hx
    exact ⟨List.mem_of_find?_eq_some hx, by simpa using List.find?_some hx⟩
  · rintro ⟨hx, rfl⟩
    cases hf : xs.find? (key · == key x) with
    | none => exact (List.find?_eq_none.1 hf x hx (beq_self_eq_true _)).elim
    | some y =>
      have hk : key y = key x := by simpa using List.find?_some hf
      rw [List.inj_on_of_nodup_map h (List.mem_of_find?_eq_some hf) hx hk]

/-- A sum over the one entry that has the key. -/
lemma sum_of_key_eq [DecidableEq κ] (f : α → Nat) (h : (xs.map key).Nodup) :
    (xs.map fun x => if key x = k then f x else 0).sum =
      ((xs.find? (key · == k)).map f).getD 0 := by
  induction xs with
  | nil => rfl
  | cons x xs ih =>
    rw [List.map_cons, List.nodup_cons] at h
    by_cases hk : key x = k
    · have hr : ∀ y ∈ xs, key y ≠ k := fun y hy hyk =>
        h.1 (List.mem_map.2 ⟨y, hy, hyk.trans hk.symm⟩)
      have hs : (xs.map fun y => if key y = k then f y else 0).sum = 0 := by
        rw [List.map_congr_left fun y hy => if_neg (hr y hy)]
        simp
      simp [hk, hs]
    · simp [hk, ih h.2]

end Key

namespace Dictionary

variable {α : Type}

lemma nodup_keys (d : Dictionary α) : (d.entries.map Prod.fst).Nodup := by
  rw [List.Nodup, List.pairwise_map]
  exact d.ascending.imp String.ne_of_lt

lemma get?_eq_some_iff {d : Dictionary α} {key : String} {value : α} :
    d.get? key = some value ↔ (key, value) ∈ d.entries := by
  rw [get?, Option.map_eq_some_iff]
  simp only [find?_key_eq_some_iff d.nodup_keys]
  constructor
  · rintro ⟨e, ⟨he, rfl⟩, rfl⟩
    exact he
  · exact fun he => ⟨_, ⟨he, rfl⟩, rfl⟩

lemma ext_get? {d d' : Dictionary α} (h : ∀ key, d.get? key = d'.get? key) : d = d' := by
  have hmem : ∀ e, e ∈ d.entries ↔ e ∈ d'.entries := by
    intro e
    rw [← get?_eq_some_iff, ← get?_eq_some_iff, h]
  have he : d.entries = d'.entries :=
    eq_of_mem_iff (fun _ _ => String.lt_asymm) d.ascending d'.ascending hmem
  cases d
  cases d'
  cases he
  rfl

end Dictionary

end DocHarvest
