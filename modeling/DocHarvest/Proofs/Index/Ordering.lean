import DocHarvest.Proofs.Index.Grouping
import DocHarvest.Proofs.Index.Stability
import DocHarvest.Proofs.Scope

/-! Sources in another order. Where no directory declares two modules, the order of the sources is the
order of the entries and decides nothing else. -/

namespace DocHarvest.Index

lemma findSome?_congr {α β : Type} {f g : α → Option β} {l : List α} (h : ∀ a ∈ l, f a = g a) :
    l.findSome? f = l.findSome? g := by
  induction l with
  | nil => rfl
  | cons a l ih =>
    rw [List.forall_mem_cons] at h
    rw [List.findSome?_cons, List.findSome?_cons, h.1, ih h.2]

lemma findSome?_eq_some_iff_of_agree {α β : Type} {f : α → Option β} {l : List α}
    (h : ∀ a ∈ l, ∀ b ∈ l, ∀ x y, f a = some x → f b = some y → x = y) {x : β} :
    l.findSome? f = some x ↔ ∃ a ∈ l, f a = some x := by
  constructor
  · exact List.exists_of_findSome?_eq_some
  · rintro ⟨a, ha, hx⟩
    have hs : (l.findSome? f).isSome := List.findSome?_isSome_iff.2 ⟨a, ha, by simp [hx]⟩
    obtain ⟨y, hy⟩ := Option.isSome_iff_exists.1 hs
    obtain ⟨b, hb, hby⟩ := List.exists_of_findSome?_eq_some hy
    rw [hy, h a ha b hb x y hx hby]

lemma findSome?_perm {α β : Type} {f : α → Option β} {l l' : List α} (hp : l.Perm l')
    (h : ∀ a ∈ l', ∀ b ∈ l', ∀ x y, f a = some x → f b = some y → x = y) :
    l.findSome? f = l'.findSome? f := by
  have hl : ∀ a ∈ l, ∀ b ∈ l, ∀ x y, f a = some x → f b = some y → x = y := fun a ha b hb =>
    h a (hp.mem_iff.1 ha) b (hp.mem_iff.1 hb)
  apply Option.ext
  intro x
  rw [findSome?_eq_some_iff_of_agree hl, findSome?_eq_some_iff_of_agree h]
  simp only [hp.mem_iff]

lemma recordsOf?_eq_of_perm {ix ix' : Index} (h : ix.entries.Perm ix'.entries) (path : String) :
    ix.recordsOf? path = ix'.recordsOf? path := by
  apply Option.ext
  intro records
  rw [recordsOf?_eq_some_iff, recordsOf?_eq_some_iff, h.mem_iff]

lemma keys_byModule_eq_of_perm {ix ix' : Index} (h : ix.records.Perm ix'.records) :
    ix.byModule.entries.map Prod.fst = ix'.byModule.entries.map Prod.fst := by
  have ha : ∀ d : Dictionary (List Record), (d.entries.map Prod.fst).Pairwise (· < ·) := fun d =>
    List.pairwise_map.2 d.ascending
  apply (ha _).eq_of_mem_iff (ha _)
  intro m
  rw [mem_keys_byModule_iff, mem_keys_byModule_iff]
  simp only [h.mem_iff]

lemma byModule_perm {ix ix' : Index} (h : ix.records.Perm ix'.records) :
    List.Forall₂ (fun g g' => g.1 = g'.1 ∧ g.2.Perm g'.2) ix.byModule.entries
      ix'.byModule.entries := by
  rw [entries_byModule ix, entries_byModule ix', keys_byModule_eq_of_perm h,
    List.forall₂_map_left_iff, List.forall₂_map_right_iff, List.forall₂_same]
  exact fun m _ => ⟨rfl, h.filter _⟩

/-- The files directly in a directory declare one module at most. -/
def Unambiguous (sources : List Source) : Prop :=
  ∀ dir, Scope.IsDirectory dir → ∀ s ∈ sources, ∀ t ∈ sources,
    Scope.contains dir s.path → Scope.contains dir t.path →
      ∀ r ∈ s.records, ∀ q ∈ t.records, ∀ m n, r.Declares m → q.Declares n → m = n

lemma unambiguous_of_directory {sources : List Source}
    (h : ∀ s ∈ sources, ∀ t ∈ sources, Scope.directory s.path = Scope.directory t.path →
      ∀ r ∈ s.records, ∀ q ∈ t.records, ∀ m ∈ r.declared?, ∀ n ∈ q.declared?, m = n) :
    Unambiguous sources := by
  intro dir hd s hs t ht hds hdt r hr q hq m n hm hn
  have he : Scope.directory s.path = Scope.directory t.path :=
    (Scope.directory_of_contains hd hds).trans (Scope.directory_of_contains hd hdt).symm
  exact h s hs t ht he r hr q hq m (Record.declared?_eq_some_iff.2 hm) n
    (Record.declared?_eq_some_iff.2 hn)

section Perm

variable {order sources : List Source} (hp : order.Perm sources)
  (hs : (sources.map Source.path).Nodup) (hu : Unambiguous sources)
include hp hs

lemma nodup_of_perm : (order.map Source.path).Nodup :=
  (hp.map Source.path).nodup_iff.2 hs

include hu

lemma declaredIn?_perm {dir : String} (hd : Scope.IsDirectory dir) :
    (ofSources order).declaredIn? dir = (ofSources sources).declaredIn? dir := by
  rw [declaredIn?_ofSources (nodup_of_perm hp hs), declaredIn?_ofSources hs]
  apply findSome?_perm (hp.filter _)
  intro s hs t ht m n hm hn
  obtain ⟨hs, hds⟩ := List.mem_filter.1 hs
  obtain ⟨ht, hdt⟩ := List.mem_filter.1 ht
  obtain ⟨r, hr, hm⟩ := Source.exists_of_declared? hm
  obtain ⟨q, hq, hn⟩ := Source.exists_of_declared? hn
  exact hu dir hd s hs t ht hds hdt r hr q hq m n hm hn

lemma governing?_perm {dir : String} (hd : Scope.IsDirectory dir) :
    (ofSources order).governing? dir = (ofSources sources).governing? dir :=
  findSome?_congr fun _ hm => declaredIn?_perm hp hs hu (Scope.isDirectory_of_mem_chain hd hm)

lemma resolveRecord_perm :
    (ofSources order).resolveRecord = (ofSources sources).resolveRecord := by
  funext r
  rw [resolveRecord, resolveRecord, missingModule?, missingModule?,
    governing?_perm hp hs hu (Scope.isDirectory_directory r.file)]

lemma entries_build_perm : (build order).entries.Perm (build sources).entries := by
  rw [entries_build (nodup_of_perm hp hs), entries_build hs, resolveRecord_perm hp hs hu]
  exact hp.map _

theorem build_perm :
    (∀ path, (build order).recordsOf? path = (build sources).recordsOf? path) ∧
      (build order).unresolved.Perm (build sources).unresolved ∧
      List.Forall₂ (fun g g' => g.1 = g'.1 ∧ g.2.Perm g'.2) (build order).byModule.entries
        (build sources).byModule.entries := by
  have he := entries_build_perm hp hs hu
  have hr : (build order).records.Perm (build sources).records := he.flatMap_right _
  exact ⟨recordsOf?_eq_of_perm he, hr.filter _, byModule_perm hr⟩

end Perm

theorem build_perm_app :
    let sources : List Source :=
      [⟨"app/index.js", "js", "/**\n * @ngdoc module\n * @name app\n */"⟩,
        ⟨"app/ui/tabs.js", "js", "/**\n * @ngdoc directive\n * @name tabs\n */"⟩,
        ⟨"app/api.js", "js",
          "/**\n * @ngdoc module\n * @name app\n */\n/**\n * @ngdoc service\n * @name api\n */"⟩,
        ⟨"app/ui/index.js", "js", "/**\n * @ngdoc module\n * @name app.ui\n */"⟩]
    let order := sources.reverse
    order.Perm sources ∧ (sources.map Source.path).Nodup ∧ Unambiguous sources ∧
      (∀ path, (build order).recordsOf? path = (build sources).recordsOf? path) ∧
      (build order).unresolved.Perm (build sources).unresolved ∧
      List.Forall₂ (fun g g' => g.1 = g'.1 ∧ g.2.Perm g'.2) (build order).byModule.entries
        (build sources).byModule.entries := by
  intro sources order
  have hp : order.Perm sources := sources.reverse_perm
  have hs : (sources.map Source.path).Nodup := by decide
  have hu : Unambiguous sources := unambiguous_of_directory (by decide +kernel)
  exact ⟨hp, hs, hu, build_perm hp hs hu⟩

end DocHarvest.Index
