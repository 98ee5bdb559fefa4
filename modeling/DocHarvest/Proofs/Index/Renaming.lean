import DocHarvest.Proofs.Index.Stability
import DocHarvest.Proofs.Scope

/-! Files under other paths. All of them may move into a directory around them: the scopes that come in
addition contain none of them. -/

namespace DocHarvest

section Renamed

variable (f : String → String)

def Record.renamed (r : Record) : Record :=
  { r with file := f r.file }

def Source.renamed (s : Source) : Source :=
  { s with path := f s.path }

def Entry.renamed (e : Entry) : Entry where
  path := f e.path
  records := e.records.map (Record.renamed f)

def Index.renamed (ix : Index) : Index :=
  ofEntries (ix.entries.map (Entry.renamed f))

lemma Source.records_renamed (s : Source) :
    (s.renamed f).records = s.records.map (Record.renamed f) := by
  have hb : (s.renamed f).blocks = s.blocks := rfl
  rw [Source.records, Source.records, records?, records?, hb]
  split
  · rfl
  · simp [List.map_filterMap, Function.comp_def, Record.renamed, Source.renamed]

end Renamed

namespace Index

section Renamed

variable {f : String → String} {ix ix' : Index}

lemma entries_renamed (hf : ∀ s ∈ ix.paths, ∀ t ∈ ix.paths, f s = f t → s = t) :
    (ix.renamed f).entries = ix.entries.map (Entry.renamed f) := by
  apply entries_ofEntries
  have hm : (ix.entries.map (Entry.renamed f)).map Entry.path = ix.paths.map f := by
    rw [List.map_map, paths, List.map_map]
    rfl
  rw [hm]
  exact ix.distinct.map_on hf

lemma records_of_renamed (he : ix'.entries = ix.entries.map (Entry.renamed f)) :
    ix'.records = ix.records.map (Record.renamed f) := by
  rw [records, records, he, List.flatMap_map, List.map_flatMap]
  rfl

lemma declaredIn?_of_renamed (he : ix'.entries = ix.entries.map (Entry.renamed f))
    {scope scope' : String}
    (hc : ∀ e ∈ ix.entries, Scope.contains scope' (f e.path) = Scope.contains scope e.path) :
    ix'.declaredIn? scope' = ix.declaredIn? scope := by
  have hd : ∀ e : Entry, (e.renamed f).records.findSome? Record.declared? =
      e.records.findSome? Record.declared? := by
    intro e
    rw [Entry.renamed, List.findSome?_map]
    rfl
  rw [declaredIn?_eq, declaredIn?_eq, he, List.filter_map, List.findSome?_map]
  simp only [Function.comp_def, hd]
  congr 1
  exact List.filter_congr hc

lemma resolveRecord_renamed {r : Record}
    (hm : ix'.missingModule? (r.renamed f) = ix.missingModule? r) :
    ix'.resolveRecord (r.renamed f) = (ix.resolveRecord r).renamed f := by
  rw [resolveRecord, resolveRecord, hm]
  split <;> rfl

lemma recordsOf?_renamed (he : ix'.entries = ix.entries.map (Entry.renamed f))
    (hf : Function.Injective f) (path : String) :
    ix'.recordsOf? (f path) = (ix.recordsOf? path).map (List.map (Record.renamed f)) := by
  have hp : ((·.path == f path) ∘ Entry.renamed f) = (·.path == path) := by
    funext e
    simp [Entry.renamed, hf.eq_iff]
  rw [recordsOf?_eq_find?, recordsOf?_eq_find?, he, List.find?_map, hp, Option.map_map,
    Option.map_map]
  rfl

lemma nodup_renamed {sources : List Source} (hf : Function.Injective f)
    (hs : (sources.map Source.path).Nodup) :
    ((sources.map (Source.renamed f)).map Source.path).Nodup := by
  have hm : (sources.map (Source.renamed f)).map Source.path = (sources.map Source.path).map f := by
    rw [List.map_map, List.map_map]
    rfl
  rw [hm]
  exact hs.map hf

lemma entries_ofSources_renamed {sources : List Source} (hf : Function.Injective f)
    (hs : (sources.map Source.path).Nodup) :
    (ofSources (sources.map (Source.renamed f))).entries =
      (ofSources sources).entries.map (Entry.renamed f) := by
  rw [entries_ofSources (nodup_renamed hf hs), entries_ofSources hs, List.map_map, List.map_map]
  refine List.map_congr_left fun s _ => ?_
  rw [Function.comp_apply, Source.records_renamed]
  rfl

end Renamed

section Base

variable {base : String} {ix ix' : Index}
  (he : ix'.entries = ix.entries.map (Entry.renamed (base ++ ·)))
include he

lemma declaredIn?_base (scope : String) : ix'.declaredIn? (base ++ scope) = ix.declaredIn? scope :=
  declaredIn?_of_renamed he fun e _ => Scope.contains_base base scope e.path

variable (hp : ∀ e ∈ ix.entries, '/' ∈ e.path.toList)
include hp

lemma declaredIn?_around {scope : String} (hs : scope.toList <+: base.toList) :
    ix'.declaredIn? scope = none := by
  have hf : ix'.entries.filter (fun e => Scope.contains scope e.path) = [] := by
    rw [he, List.filter_map, List.map_eq_nil_iff, List.filter_eq_nil_iff]
    exact fun e he => Scope.not_contains_base hs (hp e he)
  rw [declaredIn?_eq, hf]
  rfl

lemma governing?_base (hb : base.toList.getLast? = some '/') {dir : String}
    (hd : dir.toList.getLast? = some '/') :
    ix'.governing? (base ++ dir) = ix.governing? dir := by
  -- A path that enters a directory below the base is in none of the scopes from the base outwards.
  have hn : (Scope.chain base).findSome? ix'.declaredIn? = none := by
    rw [List.findSome?_eq_none_iff]
    intro scope hm
    apply declaredIn?_around he hp
    rcases Scope.eq_or_of_mem_chain hm with rfl | ⟨hpre, -⟩
    · exact List.prefix_refl _
    · exact hpre
  rw [governing?, Scope.chain_append hb hd, List.findSome?_append, hn, Option.or_none,
    List.findSome?_map, governing?]
  congr 1
  exact funext (declaredIn?_base he)

lemma resolveRecord_base (hb : base.toList.getLast? = some '/') {r : Record}
    (hr : '/' ∈ r.file.toList ∧ '\\' ∉ r.file.toList) :
    ix'.resolveRecord (r.renamed (base ++ ·)) = (ix.resolveRecord r).renamed (base ++ ·) := by
  have hg := governing?_base he hp hb (Scope.getLast?_directory hr.1 hr.2)
  apply resolveRecord_renamed
  rw [missingModule?, missingModule?, ← hg, ← Scope.directory_base hr.1]
  rfl

end Base

lemma append_injective (base : String) : Function.Injective (base ++ ·) := fun _ _ =>
  (String.append_right_inj base).1

section Sources

variable {base : String} {sources : List Source} (hb : base.toList.getLast? = some '/')
  (hs : (sources.map Source.path).Nodup)
  (hp : ∀ s ∈ sources, '/' ∈ s.path.toList ∧ '\\' ∉ s.path.toList)
include hb hs hp

lemma entries_build_base :
    (build (sources.map (Source.renamed (base ++ ·)))).entries =
      (build sources).entries.map (Entry.renamed (base ++ ·)) := by
  have hf := append_injective base
  have he := entries_ofSources_renamed hf hs
  have hpe : ∀ e ∈ (ofSources sources).entries, '/' ∈ e.path.toList := by
    rw [entries_ofSources hs, List.forall_mem_map]
    exact fun s hm => (hp s hm).1
  rw [entries_build (nodup_renamed hf hs), entries_build hs, List.map_map, List.map_map]
  refine List.map_congr_left fun s hm => ?_
  rw [Function.comp_apply, Function.comp_apply, Source.records_renamed, Entry.renamed, List.map_map,
    List.map_map, Entry.mk.injEq]
  refine ⟨rfl, List.map_congr_left fun r hr => ?_⟩
  apply resolveRecord_base he hpe hb
  rw [Source.file_of_mem_records hr]
  exact hp s hm

theorem build_base :
    (build (sources.map (Source.renamed (base ++ ·)))).entries =
        (build sources).entries.map (Entry.renamed (base ++ ·)) ∧
      ∀ path, (build (sources.map (Source.renamed (base ++ ·)))).recordsOf? (base ++ path) =
        ((build sources).recordsOf? path).map (List.map (Record.renamed (base ++ ·))) := by
  have he := entries_build_base hb hs hp
  exact ⟨he, recordsOf?_renamed he (append_injective base)⟩

end Sources

theorem build_base_app :
    let base := "packages/web/"
    let sources : List Source :=
      [⟨"/index.js", "js", "/**\n * @ngdoc module\n * @name app\n */"⟩,
        ⟨"/ui//tabs.js", "js", "/**\n * @ngdoc directive\n * @name tabs\n */"⟩]
    base.toList.getLast? = some '/' ∧ (sources.map Source.path).Nodup ∧
      (∀ s ∈ sources, '/' ∈ s.path.toList ∧ '\\' ∉ s.path.toList) ∧
      (build (sources.map (Source.renamed (base ++ ·)))).entries =
        (build sources).entries.map (Entry.renamed (base ++ ·)) ∧
      ∀ path, (build (sources.map (Source.renamed (base ++ ·)))).recordsOf? (base ++ path) =
        ((build sources).recordsOf? path).map (List.map (Record.renamed (base ++ ·))) := by
  intro base sources
  have hb : base.toList.getLast? = some '/' := by decide
  have hs : (sources.map Source.path).Nodup := by decide
  have hp : ∀ s ∈ sources, '/' ∈ s.path.toList ∧ '\\' ∉ s.path.toList := by decide
  exact ⟨hb, hs, hp, build_base hb hs hp⟩

end Index

end DocHarvest
