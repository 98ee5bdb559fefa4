import DocHarvest.Proofs.Index.Resolution

/-! One more source at the end. It moves a record to a module of its own only from a scope nearer than
the one that governed the record before. -/

namespace DocHarvest

lemma findSome?_or_cases {α β : Type} (f g : α → Option β) (l : List α) :
    l.findSome? (fun a => (f a).or (g a)) = l.findSome? f ∨
      ∃ n a b, l[n]? = some a ∧ g a = some b ∧
        l.findSome? (fun a => (f a).or (g a)) = some b ∧ ∀ x ∈ l.take (n + 1), f x = none := by
  induction l with
  | nil => exact Or.inl rfl
  | cons a l ih =>
    rw [List.findSome?_cons, List.findSome?_cons]
    cases hf : f a with
    | some b => exact Or.inl rfl
    | none =>
      cases hg : g a with
      | some b => exact Or.inr ⟨0, a, b, rfl, hg, rfl, by simpa using hf⟩
      | none =>
        rcases ih with he | ⟨n, x, b, hx, hb, he, hn⟩
        · exact Or.inl he
        · refine Or.inr ⟨n + 1, x, b, hx, hb, he, ?_⟩
          rw [List.take_succ_cons, List.forall_mem_cons]
          exact ⟨hf, hn⟩

namespace Source

def records (s : Source) : List Record :=
  s.records?.getD []

/-- The name of the first module that a source declares. -/
def declared? (s : Source) : Option String :=
  s.records.findSome? Record.declared?

lemma file_of_mem_records {s : Source} {r : Record} (h : r ∈ s.records) : r.file = s.path := by
  rw [records, records?] at h
  split at h
  · cases h
  · obtain ⟨b, -, hb⟩ := List.mem_filterMap.1 h
    obtain ⟨r, -, rfl⟩ := Option.map_eq_some_iff.1 hb
    rfl

lemma exists_of_declared? {s : Source} {m : String} (h : s.declared? = some m) :
    ∃ d ∈ s.records, d.Declares m := by
  obtain ⟨d, hd, hm⟩ := List.exists_of_findSome?_eq_some h
  exact ⟨d, hd, Record.declared?_eq_some_iff.1 hm⟩

end Source

namespace Index

lemma entries_ofSources {sources : List Source} (h : (sources.map Source.path).Nodup) :
    (ofSources sources).entries = sources.map fun s => ⟨s.path, s.records⟩ := by
  have he : ofSources sources = ofEntries (sources.map fun s => ⟨s.path, s.records⟩) := by
    rw [ofSources, ofEntries, List.foldl_map]
    rfl
  rw [he, entries_ofEntries]
  rwa [List.map_map]

lemma entries_build {sources : List Source} (h : (sources.map Source.path).Nodup) :
    (build sources).entries = sources.map fun s =>
      ⟨s.path, s.records.map (ofSources sources).resolveRecord⟩ := by
  rw [build, resolveAll, resolveEach_entries, paths, entries_ofSources h, List.map_map]
  refine List.map_congr_left fun x hx => ?_
  have hp : x.path ∈ sources.map Source.path := List.mem_map_of_mem hx
  simp [resolvedEntry, Function.comp_def, hp]

lemma recordsOf?_build {sources : List Source} (h : (sources.map Source.path).Nodup) {s : Source}
    (hs : s ∈ sources) :
    (build sources).recordsOf? s.path =
      some (s.records.map (ofSources sources).resolveRecord) := by
  rw [recordsOf?_eq_find?, entries_build h, List.find?_map, Function.comp_def,
    (find?_key_eq_some_iff h).2 ⟨hs, rfl⟩]
  rfl

lemma declaredIn?_ofSources {sources : List Source} (h : (sources.map Source.path).Nodup)
    (scope : String) :
    (ofSources sources).declaredIn? scope =
      (sources.filter fun s => Scope.contains scope s.path).findSome? Source.declared? := by
  rw [declaredIn?_eq, entries_ofSources h, List.filter_map, List.findSome?_map]
  rfl

section Append

variable {sources : List Source} {g : Source}

lemma nodup_append (hs : (sources.map Source.path).Nodup) (hg : g.path ∉ sources.map Source.path) :
    ((sources ++ [g]).map Source.path).Nodup := by
  rw [List.map_append, List.nodup_append]
  refine ⟨hs, List.nodup_singleton _, ?_⟩
  rintro a ha b hb rfl
  rw [List.map_singleton, List.mem_singleton] at hb
  exact hg (hb ▸ ha)

lemma declaredIn?_append (hs : (sources.map Source.path).Nodup)
    (hg : g.path ∉ sources.map Source.path) (scope : String) :
    (ofSources (sources ++ [g])).declaredIn? scope =
      ((ofSources sources).declaredIn? scope).or
        (if Scope.contains scope g.path then g.declared? else none) := by
  rw [declaredIn?_ofSources (nodup_append hs hg), declaredIn?_ofSources hs, List.filter_append,
    List.findSome?_append]
  congr 1
  by_cases hc : Scope.contains scope g.path <;> simp [hc]

lemma governing?_append (hs : (sources.map Source.path).Nodup)
    (hg : g.path ∉ sources.map Source.path) (dir : String) :
    (ofSources (sources ++ [g])).governing? dir = (ofSources sources).governing? dir ∨
      ∃ n scope m, (Scope.chain dir)[n]? = some scope ∧ Scope.contains scope g.path ∧
        g.declared? = some m ∧ (ofSources (sources ++ [g])).governing? dir = some m ∧
        ∀ s ∈ (Scope.chain dir).take (n + 1), (ofSources sources).declaredIn? s = none := by
  have hd : (ofSources (sources ++ [g])).declaredIn? = fun scope =>
      ((ofSources sources).declaredIn? scope).or
        (if Scope.contains scope g.path then g.declared? else none) :=
    funext (declaredIn?_append hs hg)
  rw [governing?, governing?, hd]
  rcases findSome?_or_cases (ofSources sources).declaredIn?
    (fun scope => if Scope.contains scope g.path then g.declared? else none)
    (Scope.chain dir) with he | ⟨n, scope, m, hn, hm, he, hnone⟩
  · exact Or.inl he
  · split at hm
    · next hc => exact Or.inr ⟨n, scope, m, hn, hc, hm, he, hnone⟩
    · cases hm

end Append

/-- The walk from `dir` finds the declaration of `m` at its step `n`, and none before. -/
def FoundAt (ix : Index) (dir : String) (n : Nat) (m : String) : Prop :=
  ∃ scope, (Scope.chain dir)[n]? = some scope ∧ ix.declaredIn? scope = some m ∧
    ∀ s ∈ (Scope.chain dir).take n, ix.declaredIn? s = none

lemma exists_foundAt {ix : Index} {dir m : String} (h : ix.governing? dir = some m) :
    ∃ n, ix.FoundAt dir n m := by
  obtain ⟨nearer, scope, farther, hc, hm, hn⟩ := List.findSome?_eq_some_iff.1 h
  refine ⟨nearer.length, scope, ?_, hm, ?_⟩
  · simp [hc]
  · simpa [hc] using hn

lemma FoundAt.lt_of_none {ix : Index} {dir m : String} {n k : Nat} (h : ix.FoundAt dir k m)
    (hn : ∀ s ∈ (Scope.chain dir).take (n + 1), ix.declaredIn? s = none) : n < k := by
  obtain ⟨scope, hk, hm, -⟩ := h
  by_contra hle
  have hmem : scope ∈ (Scope.chain dir).take (n + 1) := by
    apply List.mem_of_getElem? (i := k)
    rw [List.getElem?_take_of_lt (by omega), hk]
  rw [hn scope hmem] at hm
  cases hm

end Index

def Record.withoutModule (r : Record) : Record :=
  { r with module := none, parent := r.parent.map fun p => { p with module := none } }

namespace Record

lemma withoutModule_setModule (m : String) (r : Record) :
    (r.setModule m).withoutModule = r.withoutModule := by
  have hp : ∀ p : Parent, (p.setModule m).name = p.name := by
    intro p
    rw [Parent.setModule]
    split <;> rfl
  simp [withoutModule, setModule, hp, Function.comp_def]

end Record

namespace Index

lemma withoutModule_resolveRecord (ix : Index) (r : Record) :
    (ix.resolveRecord r).withoutModule = r.withoutModule := by
  rw [resolveRecord]
  split
  · next m _ => exact r.withoutModule_setModule m
  · rfl

/-- What adding `g` may do to a record of a file in `dir`: read as `p`, it was `r` in the index built
without `g`, whose sources are those of `ix`, and is `r'` in the index built with it. -/
structure Moves (ix : Index) (g : Source) (dir : String) (p r r' : Record) : Prop where
  rest : r'.withoutModule = r.withoutModule
  kept : ¬p.LacksModule → r' = r
  moved : r' ≠ r →
    (∃ d ∈ g.records, d.kind = some "module" ∧ d.name ≠ none ∧ d.name ≠ some "" ∧
      r'.module = d.name) ∧
    ∃ n scope, (Scope.chain dir)[n]? = some scope ∧ Scope.contains scope g.path ∧
      (r.LacksModule ∨ ∃ k m, n < k ∧ ix.FoundAt dir k m ∧ r.module = some m)
  resolved : ¬r.LacksModule → ¬r'.LacksModule

lemma resolveRecord_of_module {ix : Index} {r : Record} (h : ¬r.LacksModule) :
    ix.resolveRecord r = r := by
  rw [resolveRecord, missingModule?, if_neg (mt Record.needsModule_iff.1 h)]

lemma resolveRecord_of_some {ix : Index} {r : Record} {m : String} (hr : r.LacksModule)
    (h : ix.governing? (Scope.directory r.file) = some m) : ix.resolveRecord r = r.setModule m := by
  rw [resolveRecord, missingModule?_eq_some.2 ⟨Record.needsModule_iff.2 hr, h⟩]

lemma lacksModule_resolveRecord {ix : Index} {r : Record} :
    (ix.resolveRecord r).LacksModule ↔
      r.LacksModule ∧ ix.governing? (Scope.directory r.file) = none := by
  rw [← Record.needsModule_iff, ← Record.needsModule_iff, needsModule_resolveRecord,
    Bool.and_eq_true, Option.isNone_iff_eq_none]

section Append

variable {sources : List Source} {g : Source}

lemma moves_resolveRecord (hs : (sources.map Source.path).Nodup)
    (hg : g.path ∉ sources.map Source.path) (p : Record) :
    (ofSources sources).Moves g (Scope.directory p.file) p ((ofSources sources).resolveRecord p)
      ((ofSources (sources ++ [g])).resolveRecord p) := by
  have hgov := governing?_append hs hg (Scope.directory p.file)
  constructor
  case rest => rw [withoutModule_resolveRecord, withoutModule_resolveRecord]
  case kept =>
    intro hp
    rw [resolveRecord_of_module hp, resolveRecord_of_module hp]
  case moved =>
    intro hne
    have hp : p.LacksModule := by
      by_contra hp
      exact hne (by rw [resolveRecord_of_module hp, resolveRecord_of_module hp])
    rcases hgov with he | ⟨n, scope, m, hn, hc, hm, he, hnone⟩
    · exact (hne (by rw [resolveRecord, resolveRecord, missingModule?, missingModule?, he])).elim
    · obtain ⟨d, hd, hk, hname, hm'⟩ := Source.exists_of_declared? hm
      refine ⟨⟨d, hd, hk, by simp [hname], by simpa [hname] using hm', ?_⟩, n, scope, hn, hc, ?_⟩
      · rw [resolveRecord_of_some hp he, hname, Record.module_setModule]
      · cases ho : (ofSources sources).governing? (Scope.directory p.file) with
        | none => exact Or.inl (lacksModule_resolveRecord.2 ⟨hp, ho⟩)
        | some old =>
          obtain ⟨k, hk⟩ := exists_foundAt ho
          refine Or.inr ⟨k, old, hk.lt_of_none hnone, hk, ?_⟩
          rw [resolveRecord_of_some hp ho, Record.module_setModule]
  case resolved =>
    intro hr hr'
    obtain ⟨hp, hnone⟩ := lacksModule_resolveRecord.1 hr'
    rcases hgov with he | ⟨n, scope, m, hn, hc, hm, he, -⟩
    · exact hr (lacksModule_resolveRecord.2 ⟨hp, he ▸ hnone⟩)
    · rw [hnone] at he
      cases he

lemma resolveRecord_append_of_outside (hs : (sources.map Source.path).Nodup)
    (hg : g.path ∉ sources.map Source.path) {p : Record}
    (ho : ∀ scope ∈ Scope.chain (Scope.directory p.file), ¬Scope.contains scope g.path) :
    (ofSources (sources ++ [g])).resolveRecord p = (ofSources sources).resolveRecord p := by
  rcases governing?_append hs hg (Scope.directory p.file) with he | ⟨n, scope, m, hn, hc, -⟩
  · rw [resolveRecord, resolveRecord, missingModule?, missingModule?, he]
  · exact (ho scope (List.mem_of_getElem? hn) hc).elim

theorem build_append (hs : (sources.map Source.path).Nodup)
    (hg : g.path ∉ sources.map Source.path) :
    ∀ f ∈ sources, ∃ rs rs' : List Record,
      (build sources).recordsOf? f.path = some rs ∧
      (build (sources ++ [g])).recordsOf? f.path = some rs' ∧
      rs.length = f.records.length ∧ rs'.length = f.records.length ∧
      (∀ (i : Nat) p r r', f.records[i]? = some p → rs[i]? = some r → rs'[i]? = some r' →
        (ofSources sources).Moves g (Scope.directory f.path) p r r') ∧
      ((∀ scope ∈ Scope.chain (Scope.directory f.path), ¬Scope.contains scope g.path) →
        rs' = rs) := by
  intro f hf
  refine ⟨_, _, recordsOf?_build hs hf,
    recordsOf?_build (nodup_append hs hg) (List.mem_append_left [g] hf),
    List.length_map _, List.length_map _, ?_, ?_⟩
  · intro i p r r' hp hr hr'
    rw [List.getElem?_map, hp, Option.map_some, Option.some.injEq] at hr hr'
    rw [← hr, ← hr', ← Source.file_of_mem_records (List.mem_of_getElem? hp)]
    exact moves_resolveRecord hs hg p
  · intro ho
    refine List.map_congr_left fun p hp => ?_
    apply resolveRecord_append_of_outside hs hg
    rwa [Source.file_of_mem_records hp]

end Append

theorem build_append_nearer :
    let sources : List Source :=
      [⟨"app/index.js", "js", "/**\n * @ngdoc module\n * @name app\n */"⟩,
        ⟨"app/ui/tabs.js", "js", "/**\n * @ngdoc directive\n * @name tabs\n */"⟩]
    let g : Source := ⟨"app/ui/index.js", "js", "/**\n * @ngdoc module\n * @name app.ui\n */"⟩
    (sources.map Source.path).Nodup ∧ g.path ∉ sources.map Source.path ∧
      ∀ f ∈ sources, ∃ rs rs' : List Record,
        (build sources).recordsOf? f.path = some rs ∧
        (build (sources ++ [g])).recordsOf? f.path = some rs' ∧
        rs.length = f.records.length ∧ rs'.length = f.records.length ∧
        (∀ (i : Nat) p r r', f.records[i]? = some p → rs[i]? = some r → rs'[i]? = some r' →
          (ofSources sources).Moves g (Scope.directory f.path) p r r') ∧
        ((∀ scope ∈ Scope.chain (Scope.directory f.path), ¬Scope.contains scope g.path) →
          rs' = rs) := by
  intro sources g
  have hs : (sources.map Source.path).Nodup := by decide
  have hg : g.path ∉ sources.map Source.path := by decide
  exact ⟨hs, hg, build_append hs hg⟩

end Index

end DocHarvest
