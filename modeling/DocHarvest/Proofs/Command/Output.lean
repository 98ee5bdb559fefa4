import DocHarvest.Command
import DocHarvest.Proofs.Command.Discovery
import DocHarvest.Proofs.FileTree
import DocHarvest.Proofs.Format.Lines
import DocHarvest.Proofs.Index.Filing

/-! The files that a run writes. Sources whose paths differ only in what the name of an output file
leaves out share one file, and it is left with the records of the last of them. -/

namespace DocHarvest

namespace Command

def outputFile (format : Format) (path : String) : String :=
  outputName path ++ "." ++ format.extension

lemma outputFile_inj {format : Format} {path path' : String} :
    outputFile format path = outputFile format path' ↔ outputName path = outputName path' := by
  rw [outputFile, outputFile, String.append_left_inj, String.append_left_inj]

/-- The files that the entries call for, with the records for each, in the order of writing. -/
def planned (format : Format) (es : List Entry) : List (String × List Record) :=
  (es.filter fun e => !e.records.isEmpty).map fun e => (outputFile format e.path, e.records)

lemma records_ne_nil_of_mem_planned {format : Format} {es : List Entry} :
    ∀ f ∈ planned format es, f.2 ≠ [] := by
  intro f hf
  obtain ⟨e, he, rfl⟩ := List.mem_map.1 hf
  simpa using (List.mem_filter.1 he).2

lemma flatMap_planned (format : Format) (es : List Entry) :
    (planned format es).flatMap Prod.snd = es.flatMap Entry.records := by
  induction es with
  | nil => rfl
  | cons e es ih =>
    rw [planned] at ih ⊢
    rw [List.filter_cons]
    cases hr : e.records <;> simp [hr, ih]

/-- Of several files with one name, the last. -/
def lasting (files : List (String × List Record)) : List (String × List Record) :=
  files.pwFilter fun f g => f.1 ≠ g.1

section Lasting

variable {files : List (String × List Record)}

lemma nodup_names_lasting : ((lasting files).map Prod.fst).Nodup := by
  rw [List.Nodup, List.pairwise_map]
  exact List.pairwise_pwFilter files

lemma mem_names_lasting {name : String} :
    name ∈ (lasting files).map Prod.fst ↔ name ∈ files.map Prod.fst := by
  have hmem : ∀ fs : List (String × List Record),
      name ∈ fs.map Prod.fst ↔ ¬∀ f ∈ fs, name ≠ f.1 := by
    simp [eq_comm]
  rw [hmem, hmem, not_iff_not]
  refine List.forall_mem_pwFilter (fun {f g k} hne => ?_) (name, []) files
  by_contra hn
  push Not at hn
  exact hne (hn.1.trans hn.2)

lemma lasting_eq_self (h : (files.map Prod.fst).Nodup) : lasting files = files := by
  rw [List.Nodup, List.pairwise_map] at h
  exact List.pwFilter_eq_self.2 h

lemma eq_of_sublist_flatMap {fs gs : List (String × List Record)} (h : fs.Sublist gs)
    (hne : ∀ g ∈ gs, g.2 ≠ [])
    (hl : (gs.flatMap Prod.snd).length ≤ (fs.flatMap Prod.snd).length) : fs = gs := by
  induction h with
  | slnil => rfl
  | @cons fs gs g h ih =>
    have hs := (h.flatMap Prod.snd).length_le
    have hg := List.length_pos_of_ne_nil (hne g List.mem_cons_self)
    rw [List.flatMap_cons, List.length_append] at hl
    omega
  | @cons_cons fs gs g h ih =>
    rw [List.flatMap_cons, List.flatMap_cons, List.length_append, List.length_append] at hl
    rw [ih (fun x hx => hne x (List.mem_cons_of_mem g hx)) (by omega)]

/-- A file that gives way to a later one takes its records with it. -/
lemma perm_lasting_iff (hne : ∀ f ∈ files, f.2 ≠ []) :
    ((lasting files).flatMap Prod.snd).Perm (files.flatMap Prod.snd) ↔
      (files.map Prod.fst).Nodup := by
  constructor
  · intro hp
    rw [← eq_of_sublist_flatMap (List.pwFilter_sublist files) hne hp.length_eq.ge]
    exact nodup_names_lasting
  · intro h
    rw [lasting_eq_self h]

end Lasting

/-- After the run each of the files is in the directory with its own records, everything that was in
the tree before is still there, and every other file is as it was. -/
structure Written (format : Format) (location : List String) (t t' : FileTree)
    (files : List (String × List Record)) : Prop extends FileTree.Extends t t' where
  held : ∀ f ∈ files,
    t'.node? (location ++ [f.1]) = some (.file (format.render f.2).toUTF8)
  other : ∀ place, (∀ f ∈ files, location ++ [f.1] ≠ place) → ∀ content,
    t'.node? place = some (.file content) ↔ t.node? place = some (.file content)

section Write

variable {format : Format} {dir : String} {location : List String} {t t' : FileTree}
  {es : List Entry} {files : List (String × List Record)}

lemma Written.cons {t₁ : FileTree} {name : String} {records : List Record}
    (hw : t.write? location name (format.render records).toUTF8 = some t₁)
    (h : Written format location t₁ t' (lasting files)) :
    Written format location t t' (lasting ((name, records) :: files)) where
  toExtends := (FileTree.extends_of_write? hw).trans h.toExtends
  held := by
    intro f hf
    by_cases hn : ∀ g ∈ lasting files, name ≠ g.1
    · rw [lasting, List.pwFilter_cons_of_pos hn] at hf
      rcases List.mem_cons.1 hf with rfl | hf
      · have hp : ∀ g ∈ lasting files, location ++ [g.1] ≠ location ++ [name] := by
          simpa using fun a b hg => (hn (a, b) hg).symm
        rw [h.other _ hp, FileTree.node?_of_write? hw, if_pos rfl]
      · exact h.held f hf
    · rw [lasting, List.pwFilter_cons_of_neg hn] at hf
      exact h.held f hf
  other := by
    intro place hp content
    have hname : ∀ n ∈ ((name, records) :: files).map Prod.fst, location ++ [n] ≠ place := by
      intro n hn
      obtain ⟨f, hf, rfl⟩ := List.mem_map.1 (mem_names_lasting.2 hn)
      exact hp f hf
    rw [List.map_cons, List.forall_mem_cons] at hname
    rw [h.other place fun f hf =>
        hname.2 f.1 (mem_names_lasting.1 (List.mem_map_of_mem hf)),
      FileTree.node?_of_write? hw, if_neg hname.1]

lemma written_of_writeEntries (h : writeEntries format dir location t es = (t', none)) :
    Written format location t t' (lasting (planned format es)) := by
  induction es generalizing t with
  | nil =>
    cases h
    exact ⟨FileTree.Extends.refl _, by simp [planned, lasting], fun _ _ _ => Iff.rfl⟩
  | cons e es ih =>
    rw [writeEntries] at h
    split at h
    · next he =>
      rw [planned, List.filter_cons_of_neg (by simpa using he)]
      exact ih h
    · next he =>
      dsimp only at h
      split at h
      · next t₁ hw =>
        rw [planned, List.filter_cons_of_pos (by simpa using he), List.map_cons]
        exact Written.cons hw (ih h)
      · cases h

lemma Written.of_makes {t₁ : FileTree} (hm : t.Makes t₁)
    (h : Written format location t₁ t' files) : Written format location t t' files where
  toExtends := hm.toExtends.trans h.toExtends
  held := h.held
  other := fun place hp content => (h.other place hp content).trans (hm.file place content)

lemma written_of_writeInto {ix : Index} (h : writeInto format dir ix t = (t', none)) :
    ∃ location, t'.locate? dir = some location ∧ t'.isDir location ∧
      Written format location t t' (lasting (planned format ix.entries)) := by
  rw [writeInto] at h
  split at h
  · next t₁ location hd =>
    have hm := FileTree.makes_makeDirAt t dir
    rw [hd] at hm
    obtain ⟨hl, hdir⟩ := FileTree.locate?_of_makeDirAt hd
    have hw := written_of_writeEntries h
    exact ⟨location, hw.locate? hl, hw.isDir hdir, hw.of_makes hm⟩
  · cases h

end Write

section Sources

variable {sources : List Source}

def documented (sources : List Source) : Set String :=
  {path | ∃ s ∈ sources, s.records ≠ [] ∧ s.path = path}

variable (h : (sources.map Source.path).Nodup)
include h

lemma planned_build (format : Format) :
    planned format (Index.build sources).entries =
      (sources.filter fun s => !s.records.isEmpty).map fun s =>
        (outputFile format s.path, s.records.map (Index.ofSources sources).resolveRecord) := by
  rw [planned, Index.entries_build h, List.filter_map, List.map_map]
  simp [Function.comp_def]

lemma nodup_names_planned_iff (format : Format) :
    ((planned format (Index.build sources).entries).map Prod.fst).Nodup ↔
      Set.InjOn outputName (documented sources) := by
  have hn : ((sources.filter fun s => !s.records.isEmpty).map Source.path).Nodup :=
    (List.filter_sublist.map Source.path).nodup h
  have hm : (planned format (Index.build sources).entries).map Prod.fst =
      ((sources.filter fun s => !s.records.isEmpty).map Source.path).map (outputFile format) := by
    rw [planned_build h, List.map_map, List.map_map]
    rfl
  rw [hm, List.nodup_map_iff_inj_on hn]
  simp only [outputFile_inj, Set.InjOn, documented]
  simp [and_assoc]

lemma mem_names_planned_build {format : Format} {name : String} :
    name ∈ (planned format (Index.build sources).entries).map Prod.fst ↔
      ∃ path ∈ documented sources, outputFile format path = name := by
  rw [planned_build h]
  simp [documented, and_assoc]

lemma file_of_recordsOf?_build {s : Source} (hs : s ∈ sources) {rs : List Record}
    (hr : (Index.build sources).recordsOf? s.path = some rs) {r : Record} (hm : r ∈ rs) :
    r.file = s.path := by
  rw [Index.recordsOf?_build h hs] at hr
  cases hr
  obtain ⟨x, hx, rfl⟩ := List.mem_map.1 hm
  rw [Index.file_resolveRecord, Source.file_of_mem_records hx]

/-- Where each source has its own file, two sources of one name would have one text. -/
lemma injOn_outputName {format : Format} {t : FileTree} {location : List String}
    (hown : ∀ s ∈ sources, s.records ≠ [] → ∃ rs,
      (Index.build sources).recordsOf? s.path = some rs ∧
      t.node? (location ++ [outputFile format s.path]) =
        some (.file (format.render rs).toUTF8)) :
    Set.InjOn outputName (documented sources) := by
  rintro _ ⟨s, hs, hd, rfl⟩ _ ⟨s', hs', hd', rfl⟩ hname
  obtain ⟨rs, hrs, hn⟩ := hown s hs hd
  obtain ⟨rs', hrs', hn'⟩ := hown s' hs' hd'
  rw [outputFile_inj.2 hname, hn', Option.some.injEq, Node.file.injEq, String.toUTF8_eq_toByteArray,
    String.toUTF8_eq_toByteArray, String.toByteArray_inj] at hn
  have hsame := format.render_injective hn
  have hlen : rs ≠ [] := by
    rw [Index.recordsOf?_build h hs, Option.some.injEq] at hrs
    rw [← hrs]
    simpa using hd
  obtain ⟨r, hr⟩ := List.exists_mem_of_ne_nil rs hlen
  rw [← file_of_recordsOf?_build h hs hrs hr, ← file_of_recordsOf?_build h hs' hrs' (hsame ▸ hr)]

lemma mem_planned_build (format : Format) {s : Source} (hs : s ∈ sources) (hr : s.records ≠ []) :
    (outputFile format s.path, s.records.map (Index.ofSources sources).resolveRecord) ∈
      planned format (Index.build sources).entries := by
  rw [planned_build h]
  exact List.mem_map.2 ⟨s, List.mem_filter.2 ⟨hs, by simpa using hr⟩, rfl⟩

lemma tfae_of_written {format : Format} {location : List String} {t after : FileTree}
    (hw : Written format location t after
      (lasting (planned format (Index.build sources).entries))) :
    [Set.InjOn outputName (documented sources),
      ∀ s ∈ sources, s.records ≠ [] → ∃ rs,
        (Index.build sources).recordsOf? s.path = some rs ∧
        after.node? (location ++ [outputFile format s.path]) =
          some (.file (format.render rs).toUTF8),
      ((lasting (planned format (Index.build sources).entries)).flatMap Prod.snd).Perm
        (Index.build sources).records].TFAE := by
  have hn := nodup_names_planned_iff h format
  tfae_have 1 → 2 := by
    intro hi s hs hr
    have hm := mem_planned_build h format hs hr
    rw [← lasting_eq_self (hn.2 hi)] at hm
    have hheld := hw.held _ hm
    exact ⟨_, Index.recordsOf?_build h hs, hheld⟩
  tfae_have 2 → 1 := injOn_outputName h
  tfae_have 3 ↔ 1 := by
    rw [← hn, Index.records, ← flatMap_planned format]
    exact perm_lasting_iff records_ne_nil_of_mem_planned
  tfae_finish

end Sources

section Harvest

variable {o : Options} {t : FileTree} {format : Format} {warnings : List Warning}
  {paths : List String}
  (hformat : Format.ofName o.format o.pretty = .ok format)
  (hpaths : Discovery.files t o.extensions o.inputs = (warnings, .ok paths))
include hformat hpaths

lemma harvest_eq_report (hne : paths ≠ []) :
    harvest o t = report o format t (warnings ++ (load t paths).1) (load t paths).2 := by
  obtain ⟨path, rest, rfl⟩ := List.exists_cons_of_ne_nil hne
  simp only [harvest, hformat, hpaths]

lemma paths_ne_nil (hf : (harvest o t).failure = none) : paths ≠ [] := by
  rintro rfl
  simp [harvest, hformat, hpaths, failed] at hf

/-- The records of all sources are in the files exactly if no two sources that have records share
the name of an output file. -/
theorem output_tfae {dir : String} (hs : ((load t paths).2.map Source.path).Nodup)
    (ho : o.output = some dir) (hf : (harvest o t).failure = none) :
    let sources := (load t paths).2
    let after := (harvest o t).tree
    ∃ location files,
      after.locate? dir = some location ∧ after.isDir location ∧
      Written format location t after files ∧ (files.map Prod.fst).Nodup ∧
      (∀ name, name ∈ files.map Prod.fst ↔
        ∃ path ∈ documented sources, outputFile format path = name) ∧
      (harvest { o with output := none } t).stdout =
        format.render (Index.build sources).records ∧
      [Set.InjOn outputName (documented sources),
        ∀ s ∈ sources, s.records ≠ [] → ∃ rs,
          (Index.build sources).recordsOf? s.path = some rs ∧
          after.node? (location ++ [outputFile format s.path]) =
            some (.file (format.render rs).toUTF8),
        (files.flatMap Prod.snd).Perm (Index.build sources).records].TFAE := by
  intro sources after
  have hne := paths_ne_nil hformat hpaths hf
  have hw := harvest_eq_report hformat hpaths hne
  have hp : harvest { o with output := none } t = report { o with output := none } format t
      (warnings ++ (load t paths).1) (load t paths).2 := harvest_eq_report hformat hpaths hne
  have hinto : writeInto format dir (Index.build sources) t = (after, none) := by
    rw [hw, report] at hf
    simp only [ho] at hf
    simp only [after, hw, report, ho, sources]
    exact Prod.ext rfl hf
  obtain ⟨location, hl, hd, hwritten⟩ := written_of_writeInto hinto
  refine ⟨location, _, hl, hd, hwritten, nodup_names_lasting, fun name => ?_, ?_, ?_⟩
  · rw [mem_names_lasting, mem_names_planned_build hs]
  · rw [hp]
    rfl
  · exact tfae_of_written hs hwritten

end Harvest

/-- A file under the working directory and one that is not, written into a directory that is not there yet. -/
theorem output_tfae_tabs :
    let t := (FileTree.empty.add "/srv/intro.ngdoc"
      (.file "@ngdoc overview\n@name Intro\n".toUTF8)).add
      "ui/tabs.js" (.file "/**\n * @ngdoc directive\n * @name tabs\n */\n".toUTF8)
    let paths := ["/srv/intro.ngdoc", "ui/tabs.js"]
    let o : Options := ⟨paths, some "/srv/out/api", "json", false, ["js", "ngdoc"], false⟩
    let format := Format.array false
    let sources := (load t paths).2
    let after := (harvest o t).tree
    Format.ofName o.format o.pretty = .ok format ∧
      Discovery.files t o.extensions o.inputs = ([], .ok paths) ∧
      (sources.map Source.path).Nodup ∧ o.output = some "/srv/out/api" ∧ (harvest o t).failure = none ∧
      ∃ location files, after.locate? "/srv/out/api" = some location ∧
        Written format location t after files ∧
        (files.flatMap Prod.snd).Perm (Index.build sources).records := by
  intro t paths o format sources after
  have hformat : Format.ofName o.format o.pretty = .ok format := rfl
  have hpaths : Discovery.files t o.extensions o.inputs = ([], .ok paths) :=
    Discovery.files_of_ascending (by decide +kernel) (by decide +kernel) (by decide +kernel)
  have hs : (sources.map Source.path).Nodup := by decide +kernel
  have hf : (harvest o t).failure = none := by
    rw [harvest_eq_report hformat hpaths (by decide)]
    decide +kernel
  have hnames : ∀ s ∈ sources, ∀ s' ∈ sources,
      outputName s.path = outputName s'.path → s.path = s'.path := by decide +kernel
  have hi : Set.InjOn outputName (documented sources) := by
    rintro _ ⟨s, hm, -, rfl⟩ _ ⟨s', hm', -, rfl⟩ he
    exact hnames s hm s' hm' he
  obtain ⟨location, files, hl, -, hw, -, -, -, htfae⟩ :=
    output_tfae hformat hpaths hs rfl hf
  exact ⟨hformat, hpaths, hs, rfl, hf, location, files, hl, hw, (htfae.out 0 2).1 hi⟩

/-- The name of an output file keeps neither the place where a path starts nor the extension. -/
example : outputName "/ui/tabs.js" = outputName "./ui/tabs.ngdoc" := by
  decide +kernel

/-- A script and a document of one name. -/
theorem lost_of_same_name :
    let t := (FileTree.empty.add "tabs.js"
      (.file "/**\n * @ngdoc directive\n * @name tabs\n */\n".toUTF8)).add
      "tabs.ngdoc" (.file "@ngdoc overview\n@name Tabs\n".toUTF8)
    let paths := ["tabs.js", "tabs.ngdoc"]
    let o : Options := ⟨paths, some "out", "json", false, ["js", "ngdoc"], false⟩
    let format := Format.array false
    let r : Record := { Record.blank (some "directive") with
      name := "tabs", parent := some ⟨none, none⟩, file := "tabs.js" }
    let r' : Record := { Record.blank (some "overview") with
      name := "Tabs", parent := some ⟨none, none⟩, file := "tabs.ngdoc" }
    Discovery.files t o.extensions o.inputs = ([], .ok paths) ∧
      (load t paths).2.map Source.path = paths ∧ (harvest o t).failure = none ∧
      (harvest { o with output := none } t).stdout = format.render [r, r'] ∧
      (harvest o t).tree.entries = t.entries ++
        [(["work", "out"], .dir), (["work", "out", "tabs.json"], .file (format.render [r']).toUTF8)] ∧
      ¬[r'].Perm [r, r'] := by
  intro t paths o format r r'
  have hformat : Format.ofName o.format o.pretty = .ok format := rfl
  have hpaths : Discovery.files t o.extensions o.inputs = ([], .ok paths) :=
    Discovery.files_of_ascending (by decide +kernel) (by decide +kernel) (by decide +kernel)
  have hw := harvest_eq_report hformat hpaths (by decide)
  have hp : harvest { o with output := none } t = report { o with output := none } format t
      ([] ++ (load t paths).1) (load t paths).2 := harvest_eq_report hformat hpaths (by decide)
  have hr : (Index.build (load t paths).2).records = [r, r'] := by decide +kernel
  rw [hw, hp]
  refine ⟨hpaths, by decide +kernel, by decide +kernel, ?_, by decide +kernel,
    fun h => by simpa using h.length_eq⟩
  rw [report, hr]

end Command

end DocHarvest
