import DocHarvest.Command
import DocHarvest.Proofs.Command.Discovery
import DocHarvest.Proofs.Glob
import DocHarvest.Proofs.Index.Stability

/-! Files that a run reads twice. Doubled slashes and inner dots make no difference to a path, but the place
it starts from does: a file that is named with a leading dot and found without it is read and printed once for
each. -/

namespace DocHarvest

namespace Source

lemma blocks_congr {s s' : Source} (he : s.extension = s'.extension) (hc : s.content = s'.content) :
    s.blocks = s'.blocks := by
  rw [blocks, blocks, layout, layout, he, hc]

lemma length_records_congr {s s' : Source} (he : s.extension = s'.extension)
    (hc : s.content = s'.content) : s.records.length = s'.records.length := by
  have hlength : ∀ s : Source, s.records.length = (s.blocks.filterMap (Record.ofBlock? · none)).length := by
    intro s
    rw [records, records?]
    split
    · next hb => rw [hb]; rfl
    · rw [Option.getD_some, ← List.map_filterMap, List.length_map]
  rw [hlength, hlength, blocks_congr he hc]

end Source

namespace Command

variable {t : FileTree} {p q : String} {paths : List String}

/-- The records that a run over these files prints. -/
def printed (t : FileTree) (paths : List String) : List Record :=
  (Index.build (load t paths).2).records

lemma sources_load_cons (t : FileTree) (path : String) (paths : List String) :
    (load t (path :: paths)).2 = (load t [path]).2 ++ (load t paths).2 := by
  rw [load, load]
  split <;> rfl

lemma sources_load_singleton (t : FileTree) (path : String) :
    (load t [path]).2 = (((t.read? path).bind String.fromUTF8?).map fun content =>
      (⟨path, Path.extension path, content⟩ : Source)).toList := by
  rw [load]
  split
  · next h =>
    rw [h]
    rfl
  · next h =>
    rw [h]
    rfl

lemma map_path_load_sublist (t : FileTree) (paths : List String) :
    ((load t paths).2.map Source.path).Sublist paths := by
  induction paths with
  | nil => exact .slnil
  | cons path paths ih =>
    rw [load]
    split
    · exact ih.cons_cons path
    · exact ih.cons path

lemma length_printed_eq_sum_records (h : paths.Nodup) :
    (printed t paths).length = ((load t paths).2.map fun s => s.records.length).sum := by
  rw [printed, Index.records, Index.entries_build ((map_path_load_sublist t paths).nodup h),
    List.length_flatMap, List.map_map]
  simp [Function.comp_def]

lemma length_printed (h : paths.Nodup) :
    (printed t paths).length = (paths.map fun p => (printed t [p]).length).sum := by
  rw [length_printed_eq_sum_records h]
  induction paths with
  | nil => rfl
  | cons path paths ih =>
    rw [sources_load_cons, List.map_append, List.sum_append, ih h.of_cons, List.map_cons, List.sum_cons,
      length_printed_eq_sum_records (List.nodup_singleton path)]

lemma length_printed_congr (hp : t.isFileAt p) (hq : t.isFileAt q) (h : Path.steps p = Path.steps q) :
    (printed t [p]).length = (printed t [q]).length := by
  have hread : t.read? p = t.read? q := by
    rw [FileTree.read?, FileTree.read?, FileTree.locate?_of_isFileAt hp, FileTree.locate?_of_isFileAt hq, h]
  have hext : Path.extension p = Path.extension q := by
    rw [Path.extension, Path.extension, Path.fileName, Path.fileName, h]
  rw [length_printed_eq_sum_records (List.nodup_singleton p),
    length_printed_eq_sum_records (List.nodup_singleton q), sources_load_singleton,
    sources_load_singleton, hread]
  cases (t.read? q).bind String.fromUTF8? with
  | none => rfl
  | some content => exact congrArg (· + 0) (Source.length_records_congr hext rfl)

lemma exists_length_printed (t : FileTree) :
    ∃ count : List Path.Step → Nat, ∀ p, t.isFileAt p → (printed t [p]).length = count (Path.steps p) := by
  have hfactors : Function.FactorsThrough (fun p : {p // t.isFileAt p} => (printed t [p.1]).length)
      fun p => Path.steps p.1 := fun p q h => length_printed_congr p.2 q.2 h
  obtain ⟨count, hcount⟩ := (Function.factorsThrough_iff _).1 hfactors
  exact ⟨count, fun p hp => congrFun hcount ⟨p, hp⟩⟩

end Command

open DocHarvest.Path (Step steps settle)

namespace Discovery

variable {t : FileTree} {extensions operands paths : List String} {o p : String}

/-- The patterns with which the files of an operand are searched, if it does not name a file. -/
def searched (t : FileTree) (extensions : List String) (operand : String) : List String :=
  if t.isFileAt operand then []
  else if t.isDirAt operand then extensions.map (patternBelow operand)
  else [operand]

/-- The operand is relative, and neither it nor a pattern that is searched for it has a piece that leads up. -/
structure LeadsDown (t : FileTree) (extensions : List String) (operand : String) : Prop where
  relative : ¬Path.isAbsolute operand
  typed : Step.up ∉ steps operand
  patterns : ∀ pattern ∈ searched t extensions operand, ∀ piece ∈ Path.pieces pattern, ¬Glob.leadsUp piece

lemma not_isAbsolute_patternBelow (h : o ≠ "") (hr : ¬Path.isAbsolute o) (ext : String) :
    ¬Path.isAbsolute (patternBelow o ext) := by
  obtain ⟨c, s, hs⟩ := List.exists_cons_of_ne_nil (mt String.toList_eq_nil_iff.1 h)
  have hc : ¬(c == '/') := by
    rwa [Path.isAbsolute, hs] at hr
  obtain ⟨trimmed, ht⟩ : ∃ trimmed, (s.reverse ++ [c]).dropWhile (· == '/') = trimmed ++ [c] := by
    rw [List.dropWhile_append, List.dropWhile_cons_of_neg (p := (· == '/')) hc]
    split
    · exact ⟨[], rfl⟩
    · exact ⟨_, rfl⟩
  have hne : String.ofList (c :: trimmed.reverse) ≠ "" := by simp [← String.toList_eq_nil_iff]
  rw [patternBelow, hs, List.reverse_cons, ht, List.reverse_append, List.reverse_singleton,
    List.singleton_append, String.append_assoc, Path.isAbsolute_append hne, Path.isAbsolute,
    String.toList_ofList]
  exact hc

lemma LeadsDown.relative_patterns (h : LeadsDown t extensions o) :
    ∀ pattern ∈ searched t extensions o, ¬Path.isAbsolute pattern := by
  rw [searched]
  intro pattern hp
  split_ifs at hp with hf hd
  · cases hp
  · obtain ⟨ext, -, rfl⟩ := List.mem_map.1 hp
    refine not_isAbsolute_patternBelow ?_ h.relative ext
    rintro rfl
    cases hd
  · rw [List.mem_singleton.1 hp]
    exact h.relative

/-- The files of an operand; none if it does not expand. -/
def filesFor (t : FileTree) (extensions : List String) (operand : String) : List String :=
  (expand t extensions operand).toOption.getD []

lemma exists_of_map_eq_ok {α β : Type} {f : α → β} {x : Except Failure α} {b : β}
    (h : x.map f = .ok b) : ∃ a, x = .ok a ∧ f a = b := by
  cases x with
  | error failure => cases h
  | ok a => exact ⟨a, rfl, Except.ok.inj h⟩

lemma finds_of_expandAll {found : List String} (h : (expandAll t extensions operands).2 = .ok found) :
    Finds t extensions (filesFor t extensions) operands := by
  induction operands generalizing found with
  | nil => exact List.forall_mem_nil _
  | cons o os ih =>
    rw [expandAll] at h
    split at h
    · cases h
    · next fs he =>
      obtain ⟨rest, hrest, -⟩ := exists_of_map_eq_ok h
      exact List.forall_mem_cons.2 ⟨by rw [filesFor, he]; rfl, ih hrest⟩

lemma mem_files?_of_mem_findAll {patterns found : List String} (h : findAll t patterns = .ok found)
    (hp : p ∈ found) : ∃ pattern ∈ patterns, ∃ fs, Glob.files? t pattern = some fs ∧ p ∈ fs := by
  induction patterns generalizing found with
  | nil =>
    cases h
    cases hp
  | cons pattern patterns ih =>
    rw [findAll] at h
    split at h
    · cases h
    · next fs hfs =>
      obtain ⟨rest, hrest, rfl⟩ := exists_of_map_eq_ok h
      rcases List.mem_append.1 hp with hp | hp
      · exact ⟨pattern, List.mem_cons_self, fs, hfs, hp⟩
      · obtain ⟨pattern', hmem, hfound⟩ := ih hrest hp
        exact ⟨pattern', List.mem_cons_of_mem pattern hmem, hfound⟩

lemma expand_of_isFileAt (h : t.isFileAt o) : expand t extensions o = .ok [o] := by
  rw [expand, if_pos h]

lemma mem_expand_cases {found : List String} (h : expand t extensions o = .ok found) (hp : p ∈ found) :
    (t.isFileAt o ∧ p = o) ∨
      ∃ pattern ∈ searched t extensions o, ∃ fs, Glob.files? t pattern = some fs ∧ p ∈ fs := by
  rw [expand] at h
  rw [searched]
  split at h
  · next ho =>
    cases h
    exact .inl ⟨ho, List.mem_singleton.1 hp⟩
  · next ho =>
    right
    rw [if_neg ho]
    split at h
    · next hd =>
      rw [if_pos hd]
      exact mem_files?_of_mem_findAll h hp
    · next hd =>
      rw [if_neg hd]
      exact mem_files?_of_mem_findAll h hp

lemma filesFor_of_isFileAt (h : t.isFileAt o) : filesFor t extensions o = [o] := by
  rw [filesFor, expand_of_isFileAt h]
  rfl

section Files

variable (h : (files t extensions operands).2 = .ok paths)
include h

lemma finds_of_files : Finds t extensions (filesFor t extensions) operands := by
  obtain ⟨found, hfound, -⟩ := exists_of_map_eq_ok h
  exact finds_of_expandAll hfound

lemma eq_sorted_of_files : paths = Path.sorted (operands.flatMap (filesFor t extensions)) := by
  rw [files_of_finds (finds_of_files h)] at h
  exact (Except.ok.inj h).symm

lemma nodup_steps_of_files : (paths.map steps).Nodup := by
  rw [eq_sorted_of_files h]
  exact Path.nodup_steps_sorted _

lemma map_steps_eq_of_files {operands' paths' : List String}
    (h' : (files t extensions operands').2 = .ok paths')
    (hmem : ∀ ss, ss ∈ paths.map steps ↔ ss ∈ paths'.map steps) :
    paths.map steps = paths'.map steps := by
  rw [eq_sorted_of_files h, eq_sorted_of_files h'] at hmem ⊢
  exact Path.map_steps_sorted_congr fun ss => by
    rw [← Path.mem_map_steps_sorted, hmem, Path.mem_map_steps_sorted]

lemma steps_mem_of_isFileAt (ho : o ∈ operands) (hfile : t.isFileAt o) : steps o ∈ paths.map steps := by
  rw [eq_sorted_of_files h, Path.mem_map_steps_sorted]
  apply List.mem_map_of_mem
  rw [List.mem_flatMap]
  exact ⟨o, ho, by rw [filesFor_of_isFileAt hfile]; exact List.mem_singleton_self o⟩

lemma exists_operand (hp : p ∈ paths) :
    ∃ o ∈ operands, (t.isFileAt o ∧ p = o) ∨
      ∃ pattern ∈ searched t extensions o, ∃ fs, Glob.files? t pattern = some fs ∧ p ∈ fs := by
  rw [eq_sorted_of_files h, Path.mem_sorted_iff] at hp
  obtain ⟨o, ho, hpo⟩ := List.mem_flatMap.1 (List.mem_of_find?_eq_some hp)
  exact ⟨o, ho, mem_expand_cases (finds_of_files h o ho) hpo⟩

lemma isFileAt_of_mem_files (hp : p ∈ paths) : t.isFileAt p := by
  obtain ⟨o, -, ⟨ho, rfl⟩ | ⟨pattern, -, fs, hfs, hp⟩⟩ := exists_operand h hp
  · exact ho
  · exact Glob.isFileAt_of_mem_files? hfs hp

/-- Only a path as it was typed can have a leading dot. -/
lemma steps_cases_of_mem_files (ht : t.Named) (hdown : ∀ o ∈ operands, LeadsDown t extensions o)
    (hp : p ∈ paths) : ∃ names : List String,
      steps p = names.map .down ∨ p ∈ operands ∧ steps p = .here :: names.map .down := by
  obtain ⟨o, ho, ⟨-, rfl⟩ | ⟨pattern, hpattern, fs, hfs, hmem⟩⟩ := exists_operand h hp
  · obtain ⟨names, hs⟩ := Path.steps_of_up_notMem (hdown p ho).relative (hdown p ho).typed
    exact ⟨names, hs.imp_right fun hs => ⟨ho, hs⟩⟩
  · rcases Glob.descends_of_mem_files? ht hfs ((hdown o ho).relative_patterns pattern hpattern)
      ((hdown o ho).patterns pattern hpattern) p hmem with hs | ⟨names, hs⟩
    · exact (FileTree.not_isFileAt_of_steps_here hs (isFileAt_of_mem_files h hp)).elim
    · exact ⟨names, .inl hs⟩

lemma nodup_locations_iff_settle :
    (paths.map t.locate?).Nodup ↔ ∀ p ∈ paths, ∀ q ∈ paths,
      settle t.workingDir (steps p) = settle t.workingDir (steps q) → steps p = steps q := by
  rw [List.nodup_map_iff_inj_on (nodup_steps_of_files h).of_map]
  refine forall₄_congr fun p hp q hq => ?_
  rw [FileTree.locate?_of_isFileAt (isFileAt_of_mem_files h hp),
    FileTree.locate?_of_isFileAt (isFileAt_of_mem_files h hq), Option.some_inj]
  have hinj := List.inj_on_of_nodup_map (nodup_steps_of_files h) hp hq
  exact imp_congr_right fun _ => ⟨congrArg steps, @hinj⟩

lemma nodup_locations_iff_of_leadsDown (ht : t.Named) (hdown : ∀ o ∈ operands, LeadsDown t extensions o) :
    (paths.map t.locate?).Nodup ↔
      ∀ o ∈ operands, t.isFileAt o → ∀ ss, steps o = .here :: ss → ss ∉ paths.map steps := by
  rw [nodup_locations_iff_settle h]
  constructor
  · intro hinj o ho hfile ss hs hmem
    obtain ⟨p, hp, hpo⟩ := List.mem_map.1 (steps_mem_of_isFileAt h ho hfile)
    obtain ⟨q, hq, rfl⟩ := List.mem_map.1 hmem
    have heq := hinj p hp q hq (by rw [hpo, hs, Path.settle_here])
    rw [hpo, hs] at heq
    exact List.cons_ne_self _ _ heq
  · intro hnone p hp q hq hsame
    have hdot : ∀ p ∈ paths, ∀ q ∈ paths, ∀ names : List String, p ∈ operands →
        steps p = .here :: names.map .down → steps q ≠ names.map .down := by
      intro p hp q hq names ho hs hs'
      refine hnone p ho (isFileAt_of_mem_files h hp) _ hs ?_
      rw [← hs']
      exact List.mem_map_of_mem hq
    obtain ⟨names, hp'⟩ := steps_cases_of_mem_files h ht hdown hp
    obtain ⟨names', hq'⟩ := steps_cases_of_mem_files h ht hdown hq
    rcases hp' with hs | ⟨ho, hs⟩ <;> rcases hq' with hs' | ⟨ho', hs'⟩ <;>
      (rw [hs, hs'] at hsame
       obtain rfl : names = names' := by simpa [Path.settle_here, Path.settle_map_down] using hsame)
    · rw [hs, hs']
    · exact (hdot q hq p hp names ho' hs' hs).elim
    · exact (hdot p hp q hq names ho hs hs').elim
    · rw [hs, hs']

lemma sum_count_eq_length_printed {count : List Step → Nat}
    (hcount : ∀ p, t.isFileAt p → (Command.printed t [p]).length = count (steps p)) :
    (Command.printed t paths).length = ((paths.map steps).map count).sum := by
  rw [Command.length_printed (nodup_steps_of_files h).of_map, List.map_map]
  congr 1
  exact List.map_congr_left fun p hp => hcount p (isFileAt_of_mem_files h hp)

lemma files_insert {before after : List String} (hsplit : operands = before ++ after) (ho : t.isFileAt o) :
    ∃ paths', (files t extensions (before ++ o :: after)).2 = .ok paths' ∧
      (∀ ss, ss ∈ paths'.map steps ↔ ss = steps o ∨ ss ∈ paths.map steps) ∧
      (after = [] → steps o ∈ paths.map steps → paths' = paths) := by
  have hfinds : Finds t extensions (filesFor t extensions) (before ++ o :: after) := by
    have hold := finds_of_files h
    rw [hsplit] at hold
    intro x hx
    rw [List.mem_append, List.mem_cons] at hx
    rcases hx with hx | rfl | hx
    · exact hold x (List.mem_append_left after hx)
    · rw [filesFor_of_isFileAt ho, expand_of_isFileAt ho]
    · exact hold x (List.mem_append_right before hx)
  refine ⟨_, files_of_finds hfinds, fun ss => ?_, fun hlast hmem => ?_⟩
  · rw [eq_sorted_of_files h, Path.mem_map_steps_sorted, Path.mem_map_steps_sorted, hsplit,
      List.flatMap_append, List.flatMap_append, List.flatMap_cons, filesFor_of_isFileAt ho]
    simp only [List.map_append, List.mem_append, List.map_singleton, List.mem_singleton]
    exact or_left_comm
  · rw [eq_sorted_of_files h, Path.mem_map_steps_sorted, Path.mem_map_steps_iff] at hmem
    rw [eq_sorted_of_files h]
    subst hsplit hlast
    -- Of several spellings the first stays, and `o` stands last.
    refine Path.sorted_congr fun ss => ?_
    rw [List.append_nil, List.flatMap_append, List.flatMap_singleton, filesFor_of_isFileAt ho,
      List.find?_append, List.find?_singleton]
    by_cases hs : steps o = ss
    · subst hs
      rw [List.append_nil] at hmem
      exact Option.or_of_isSome hmem
    · simp [hs]

/-- No file is read twice exactly if paths that lead to one place have the same steps. Where all is relative
and nothing leads up, that fails only for a file that is typed with a leading dot and found without it as
well. A file that is named again adds its records once more exactly if its steps are new. -/
theorem nodup_locations_iff :
    (∀ p ∈ paths, t.isFileAt p) ∧
    ((paths.map t.locate?).Nodup ↔
      ∀ p ∈ paths, ∀ q ∈ paths,
        settle t.workingDir (steps p) = settle t.workingDir (steps q) → steps p = steps q) ∧
    (t.Named → (∀ o ∈ operands, LeadsDown t extensions o) →
      ((paths.map t.locate?).Nodup ↔
        ∀ o ∈ operands, t.isFileAt o → ∀ ss, steps o = .here :: ss → ss ∉ paths.map steps)) ∧
    ∀ o before after, operands = before ++ after → t.isFileAt o →
      ∃ paths', (files t extensions (before ++ o :: after)).2 = .ok paths' ∧
        (paths'.map steps = paths.map steps ↔ steps o ∈ paths.map steps) ∧
        (after = [] → steps o ∈ paths.map steps → paths' = paths) ∧
        (Command.printed t paths').length = (Command.printed t paths).length +
          if steps o ∈ paths.map steps then 0 else (Command.printed t [o]).length := by
  refine ⟨fun p => isFileAt_of_mem_files h, nodup_locations_iff_settle h,
    nodup_locations_iff_of_leadsDown h, fun o before after hsplit ho => ?_⟩
  obtain ⟨paths', h', hmem, hlast⟩ := files_insert h hsplit ho
  -- A file named further up can change how a path is spelled, so the records are counted by steps.
  obtain ⟨count, hcount⟩ := Command.exists_length_printed t
  have hsame : steps o ∈ paths.map steps → paths'.map steps = paths.map steps := fun hin =>
    map_steps_eq_of_files h' h fun ss => by rw [hmem, or_iff_right_of_imp (· ▸ hin)]
  refine ⟨paths', h', ⟨fun he => ?_, hsame⟩, hlast, ?_⟩
  · rw [← he, hmem]
    exact .inl rfl
  · rw [sum_count_eq_length_printed h hcount, sum_count_eq_length_printed h' hcount, hcount o ho]
    split
    · next hin => rw [hsame hin, Nat.add_zero]
    · next hnew =>
      have hperm : (paths'.map steps).Perm (steps o :: paths.map steps) := by
        have hnodup := List.nodup_cons.2 ⟨hnew, nodup_steps_of_files h⟩
        refine (List.perm_ext_iff_of_nodup (nodup_steps_of_files h') hnodup).2 fun ss => ?_
        rw [hmem, List.mem_cons]
      rw [(hperm.map count).sum_nat, List.map_cons, List.sum_cons, Nat.add_comm]

end Files

/-- One file, found in a directory and named again, with a doubled slash and with a leading dot. -/
theorem nodup_locations_iff_lib :
    let t := FileTree.empty.add "lib/m.js" (.file "/**\n * @ngdoc service\n * @name store\n */".toUTF8)
    (files t ["js"] ["lib"]).2 = .ok ["lib/m.js"] ∧
      t.Named ∧ LeadsDown t ["js"] "lib" ∧ (["lib/m.js"].map t.locate?).Nodup ∧
      (∃ paths, (files t ["js"] ["lib//m.js", "lib"]).2 = .ok paths ∧
        (Command.printed t paths).length = 1) ∧
      ∃ paths, (files t ["js"] ["lib", "./lib/m.js"]).2 = .ok paths ∧
        (Command.printed t paths).length = 2 := by
  intro t
  have h : (files t ["js"] ["lib"]).2 = .ok ["lib/m.js"] := by
    have hfiles : files t ["js"] ["lib"] = ([], .ok ["lib/m.js"]) :=
      files_of_ascending (by decide +kernel) (by decide) rfl
    rw [hfiles]
  have ht : t.Named := FileTree.named_empty.add FileTree.isName_work (by decide)
  have hdown : LeadsDown t ["js"] "lib" := ⟨by decide, by decide, by decide +kernel⟩
  obtain ⟨-, -, hiff, hagain⟩ := nodup_locations_iff h
  refine ⟨h, ht, hdown, ?_, ?_, ?_⟩
  · rw [hiff ht (by simpa using hdown)]
    intro o ho hfile
    rw [List.mem_singleton] at ho
    subst ho
    cases (show t.isFileAt "lib" = false by decide +kernel).symm.trans hfile
  · obtain ⟨paths, hfiles, -, -, hlength⟩ := hagain "lib//m.js" [] ["lib"] rfl (by decide +kernel)
    refine ⟨paths, hfiles, hlength.trans ?_⟩
    decide +kernel
  · obtain ⟨paths, hfiles, -, -, hlength⟩ := hagain "./lib/m.js" ["lib"] [] rfl (by decide +kernel)
    refine ⟨paths, hfiles, hlength.trans ?_⟩
    decide +kernel

/-- A file that is typed with a leading dot and without. -/
theorem twice_of_leading_dot :
    let t := FileTree.empty.add "lib/m.js" (.file "/**\n * @ngdoc service\n * @name store\n */\n".toUTF8)
    let paths := ["./lib/m.js", "lib/m.js"]
    let r : Record := { Record.blank (some "service") with
      name := "store", parent := some ⟨none, none⟩ }
    files t ["js", "ngdoc"] paths = ([], .ok paths) ∧
      t.locate? "./lib/m.js" = t.locate? "lib/m.js" ∧ ¬(paths.map t.locate?).Nodup ∧
      files t ["js", "ngdoc"] ["./lib/m.js"] = ([], .ok ["./lib/m.js"]) ∧
      Command.printed t ["./lib/m.js"] = [{ r with file := "./lib/m.js" }] ∧
      Command.printed t paths = [{ r with file := "./lib/m.js" }, { r with file := "lib/m.js" }] := by
  intro t paths r
  refine ⟨files_of_ascending (by decide +kernel) (by decide +kernel) (by decide +kernel),
    by decide +kernel, by decide +kernel,
    files_of_ascending (by decide +kernel) (by decide +kernel) (by decide +kernel),
    by decide +kernel, by decide +kernel⟩

end Discovery

end DocHarvest
