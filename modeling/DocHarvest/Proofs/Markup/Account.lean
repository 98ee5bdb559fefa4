import DocHarvest.Proofs.Markup.Assembly
import DocHarvest.Proofs.Markup.Partition

/-! What the segments of a text make of its events, where nothing is opened inside a file but
elements that are written back: every file and every example is kept, in order, and so is all text
but the blank runs before files. -/

namespace DocHarvest.Markup

open Text

namespace Event

/-- For each element that is opened under one of the names, its attributes and the events that
follow. -/
def openings (names : String → Bool) : List Event → List (List Attribute × List Event)
  | [] => []
  | opened name attributes :: es =>
    if names name then (attributes, es) :: openings names es else openings names es
  | _ :: es => openings names es

/-- The file that an opening stands for. Its content is what is written back up to its own end. -/
def IsFile (o : List Attribute × List Event) (f : ExampleFile) : Prop :=
  ∃ inner after, o.2 = inner ++ closed "file" :: after ∧ Nested inner ∧
    f = ⟨(Attribute.lookup o.1 "name").getD "", writeAll inner, Attribute.lookup o.1 "src"⟩

/-- Each example that is opened is one of the examples, in order, and the others only hold files that
stand outside any. -/
inductive Accounted : List (List Attribute × List Event) → List Example → Prop
  | nil : Accounted [] []
  | own {o : List Attribute × List Event} {os : List (List Attribute × List Event)} {e : Example}
      {es : List Example} : e.module = Attribute.lookup o.1 "module" →
      e.deps = Attribute.lookup o.1 "deps" → Accounted os es → Accounted (o :: os) (e :: es)
  | holder {os : List (List Attribute × List Event)} {e : Example} {es : List Example} :
      e.module = none → e.deps = none → e.files ≠ [] → Accounted os es → Accounted os (e :: es)

section Openings

variable {names : String → Bool}

lemma openings_of_not_isMark (hn : ∀ name, names name → isMarkName name) {e : Event}
    (h : ¬e.isMark) (es : List Event) : openings names (e :: es) = openings names es := by
  cases e with
  | opened name attributes => rw [openings, if_neg fun hname => h (hn name hname)]
  | closed name => rfl
  | text content => rfl

lemma openings_append (hn : ∀ name, names name → isMarkName name) {inner : List Event}
    (h : ∀ e ∈ inner, ¬e.isMark) (es : List Event) :
    openings names (inner ++ es) = openings names es := by
  induction inner with
  | nil => rfl
  | cons e inner ih =>
    rw [List.forall_mem_cons] at h
    rw [List.cons_append, openings_of_not_isMark hn h.1, ih h.2]

lemma isMarkName_of_file (name : String) (h : name == "file") : isMarkName name := by
  rw [isMarkName, h, Bool.or_true]

lemma isMarkName_of_example (name : String) (h : isExampleName name) : isMarkName name := by
  rw [isMarkName, h, Bool.true_or]

end Openings

/-- The example that is held gets some more files, and the others come after it. -/
lemma Flat.examples_finish {stack : List String} {es : List Event} (h : Flat stack es)
    (done : List Segment) (run : Option String) (held : Option Example) :
    ∃ more xs, (held = none → more = []) ∧ Accounted (openings isExampleName es) xs ∧
      List.Forall₂ IsFile (openings (· == "file") es) (more ++ xs.flatMap Example.files) ∧
      Segment.examples (es.foldl Assembly.step ⟨done, run, held, none⟩).finish =
        Segment.examples done ++
          held.toList.map (fun e => { e with files := e.files ++ more }) ++ xs := by
  induction h generalizing done run held with
  | nil =>
    refine ⟨[], [], fun _ => rfl, .nil, .nil, ?_⟩
    simp [Assembly.finish_eq]
  | plain hm _ _ ih =>
    obtain ⟨more, xs, hmore, hx, hf, he⟩ := ih done _ held
    refine ⟨more, xs, hmore, ?_, ?_, ?_⟩
    · rwa [openings_of_not_isMark isMarkName_of_example hm]
    · rwa [openings_of_not_isMark isMarkName_of_file hm]
    · rw [List.foldl_cons, Assembly.step_plain _ _ _ hm, he]
  | exampleStart attributes hn _ ih =>
    obtain ⟨more, xs, -, hx, hf, he⟩ := ih (done ++ Assembly.ofHeld held ++ Assembly.ofRun run) none
      (some (Assembly.exampleOf attributes))
    refine ⟨[], { Assembly.exampleOf attributes with files := more } :: xs, fun _ => rfl, ?_, ?_, ?_⟩
    · rw [openings, if_pos hn]
      exact .own rfl rfl hx
    · rw [openings, if_neg]
      · exact hf
      · simpa using ne_file_of_isExampleName hn
    · rw [List.foldl_cons, Assembly.step_exampleStart _ _ _ hn, he]
      simp [Assembly.exampleOf]
  | exampleEnd hn _ ih =>
    obtain ⟨more, xs, hmore, hx, hf, he⟩ :=
      ih (done ++ Assembly.ofRun run ++ Assembly.ofHeld held) none none
    rw [hmore rfl] at hf
    refine ⟨[], xs, fun _ => rfl, hx, hf, ?_⟩
    rw [List.foldl_cons, Assembly.step_exampleEnd _ _ _ hn, he]
    simp
  | @file stack inner es attributes hi hm _ ih =>
    have hfile : IsFile (attributes, inner ++ closed "file" :: es)
        (Assembly.fileWith attributes inner) :=
      ⟨inner, es, rfl, hi, rfl⟩
    have hopen : openings isExampleName (opened "file" attributes :: (inner ++ closed "file" :: es)) =
        openings isExampleName es := by
      rw [openings, if_neg not_isExampleName_file, openings_append isMarkName_of_example hm]
      rfl
    have hfiles : openings (· == "file") (opened "file" attributes :: (inner ++ closed "file" :: es)) =
        (attributes, inner ++ closed "file" :: es) :: openings (· == "file") es := by
      rw [openings, if_pos (by rfl), openings_append isMarkName_of_file hm]
      rfl
    rw [hopen, hfiles, Assembly.foldl_file _ _ _ hm]
    obtain ⟨more, xs, -, hx, hf, he⟩ := ih (done ++ Assembly.beforeFile run) none
      (some (Assembly.hold held (Assembly.fileWith attributes inner)))
    rw [he]
    cases held with
    | some e =>
      refine ⟨Assembly.fileWith attributes inner :: more, xs, ?_, hx,
        .cons hfile hf, ?_⟩
      · rintro ⟨⟩
      · simp [Assembly.hold]
    | none =>
      refine ⟨[], { Assembly.exampleOf [] with
        files := Assembly.fileWith attributes inner :: more } :: xs,
        fun _ => rfl, .holder rfl rfl (List.cons_ne_nil _ _) hx, .cons hfile hf, ?_⟩
      simp [Assembly.hold, Assembly.exampleOf]

/-- A longest run of events that are no marks, with what precedes it and what follows. -/
structure Run where
  before : List Event
  content : List Event
  after : List Event

/-- The runs of some events, where `content` is the part of the first that has been passed. -/
def runsFrom (before content : List Event) : List Event → List Run
  | [] => [⟨before, content, []⟩]
  | e :: es =>
    if e.isMark then ⟨before, content, e :: es⟩ :: runsFrom (before ++ content ++ [e]) [] es
    else runsFrom before (content ++ [e]) es

def runs (es : List Event) : List Run :=
  runsFrom [] [] es

namespace Run

def written (r : Run) : String :=
  writeAll r.content

/-- A file is open where the run starts. -/
def inFile (r : Run) : Bool :=
  (leave? [] r.before).any (·.contains "file")

def opensFile (r : Run) : Bool :=
  match r.after with
  | opened name _ :: _ => name == "file"
  | _ => false

/-- A run outside files is kept, unless it is blank and a file follows. -/
def isKept (r : Run) : Bool :=
  !r.inFile && !(r.written.toList.all isBlank && r.opensFile)

end Run

lemma runsFrom_append {inner : List Event} (h : ∀ e ∈ inner, ¬e.isMark)
    (before content : List Event) (es : List Event) :
    runsFrom before content (inner ++ es) = runsFrom before (content ++ inner) es := by
  induction inner generalizing content with
  | nil => rw [List.nil_append, List.append_nil]
  | cons e inner ih =>
    rw [List.forall_mem_cons] at h
    rw [List.cons_append, runsFrom, if_neg h.1, ih h.2, List.append_assoc, List.singleton_append]

/-- The text that is under way when the events of a run have been read. -/
def pending (content : List Event) : Option String :=
  if content.isEmpty then none else some (writeAll content)

lemma pending_append (content : List Event) (e : Event) :
    pending (content ++ [e]) = some ((pending content).getD "" ++ e.written) := by
  cases content with
  | nil => simp [pending]
  | cons x content => simp [pending, String.append_assoc]

lemma writeAll_ne_empty {content : List Event} (hw : ∀ e ∈ content, e.written ≠ "")
    (hne : content ≠ []) : writeAll content ≠ "" := by
  cases content with
  | nil => exact (hne rfl).elim
  | cons e content =>
    rw [writeAll_cons]
    intro h
    exact hw e List.mem_cons_self (String.append_eq_empty_iff.1 h).1

lemma toList_pending {content : List Event} (hw : ∀ e ∈ content, e.written ≠ "") :
    (pending content).toList = [writeAll content].filter (· ≠ "") := by
  by_cases h : content = []
  · subst h
    rfl
  · have hne := writeAll_ne_empty hw h
    simp [pending, h, hne]

lemma texts_ofRun_pending {content : List Event} (hw : ∀ e ∈ content, e.written ≠ "") :
    Segment.texts (Assembly.ofRun (pending content)) = [writeAll content].filter (· ≠ "") := by
  rw [Segment.texts_ofRun, toList_pending hw, List.filter_filter]
  simp

lemma texts_beforeFile_pending {content : List Event} (hw : ∀ e ∈ content, e.written ≠ "") :
    Segment.texts (Assembly.beforeFile (pending content)) =
      if (writeAll content).toList.all isBlank then [] else [writeAll content].filter (· ≠ "") := by
  rw [Assembly.beforeFile]
  by_cases h : content = []
  · subst h
    rfl
  · have hp : pending content = some (writeAll content) := if_neg (by simpa using h)
    by_cases hb : (writeAll content).toList.all isBlank
    · rw [hp, Option.any_some, hb, if_pos rfl]
      rfl
    · rw [← texts_ofRun_pending hw, hp, Option.any_some, if_neg hb, if_pos]
      simpa using hb

lemma Run.isKept_of_opensFile {r : Run} (h : r.opensFile = false) (hf : r.inFile = false) :
    r.isKept := by
  rw [isKept, hf, h, Bool.and_false]
  rfl

def keptTexts (rs : List Run) : List String :=
  ((rs.filter Run.isKept).map Run.written).filter (· ≠ "")

lemma keptTexts_nil : keptTexts [] = [] := rfl

lemma keptTexts_cons_of_isKept {r : Run} (h : r.isKept) (rs : List Run) :
    keptTexts (r :: rs) = [r.written].filter (· ≠ "") ++ keptTexts rs := by
  rw [keptTexts, List.filter_cons_of_pos h, List.map_cons, ← List.singleton_append,
    List.filter_append, keptTexts]

lemma keptTexts_cons_of_not_isKept {r : Run} (h : ¬r.isKept) (rs : List Run) :
    keptTexts (r :: rs) = keptTexts rs := by
  rw [keptTexts, List.filter_cons_of_neg h, keptTexts]

lemma inFile_of_notMem {before : List Event} {stack : List String}
    (hb : leave? [] before = some stack) (hs : "file" ∉ stack) (content after : List Event) :
    (Run.mk before content after).inFile = false := by
  rw [Run.inFile, hb, Option.any_some]
  simpa using hs

lemma keptTexts_mark {before content es : List Event} {e : Event} {outer : List String}
    (hb : leave? [] before = some outer) (ho : "file" ∉ outer) (hm : e.isMark)
    (hf : (Run.mk before content (e :: es)).opensFile = false) :
    keptTexts (runsFrom before content (e :: es)) =
      [writeAll content].filter (· ≠ "") ++ keptTexts (runsFrom (before ++ content ++ [e]) [] es) := by
  have hk := Run.isKept_of_opensFile hf (inFile_of_notMem hb ho content (e :: es))
  rw [runsFrom, if_pos hm, keptTexts_cons_of_isKept hk, Run.written]

lemma keptTexts_file {before content inner : List Event} {outer stack : List String}
    (hb : leave? [] before = some outer) (ho : "file" ∉ outer)
    (hc : leave? [] (before ++ content) = some stack) (hm : ∀ e ∈ inner, ¬e.isMark)
    (attributes : List Attribute) (es : List Event) :
    keptTexts (runsFrom before content (opened "file" attributes :: (inner ++ closed "file" :: es))) =
      (if (writeAll content).toList.all isBlank then [] else [writeAll content].filter (· ≠ "")) ++
        keptTexts (runsFrom (before ++ content ++ [opened "file" attributes] ++ inner ++
          [closed "file"]) [] es) := by
  obtain ⟨hopen, hclose⟩ := isMark_file attributes
  have hout := inFile_of_notMem hb ho content
    (opened "file" attributes :: (inner ++ closed "file" :: es))
  have hin : ¬(Run.mk (before ++ content ++ [opened "file" attributes]) inner
      (closed "file" :: es)).isKept := by
    have hl : leave? [] (before ++ content ++ [opened "file" attributes]) =
        some ("file" :: stack) := by
      rw [leave?_append, hc]
      rfl
    rw [Run.isKept, Run.inFile, hl, Option.any_some]
    simp
  rw [runsFrom, if_pos hopen, runsFrom_append hm, List.nil_append, runsFrom, if_pos hclose]
  by_cases hblank : (writeAll content).toList.all isBlank
  · rw [if_pos hblank, keptTexts_cons_of_not_isKept, keptTexts_cons_of_not_isKept hin,
      List.nil_append]
    rw [Run.isKept, hout, Run.written, hblank]
    exact Bool.false_ne_true
  · rw [if_neg hblank, keptTexts_cons_of_isKept, keptTexts_cons_of_not_isKept hin]
    · rfl
    · rw [Run.isKept, hout, Run.written, Bool.eq_false_of_not_eq_true hblank]
      rfl

lemma Flat.texts_finish {stack : List String} {es : List Event} (h : Flat stack es)
    {before content : List Event} {outer : List String} (hb : leave? [] before = some outer)
    (ho : "file" ∉ outer) (hc : leave? [] (before ++ content) = some stack)
    (hw : ∀ e ∈ content ++ es, e.written ≠ "") (done : List Segment) (held : Option Example) :
    Segment.texts (es.foldl Assembly.step ⟨done, pending content, held, none⟩).finish =
      Segment.texts done ++ keptTexts (runsFrom before content es) := by
  -- A run is passed with the events before it in `before`, which tell whether a file is open.
  induction h generalizing before content outer done held with
  | nil =>
    rw [List.append_nil] at hw
    have hk := Run.isKept_of_opensFile (r := ⟨before, content, []⟩) rfl
      (inFile_of_notMem hb ho content [])
    rw [runsFrom, keptTexts_cons_of_isKept hk, List.foldl_nil, Assembly.finish_eq,
      Segment.texts_append, Segment.texts_append, Segment.texts_map_text, Segment.texts_ofHeld,
      toList_pending hw, List.append_nil, keptTexts_nil, List.append_nil]
    rfl
  | @plain stack left e es hm hl _ ih =>
    have hc' : leave? [] (before ++ (content ++ [e])) = some left := by
      rw [← List.append_assoc, leave?_append, hc, Option.bind_some, hl]
    have hw' : ∀ x ∈ content ++ [e] ++ es, x.written ≠ "" := by simpa using hw
    rw [runsFrom, if_neg hm, List.foldl_cons, Assembly.step_plain _ _ _ hm, ← pending_append]
    exact ih hb ho hc' hw' done held
  | @exampleStart stack name es attributes hn hes ih =>
    have hm : (opened name attributes).isMark := by simp [isMark, isMarkName, hn]
    have hf : (Run.mk before content (opened name attributes :: es)).opensFile = false := by
      simpa [Run.opensFile] using ne_file_of_isExampleName hn
    have hb' : leave? [] (before ++ content ++ [opened name attributes]) = some (name :: stack) := by
      rw [leave?_append, hc]
      rfl
    rw [List.forall_mem_append, List.forall_mem_cons] at hw
    have hi := ih hb' hes.file_notMem (by rwa [List.append_nil]) hw.2.2
      (done ++ Assembly.ofHeld held ++ Assembly.ofRun (pending content))
      (some (Assembly.exampleOf attributes))
    rw [keptTexts_mark hb ho hm hf, List.foldl_cons, Assembly.step_exampleStart _ _ _ hn]
    refine hi.trans ?_
    rw [Segment.texts_append, Segment.texts_append, Segment.texts_ofHeld, texts_ofRun_pending hw.1,
      List.append_nil, List.append_assoc]
  | @exampleEnd stack name es hn hes ih =>
    have hm : (closed name).isMark := by simp [isMark, isMarkName, hn]
    have hb' : leave? [] (before ++ content ++ [closed name]) = some stack := by
      rw [leave?_append, hc]
      simp [leave?]
    rw [List.forall_mem_append, List.forall_mem_cons] at hw
    have hi := ih hb' hes.file_notMem (by rwa [List.append_nil]) hw.2.2
      (done ++ Assembly.ofRun (pending content) ++ Assembly.ofHeld held) none
    rw [keptTexts_mark hb ho hm rfl, List.foldl_cons, Assembly.step_exampleEnd _ _ _ hn]
    refine hi.trans ?_
    rw [Segment.texts_append, Segment.texts_append, Segment.texts_ofHeld, texts_ofRun_pending hw.1,
      List.append_nil, List.append_assoc]
  | @file stack inner es attributes hi hm hes ih =>
    have hb' : leave? [] (before ++ content ++ [opened "file" attributes] ++ inner ++
        [closed "file"]) = some stack := by
      have hu : leave? ("file" :: stack) inner = some ("file" :: stack) :=
        leave?_under hi ("file" :: stack)
      simp only [leave?_append, hc, Option.bind_some, leave?, hu, if_true]
    rw [List.forall_mem_append, List.forall_mem_cons, List.forall_mem_append,
      List.forall_mem_cons] at hw
    have hi := ih hb' hes.file_notMem (by rwa [List.append_nil]) hw.2.2.2.2
      (done ++ Assembly.beforeFile (pending content))
      (some (Assembly.hold held (Assembly.fileWith attributes inner)))
    rw [Assembly.foldl_file _ _ _ hm, keptTexts_file hb ho hc hm]
    refine hi.trans ?_
    rw [Segment.texts_append, texts_beforeFile_pending hw.1, List.append_assoc]

lemma written_ne_empty {markup : String} : ∀ e ∈ ofMarkup markup, e.written ≠ "" := by
  intro e he
  cases e with
  | text content => exact ne_empty_of_text_mem_ofMarkup he
  | opened name attributes => simp [written, renderStart]
  | closed name => simp [written, renderEnd]

end Event

lemma join_filter_ne_empty (l : List String) : String.join (l.filter (· ≠ "")) = String.join l := by
  induction l with
  | nil => rfl
  | cons t l ih =>
    by_cases h : t = ""
    · rw [List.filter_cons_of_neg (by simpa using h), ih, String.join_cons, h, String.empty_append]
    · rw [List.filter_cons_of_pos (by simpa using h), String.join_cons, ih, String.join_cons]

theorem ofMarkup_accounts {markup : String} (h : Event.filesFlat [] (Event.ofMarkup markup)) :
    List.Forall₂ Event.IsFile (Event.openings (· == "file") (Event.ofMarkup markup))
      (Segment.files (Segment.ofMarkup markup)) ∧
    String.join (Segment.texts (Segment.ofMarkup markup)) =
      String.join (((Event.runs (Event.ofMarkup markup)).filter Event.Run.isKept).map
        Event.Run.written) ∧
    (∀ t ∈ Segment.texts (Segment.ofMarkup markup), t ≠ "") ∧
    Event.Accounted (Event.openings isExampleName (Event.ofMarkup markup))
      (Segment.examples (Segment.ofMarkup markup)) := by
  have hnested : Event.leave? [] (Event.ofMarkup markup) = some [] := Event.leave?_ofTokens [] _
  have hflat := Event.flat_of_filesFlat hnested List.not_mem_nil h
  obtain ⟨more, xs, hmore, hx, hf, he⟩ := hflat.examples_finish [] none none
  rw [hmore rfl, List.nil_append] at hf
  have hexamples : Segment.examples (Segment.ofMarkup markup) = xs := he
  have hstart : Event.leave? [] ([] : List Event) = some [] := rfl
  have hw : ∀ e ∈ [] ++ Event.ofMarkup markup, e.written ≠ "" := Event.written_ne_empty
  have htexts : Segment.texts (Segment.ofMarkup markup) =
      Event.keptTexts (Event.runs (Event.ofMarkup markup)) :=
    hflat.texts_finish hstart List.not_mem_nil hstart hw [] none
  refine ⟨?_, ?_, ?_, ?_⟩
  · rwa [Segment.files, hexamples]
  · rw [htexts, Event.keptTexts, join_filter_ne_empty]
  · intro t ht
    rw [htexts, Event.keptTexts] at ht
    simpa using (List.mem_filter.1 ht).2
  · rwa [hexamples]

theorem ofMarkup_accounts_stray :
    let markup := "A <example deps=\"d\">\n<file name=\"x\"><b> y</b></file> </doc:example></example>B" ++
      "<file src=\"s\"> z"
    Event.filesFlat [] (Event.ofMarkup markup) ∧
      List.Forall₂ Event.IsFile (Event.openings (· == "file") (Event.ofMarkup markup))
        (Segment.files (Segment.ofMarkup markup)) ∧
      String.join (Segment.texts (Segment.ofMarkup markup)) =
        String.join (((Event.runs (Event.ofMarkup markup)).filter Event.Run.isKept).map
          Event.Run.written) ∧
      (∀ t ∈ Segment.texts (Segment.ofMarkup markup), t ≠ "") ∧
      Event.Accounted (Event.openings isExampleName (Event.ofMarkup markup))
        (Segment.examples (Segment.ofMarkup markup)) := by
  intro markup
  have h : Event.filesFlat [] (Event.ofMarkup markup) := by decide +kernel
  exact ⟨h, ofMarkup_accounts h⟩

end DocHarvest.Markup
