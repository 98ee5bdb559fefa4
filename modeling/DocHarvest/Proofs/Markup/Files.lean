import DocHarvest.Proofs.Markup.Account

/-! Which files and which texts come out of a text, however its files are nested. There is room for one
file at a time: one that is opened inside another takes its place, and the text that is left before
the end of the other has no file to go to. -/

namespace DocHarvest.Markup

open Text

namespace Event

/-- A file is opened among these events before the element around them ends. The elements that were
opened since are on `stack`. -/
def fileWithin : List String → List Event → Bool
  | _, [] => false
  | stack, opened name _ :: es => name == "file" || fileWithin (name :: stack) es
  | [], closed _ :: _ => false
  | _ :: stack, closed _ :: es => fileWithin stack es
  | stack, text _ :: es => fileWithin stack es

def holdsFile (o : List Attribute × List Event) : Bool :=
  fileWithin [] o.2

/-- The file that waits for its content: the one that was opened last, when none was closed since. -/
def await (waiting : Option (List Attribute)) : Event → Option (List Attribute)
  | opened name attributes => if name == "file" then some attributes else waiting
  | closed name => if name == "file" then none else waiting
  | text _ => waiting

def awaited (es : List Event) : Option (List Attribute) :=
  es.foldl await none

def closesFile : Event → Bool
  | closed name => name == "file"
  | _ => false

/-- Of the starts and ends of files, an end comes first. -/
def closesNext : List Event → Bool
  | [] => false
  | opened name _ :: es => !(name == "file") && closesNext es
  | closed name :: es => name == "file" || closesNext es
  | text _ :: es => closesNext es

namespace Run

def endsFile (r : Run) : Bool :=
  r.after.head?.any closesFile

/-- The file whose content is the run. -/
def file? (r : Run) : Option ExampleFile :=
  if r.endsFile then
    (awaited (r.before ++ r.content)).map fun attributes =>
      { Assembly.fileOf attributes with content := r.written }
  else none

/-- A run that comes out as text, unless it is empty. -/
def isText (r : Run) : Bool :=
  !r.endsFile && !(r.written.toList.all isBlank && r.opensFile)

end Run

def shownTexts (rs : List Run) : List String :=
  ((rs.filter Run.isText).map Run.written).filter (· ≠ "")

lemma Run.isText_of_not {r : Run} (he : r.endsFile = false) (ho : r.opensFile = false) :
    r.isText := by
  rw [isText, he, ho, Bool.and_false]
  rfl

lemma Run.file?_of_not {r : Run} (h : r.endsFile = false) : r.file? = none := by
  rw [file?, h, if_neg Bool.false_ne_true]

lemma shownTexts_singleton (r : Run) :
    shownTexts [r] = if r.isText then [r.written].filter (· ≠ "") else [] := by
  rw [shownTexts, List.filter_singleton]
  cases r.isText <;> rfl

lemma shownTexts_of_isText {r : Run} (h : r.isText) :
    shownTexts [r] = [r.written].filter (· ≠ "") := by
  rw [shownTexts_singleton, if_pos h]

lemma shownTexts_cons (r : Run) (rs : List Run) :
    shownTexts (r :: rs) = shownTexts [r] ++ shownTexts rs := by
  simp only [shownTexts, ← List.filter_append, ← List.map_append, List.singleton_append]

lemma awaited_concat (es : List Event) (e : Event) :
    awaited (es ++ [e]) = await (awaited es) e := by
  rw [awaited, List.foldl_concat, awaited]

lemma await_of_not_isMark {e : Event} (h : ¬e.isMark) (waiting : Option (List Attribute)) :
    await waiting e = waiting := by
  cases e with
  | text content => rfl
  | opened name attributes => rw [await, if_neg fun hname => h (isMarkName_of_file name hname)]
  | closed name => rw [await, if_neg fun hname => h (isMarkName_of_file name hname)]

end Event

namespace Segment

@[simp] lemma files_append (a b : List Segment) : files (a ++ b) = files a ++ files b := by
  simp [files]

@[simp] lemma files_ofHeld (held : Option Example) :
    files (Assembly.ofHeld held) = held.elim [] Example.files := by
  cases held <;> simp [files]

@[simp] lemma files_ofRun (run : Option String) : files (Assembly.ofRun run) = [] := by
  simp [files]

@[simp] lemma files_beforeFile (run : Option String) : files (Assembly.beforeFile run) = [] := by
  simp [files]

@[simp] lemma files_map_text (run : Option String) : files (run.toList.map Segment.text) = [] := by
  simp [files]

end Segment

namespace Assembly

open Event

variable (before : List Event) {content : List Event} (done : List Segment) (held : Option Example)

/-- Between two marks, the text under way is that of the run, and the file is the one awaited. -/
def between (before content : List Event) (done : List Segment) (held : Option Example) : Assembly :=
  ⟨done, pending content, held, (awaited (before ++ content)).map fileOf⟩

lemma step_between_plain {e : Event} (h : ¬e.isMark) :
    (between before content done held).step e = between before (content ++ [e]) done held := by
  rw [step_of_not_isMark h, between, between, addText, pending_append, ← List.append_assoc,
    awaited_concat, await_of_not_isMark h]

section Marks

variable {name : String} (attributes : List Attribute)

lemma between_exampleStart (h : isExampleName name) :
    (between before content done held).step (.opened name attributes) =
      between (before ++ content ++ [opened name attributes]) []
        (done ++ ofHeld held ++ ofRun (pending content)) (some (exampleOf attributes)) := by
  have hne : (name == "file") = false := by simpa using ne_file_of_isExampleName h
  rw [step, if_pos h, between, openExample, flushExample_eq, flushText_eq, between, List.append_nil,
    awaited_concat, await, hne]
  rfl

lemma between_exampleEnd (h : isExampleName name) :
    (between before content done held).step (.closed name) =
      between (before ++ content ++ [closed name]) []
        (done ++ ofRun (pending content) ++ ofHeld held) none := by
  have hne : (name == "file") = false := by simpa using ne_file_of_isExampleName h
  rw [step, if_pos h, between, closeExample, flushText_eq, flushExample_eq, between, List.append_nil,
    awaited_concat, await, hne]
  rfl

lemma between_fileStart :
    (between before content done held).step (.opened "file" attributes) =
      between (before ++ content ++ [opened "file" attributes]) []
        (done ++ beforeFile (pending content)) held := by
  have hawait : await (awaited (before ++ content)) (opened "file" attributes) = some attributes := rfl
  rw [step, if_neg not_isExampleName_file, if_pos (by rfl), between, openFile, between,
    List.append_nil, awaited_concat, hawait, beforeFile]
  dsimp only
  by_cases hb : (pending content).any (!·.toList.all isBlank)
  · rw [if_pos hb, if_pos hb, flushText_eq]
    rfl
  · rw [if_neg hb, if_neg hb, List.append_nil]
    rfl

/-- Without a file that waits for it, the text before the end of a file is lost. -/
lemma between_fileEnd :
    (between before content done held).step (.closed "file") =
      between (before ++ content ++ [closed "file"]) [] done
        ((awaited (before ++ content)).elim held fun attributes =>
          some (hold held { fileOf attributes with content := writeAll content })) := by
  have hcontent : (pending content).getD "" = writeAll content := by
    cases content <;> simp [pending]
  rw [step, if_neg not_isExampleName_file, if_pos (by rfl), between, closeFile, between,
    List.append_nil, awaited_concat, await, if_pos (by rfl)]
  cases awaited (before ++ content) with
  | none => rfl
  | some attributes =>
    rw [← hcontent]
    rfl

end Marks

/-- A mark ends a run, which becomes text, or the content of a file, or nothing. -/
structure Takes (r : Run) (done : List Segment) (held : Option Example) (done' : List Segment)
    (held' : Option Example) : Prop where
  texts : Segment.texts done' = Segment.texts done ++ shownTexts [r]
  files : Segment.files (done' ++ ofHeld held') =
    Segment.files (done ++ ofHeld held) ++ r.file?.toList

section Takes

variable {name : String} (attributes : List Attribute) (es : List Event)

lemma takes_exampleStart (h : isExampleName name) (hw : ∀ x ∈ content, x.written ≠ "") :
    Takes ⟨before, content, opened name attributes :: es⟩ done held
      (done ++ ofHeld held ++ ofRun (pending content)) (some (exampleOf attributes)) := by
  have hends : Run.endsFile ⟨before, content, opened name attributes :: es⟩ = false := rfl
  have hopens : Run.opensFile ⟨before, content, opened name attributes :: es⟩ = false := by
    simpa [Run.opensFile] using ne_file_of_isExampleName h
  constructor
  · rw [shownTexts_of_isText (Run.isText_of_not hends hopens)]
    simp [texts_ofRun_pending hw, Run.written]
  · simp [Run.file?_of_not hends, exampleOf]

lemma takes_exampleEnd (h : isExampleName name) (hw : ∀ x ∈ content, x.written ≠ "") :
    Takes ⟨before, content, closed name :: es⟩ done held
      (done ++ ofRun (pending content) ++ ofHeld held) none := by
  have hends : Run.endsFile ⟨before, content, closed name :: es⟩ = false := by
    simpa [Run.endsFile, closesFile] using ne_file_of_isExampleName h
  constructor
  · rw [shownTexts_of_isText (Run.isText_of_not hends rfl)]
    simp [texts_ofRun_pending hw, Run.written]
  · simp [Run.file?_of_not hends]

lemma takes_fileStart (hw : ∀ x ∈ content, x.written ≠ "") :
    Takes ⟨before, content, opened "file" attributes :: es⟩ done held
      (done ++ beforeFile (pending content)) held := by
  have hends : Run.endsFile ⟨before, content, opened "file" attributes :: es⟩ = false := rfl
  constructor
  · rw [Segment.texts_append, texts_beforeFile_pending hw, shownTexts_singleton]
    by_cases hb : (writeAll content).toList.all isBlank
    · rw [if_pos hb, if_neg]
      simp [Run.isText, hends, Run.opensFile, Run.written, hb]
    · rw [if_neg hb, if_pos]
      · rfl
      · simp [Run.isText, hends, Run.written, hb]
  · simp [Run.file?_of_not hends]

lemma takes_fileEnd : Takes ⟨before, content, closed "file" :: es⟩ done held done
    ((awaited (before ++ content)).elim held fun attributes =>
      some (hold held { fileOf attributes with content := writeAll content })) := by
  have hends : Run.endsFile ⟨before, content, closed "file" :: es⟩ := rfl
  constructor
  · rw [shownTexts_singleton, if_neg, List.append_nil]
    simp [Run.isText, hends]
  · rw [Run.file?, if_pos hends]
    cases awaited (before ++ content) with
    | none => simp
    | some attributes => cases held <;> simp [hold, exampleOf, Run.written]

end Takes

lemma step_between_mark {e : Event} (h : e.isMark) (hw : ∀ x ∈ content, x.written ≠ "")
    (es : List Event) :
    ∃ done' held', (between before content done held).step e =
        between (before ++ content ++ [e]) [] done' held' ∧
      Takes ⟨before, content, e :: es⟩ done held done' held' := by
  cases e with
  | text content => cases h
  | opened name attributes =>
    by_cases hn : isExampleName name
    · exact ⟨_, _, between_exampleStart before done held attributes hn,
        takes_exampleStart before done held attributes es hn hw⟩
    · obtain rfl : name = "file" := by simpa [isMark, isMarkName, hn] using h
      exact ⟨_, _, between_fileStart before done held attributes,
        takes_fileStart before done held attributes es hw⟩
  | closed name =>
    by_cases hn : isExampleName name
    · exact ⟨_, _, between_exampleEnd before done held hn,
        takes_exampleEnd before done held es hn hw⟩
    · obtain rfl : name = "file" := by simpa [isMark, isMarkName, hn] using h
      exact ⟨_, _, between_fileEnd before done held, takes_fileEnd before done held es⟩

/-- What comes out of a run of the events: a text or a file for each part between two marks. -/
lemma finish_between (es before : List Event) {content : List Event}
    (hw : ∀ x ∈ content ++ es, x.written ≠ "") (done : List Segment) (held : Option Example) :
    Segment.texts (es.foldl step (between before content done held)).finish =
        Segment.texts done ++ shownTexts (runsFrom before content es) ∧
      Segment.files (es.foldl step (between before content done held)).finish =
        Segment.files (done ++ ofHeld held) ++ (runsFrom before content es).filterMap Run.file? := by
  induction es generalizing before content done held with
  | nil =>
    rw [List.append_nil] at hw
    have hends : Run.endsFile ⟨before, content, []⟩ = false := rfl
    rw [List.foldl_nil, between, finish_eq, runsFrom]
    constructor
    · rw [Segment.texts_append, Segment.texts_append, Segment.texts_ofHeld, Segment.texts_map_text,
        toList_pending hw, shownTexts_of_isText (Run.isText_of_not hends rfl), List.append_nil]
      rfl
    · simp [Run.file?_of_not hends]
  | cons e es ih =>
    rw [List.foldl_cons, runsFrom]
    by_cases hm : e.isMark
    · rw [List.forall_mem_append, List.forall_mem_cons] at hw
      obtain ⟨done', held', hs, htakes⟩ := step_between_mark before done held hm hw.1 es
      have hes : ∀ x ∈ [] ++ es, x.written ≠ "" := by simpa using hw.2.2
      obtain ⟨iht, ihf⟩ := ih (before ++ content ++ [e]) hes done' held'
      rw [if_pos hm, hs, iht, ihf, htakes.texts, htakes.files]
      constructor
      · rw [shownTexts_cons ⟨before, content, e :: es⟩ (runsFrom _ _ _), List.append_assoc]
      · cases hr : Run.file? ⟨before, content, e :: es⟩ <;> simp [hr]
    · have hw' : ∀ x ∈ content ++ [e] ++ es, x.written ≠ "" := by simpa using hw
      rw [if_neg hm, step_between_plain before done held hm]
      exact ih before hw' done held

end Assembly

def ExampleFile.heading (f : ExampleFile) : String × Option String :=
  (f.name, f.src)

namespace Event

/-- The files that get their content from some events. -/
def filled : Option (List Attribute) → List Event → List (List Attribute)
  | _, [] => []
  | waiting, e :: es =>
    (if closesFile e then waiting.toList else []) ++ filled (await waiting e) es

lemma isMark_of_closesFile {e : Event} (h : closesFile e) : e.isMark := by
  cases e with
  | closed name => exact isMarkName_of_file name h
  | _ => cases h

lemma heading_files (es before content : List Event) :
    ((runsFrom before content es).filterMap Run.file?).map ExampleFile.heading =
      (filled (awaited (before ++ content)) es).map fun attributes =>
        (Assembly.fileOf attributes).heading := by
  induction es generalizing before content with
  | nil => rfl
  | cons e es ih =>
    rw [runsFrom, filled]
    by_cases hm : e.isMark
    · have hi := ih (before ++ content ++ [e]) []
      rw [List.append_nil, awaited_concat] at hi
      rw [if_pos hm, List.map_append, ← hi]
      by_cases hc : closesFile e
      · cases hv : awaited (before ++ content) with
        | none => simp [Run.file?, Run.endsFile, hc, hv]
        | some attributes => simp [Run.file?, Run.endsFile, hc, hv, ExampleFile.heading]
      · simp [Run.file?, Run.endsFile, hc]
    · have hi := ih before (content ++ [e])
      have hc : ¬closesFile e := fun hc => hm (isMark_of_closesFile hc)
      rw [← List.append_assoc, awaited_concat] at hi
      rw [if_neg hm, if_neg hc, List.nil_append, hi]

/-- Inside a file, its own end comes next unless another file is opened in it. -/
lemma closesNext_eq {es : List Event} {outer : List String} (above : List String)
    (h : leave? (above ++ "file" :: outer) es = some []) (ha : "file" ∉ above) :
    closesNext es = !fileWithin above es := by
  induction es generalizing above with
  | nil =>
    rw [leave?, Option.some.injEq] at h
    exact absurd h (List.append_ne_nil_of_right_ne_nil above (List.cons_ne_nil _ _))
  | cons e es ih =>
    cases e with
    | text content => exact ih above h ha
    | opened name attributes =>
      rw [closesNext, fileWithin]
      by_cases hname : name = "file"
      · simp [hname]
      · have ha' : "file" ∉ name :: above := by
          rw [List.mem_cons, not_or]
          exact ⟨Ne.symm hname, ha⟩
        have hne : (name == "file") = false := by simpa using hname
        rw [hne, Bool.not_false, Bool.true_and, Bool.false_or, ih (name :: above) h ha']
    | closed name =>
      obtain ⟨rest, he, hl⟩ := exists_of_leave?_closed h
      cases above with
      | nil =>
        obtain ⟨rfl, -⟩ := List.cons.inj he
        rfl
      | cons top above =>
        obtain ⟨rfl, rfl⟩ := List.cons.inj he
        rw [List.mem_cons, not_or] at ha
        have hne : (top == "file") = false := by simpa using Ne.symm ha.1
        rw [closesNext, fileWithin, hne, Bool.false_or, ih above hl ha.2]

lemma filled_eq {es : List Event} {stack : List String} (h : leave? stack es = some [])
    (waiting : Option (List Attribute)) :
    filled waiting es = (if closesNext es then waiting.toList else []) ++
      ((openings (· == "file") es).filter (!holdsFile ·)).map Prod.fst := by
  induction es generalizing stack waiting with
  | nil => rfl
  | cons e es ih =>
    cases e with
    | text content => exact ih h waiting
    | opened name attributes =>
      by_cases hname : name = "file"
      · subst hname
        have hnext : closesNext es = !holdsFile (attributes, es) :=
          closesNext_eq [] h List.not_mem_nil
        have hi := ih h (some attributes)
        rw [hnext] at hi
        have hopen : openings (· == "file") (opened "file" attributes :: es) =
            (attributes, es) :: openings (· == "file") es := rfl
        have hfilled : filled waiting (opened "file" attributes :: es) =
            filled (some attributes) es := rfl
        rw [hfilled, hi, hopen, List.filter_cons]
        cases holdsFile (attributes, es) <;> rfl
      · have hi := ih h waiting
        simpa [filled, closesFile, await, closesNext, openings, hname] using hi
    | closed name =>
      obtain ⟨outer, rfl, hl⟩ := exists_of_leave?_closed h
      by_cases hname : name = "file"
      · simpa [filled, closesFile, await, closesNext, openings, hname] using ih hl none
      · simpa [filled, closesFile, await, closesNext, openings, hname] using ih hl waiting

/-- As many files end as are opened here and before. -/
lemma countP_closesFile {es : List Event} {stack : List String} (h : leave? stack es = some []) :
    es.countP closesFile = (openings (· == "file") es).length + stack.count "file" := by
  induction es generalizing stack with
  | nil =>
    cases h
    rfl
  | cons e es ih =>
    cases e with
    | text content =>
      rw [List.countP_cons_of_neg (by simp [closesFile]), ih h]
      rfl
    | opened name attributes =>
      have hi := ih h
      rw [List.countP_cons_of_neg (by simp [closesFile]), hi, openings, List.count_cons]
      split
      · rw [List.length_cons]
        omega
      · rfl
    | closed name =>
      obtain ⟨outer, rfl, hl⟩ := exists_of_leave?_closed h
      rw [List.countP_cons, ih hl, List.count_cons, Nat.add_assoc]
      rfl

lemma countP_endsFile (es before content : List Event) :
    (runsFrom before content es).countP Run.endsFile = es.countP closesFile := by
  induction es generalizing before content with
  | nil => rfl
  | cons e es ih =>
    rw [runsFrom]
    split
    · rw [List.countP_cons, List.countP_cons, ih]
      rfl
    · next hm =>
      have hc : ¬closesFile e := fun hc => hm (isMark_of_closesFile hc)
      rw [List.countP_cons_of_neg hc, ih]

lemma isSome_file?_of_length {rs : List Run}
    (h : (rs.filterMap Run.file?).length = rs.countP Run.endsFile) {r : Run} (hr : r ∈ rs)
    (he : r.endsFile) : r.file?.isSome := by
  have hends : (rs.filter Run.endsFile).filterMap Run.file? = rs.filterMap Run.file? := by
    rw [List.filterMap_filter]
    congr 1
    funext r
    cases hr : r.endsFile
    · rw [Run.file?_of_not hr]
      rfl
    · rfl
  rw [← hends, List.countP_eq_length_filter, List.filterMap_length_eq_length] at h
  exact h r (List.mem_filter.2 ⟨hr, he⟩)

lemma exists_run_of_mem {e : Event} (hm : ¬e.isMark) (es before content : List Event)
    (he : e ∈ content ++ es) : ∃ r ∈ runsFrom before content es, e ∈ r.content := by
  induction es generalizing before content with
  | nil => exact ⟨_, List.mem_singleton_self _, by simpa using he⟩
  | cons x es ih =>
    rw [runsFrom]
    split
    · next hx =>
      rcases List.mem_append.1 he with hc | he
      · exact ⟨_, List.mem_cons_self, hc⟩
      · rcases List.mem_cons.1 he with rfl | he
        · exact (hm hx).elim
        · obtain ⟨r, hr, her⟩ := ih (before ++ content ++ [x]) [] he
          exact ⟨r, List.mem_cons_of_mem _ hr, her⟩
    · exact ih before (content ++ [x]) (by simpa using he)

lemma mem_writeAll {content : List Event} {e : Event} (he : e ∈ content) {c : Char}
    (hc : c ∈ e.written.toList) : c ∈ (writeAll content).toList := by
  induction content with
  | nil => cases he
  | cons x content ih =>
    rw [writeAll_cons, String.toList_append, List.mem_append]
    rcases List.mem_cons.1 he with rfl | he
    · exact .inl hc
    · exact .inr (ih he)

end Event

open Event

/-- Every file that is opened comes out, and every character of the texts that is not blank stands in a
text or in a file. -/
structure KeepsAll (markup : String) : Prop where
  files : (Segment.files (Segment.ofMarkup markup)).length =
    (openings (· == "file") (Event.ofMarkup markup)).length
  text : ∀ content, Event.text content ∈ Event.ofMarkup markup → ∀ c ∈ content.toList, ¬isBlank c →
    (∃ t ∈ Segment.texts (Segment.ofMarkup markup), c ∈ t.toList) ∨
      ∃ f ∈ Segment.files (Segment.ofMarkup markup), c ∈ f.content.toList

lemma texts_files_ofMarkup (markup : String) :
    Segment.texts (Segment.ofMarkup markup) = shownTexts (runs (Event.ofMarkup markup)) ∧
    Segment.files (Segment.ofMarkup markup) = (runs (Event.ofMarkup markup)).filterMap Run.file? := by
  have hw : ∀ e ∈ [] ++ Event.ofMarkup markup, e.written ≠ "" := written_ne_empty
  exact Assembly.finish_between (Event.ofMarkup markup) [] hw [] none

lemma heading_files_ofMarkup (markup : String) :
    (Segment.files (Segment.ofMarkup markup)).map ExampleFile.heading =
      ((openings (· == "file") (Event.ofMarkup markup)).filter (!holdsFile ·)).map fun o =>
        (Assembly.fileOf o.1).heading := by
  have hnested : leave? [] (Event.ofMarkup markup) = some [] := leave?_ofTokens [] _
  have hfilled := filled_eq hnested (awaited [])
  have hempty : (if closesNext (Event.ofMarkup markup) then (awaited []).toList else []) = [] := by
    split <;> rfl
  rw [hempty, List.nil_append] at hfilled
  rw [(texts_files_ofMarkup markup).2, runs, heading_files, List.append_nil, hfilled, List.map_map]
  rfl

lemma isSome_file?_of_length_files {markup : String}
    (h : (Segment.files (Segment.ofMarkup markup)).length =
      (openings (· == "file") (Event.ofMarkup markup)).length) {r : Run}
    (hr : r ∈ runs (Event.ofMarkup markup)) (he : r.endsFile) : r.file?.isSome := by
  have hnested : leave? [] (Event.ofMarkup markup) = some [] := leave?_ofTokens [] _
  rw [(texts_files_ofMarkup markup).2] at h
  apply isSome_file?_of_length _ hr he
  rw [h, runs, countP_endsFile, countP_closesFile hnested]
  rfl

/-- A character that is not blank is lost only where its run ends with a file that is not there. -/
lemma mem_texts_or_files {markup : String} {r : Run} (hr : r ∈ runs (Event.ofMarkup markup))
    (hends : r.endsFile → r.file?.isSome) {c : Char} (hc : c ∈ r.written.toList)
    (hblank : ¬isBlank c) :
    (∃ t ∈ Segment.texts (Segment.ofMarkup markup), c ∈ t.toList) ∨
      ∃ f ∈ Segment.files (Segment.ofMarkup markup), c ∈ f.content.toList := by
  obtain ⟨htexts, hfiles⟩ := texts_files_ofMarkup markup
  rw [htexts, hfiles]
  by_cases he : r.endsFile
  · obtain ⟨f, hf⟩ := Option.isSome_iff_exists.1 (hends he)
    have hcontent : f.content = r.written := by
      rw [Run.file?, if_pos he] at hf
      obtain ⟨attributes, -, rfl⟩ := Option.map_eq_some_iff.1 hf
      rfl
    exact .inr ⟨f, List.mem_filterMap.2 ⟨r, hr, hf⟩, hcontent ▸ hc⟩
  · have hall : ¬r.written.toList.all isBlank := by
      rw [List.all_eq_true]
      exact fun hall => hblank (hall c hc)
    have hempty : r.written ≠ "" := by
      intro hempty
      rw [hempty] at hc
      cases hc
    have htext : r.isText := by simp [Run.isText, he, hall]
    refine .inl ⟨r.written, ?_, hc⟩
    rw [shownTexts, List.mem_filter]
    exact ⟨List.mem_map_of_mem (List.mem_filter.2 ⟨hr, htext⟩), by simpa using hempty⟩

lemma keepsAll_of_length_files {markup : String}
    (h : (Segment.files (Segment.ofMarkup markup)).length =
      (openings (· == "file") (Event.ofMarkup markup)).length) : KeepsAll markup := by
  refine ⟨h, fun content hm c hc hblank => ?_⟩
  have hmark : ¬(Event.text content).isMark := Bool.false_ne_true
  obtain ⟨r, hr, hrun⟩ := exists_run_of_mem hmark (Event.ofMarkup markup) [] [] hm
  exact mem_texts_or_files hr (isSome_file?_of_length_files h hr) (mem_writeAll hrun hc) hblank

theorem keepsAll_iff (markup : String) :
    (KeepsAll markup ↔ ∀ o ∈ openings (· == "file") (Event.ofMarkup markup), ¬holdsFile o) ∧
    (Segment.files (Segment.ofMarkup markup)).map ExampleFile.heading =
      ((openings (· == "file") (Event.ofMarkup markup)).filter (!holdsFile ·)).map
        (fun o => (Assembly.fileOf o.1).heading) ∧
    Segment.files (Segment.ofMarkup markup) = (runs (Event.ofMarkup markup)).filterMap Run.file? ∧
    Segment.texts (Segment.ofMarkup markup) = shownTexts (runs (Event.ofMarkup markup)) := by
  have hheading := heading_files_ofMarkup markup
  have hlength := congrArg List.length hheading
  rw [List.length_map, List.length_map] at hlength
  have hiff : (Segment.files (Segment.ofMarkup markup)).length =
      (openings (· == "file") (Event.ofMarkup markup)).length ↔
      ∀ o ∈ openings (· == "file") (Event.ofMarkup markup), ¬holdsFile o := by
    rw [hlength, List.length_filter_eq_length_iff]
    simp
  refine ⟨⟨fun h => hiff.1 h.files, fun h => keepsAll_of_length_files (hiff.2 h)⟩, hheading, ?_, ?_⟩
  · exact (texts_files_ofMarkup markup).2
  · exact (texts_files_ofMarkup markup).1

theorem not_keepsAll_of_file_in_file :
    let markup := "<file name=\"a.js\"><file name=\"b.js\">b();</file>a();</file>"
    Segment.ofMarkup markup = [.worked ⟨none, none, [⟨"b.js", "b();", none⟩]⟩] ∧
      (openings (· == "file") (Event.ofMarkup markup)).length = 2 ∧
      Event.text "a();" ∈ Event.ofMarkup markup ∧ ¬KeepsAll markup := by
  intro markup
  have hs : Segment.ofMarkup markup = [.worked ⟨none, none, [⟨"b.js", "b();", none⟩]⟩] := by
    decide +kernel
  have ho : (openings (· == "file") (Event.ofMarkup markup)).length = 2 := by decide +kernel
  refine ⟨hs, ho, by decide +kernel, fun h => ?_⟩
  have hf := h.files
  rw [hs, ho] at hf
  cases hf

end DocHarvest.Markup
