import DocHarvest.Proofs.Markup.Flat

/-! How the marks move what is under way to the segments, a file with all that it holds at once. -/

namespace DocHarvest.Markup

open Text

namespace Segment

def text? : Segment → Option String
  | text content => some content
  | worked _ => none

def worked? : Segment → Option Example
  | text _ => none
  | worked details => some details

def texts (segments : List Segment) : List String :=
  segments.filterMap text?

def examples (segments : List Segment) : List Example :=
  segments.filterMap worked?

def files (segments : List Segment) : List ExampleFile :=
  (examples segments).flatMap Example.files

end Segment

namespace Assembly

/-- The segments that a run of text and an example become when they end. -/
def ofRun : Option String → List Segment
  | none => []
  | some t => if t.isEmpty then [] else [.text t]

def ofHeld (held : Option Example) : List Segment :=
  held.toList.map Segment.worked

/-- What is left of a run of text before a file. -/
def beforeFile (run : Option String) : List Segment :=
  if run.any (!·.toList.all isBlank) then ofRun run else []

def fileWith (attributes : List Attribute) (inner : List Event) : ExampleFile :=
  { fileOf attributes with content := Event.writeAll inner }

def hold (held : Option Example) (f : ExampleFile) : Example :=
  let e := held.getD (exampleOf [])
  { e with files := e.files ++ [f] }

section Steps

variable (done : List Segment) (run : Option String) (held : Option Example)

lemma flushText_eq (file : Option ExampleFile) :
    flushText ⟨done, run, held, file⟩ = ⟨done ++ ofRun run, none, held, file⟩ := by
  cases run with
  | none => simp [flushText, ofRun]
  | some t =>
    simp only [flushText, ofRun]
    split
    · rw [List.append_nil]
    · rfl

lemma flushExample_eq (file : Option ExampleFile) :
    flushExample ⟨done, run, held, file⟩ = ⟨done ++ ofHeld held, run, none, file⟩ := by
  cases held with
  | none => simp [flushExample, ofHeld]
  | some e => rfl

lemma finish_eq (file : Option ExampleFile) :
    finish ⟨done, run, held, file⟩ = done ++ ofHeld held ++ run.toList.map Segment.text := by
  rw [finish, flushExample_eq]

lemma step_plain {e : Event} (h : ¬e.isMark) :
    step ⟨done, run, held, none⟩ e = ⟨done, some (run.getD "" ++ e.written), held, none⟩ :=
  step_of_not_isMark h _

lemma step_exampleStart {name : String} (h : isExampleName name) (attributes : List Attribute) :
    step ⟨done, run, held, none⟩ (.opened name attributes) =
      ⟨done ++ ofHeld held ++ ofRun run, none, some (exampleOf attributes), none⟩ := by
  rw [step, if_pos h, openExample, flushExample_eq, flushText_eq]

lemma step_exampleEnd {name : String} (h : isExampleName name) :
    step ⟨done, run, held, none⟩ (.closed name) =
      ⟨done ++ ofRun run ++ ofHeld held, none, none, none⟩ := by
  rw [step, if_pos h, closeExample, flushText_eq, flushExample_eq]

lemma foldl_file {inner : List Event} (h : ∀ e ∈ inner, ¬e.isMark) (attributes : List Attribute)
    (es : List Event) :
    (.opened "file" attributes :: (inner ++ .closed "file" :: es)).foldl step
        ⟨done, run, held, none⟩ =
      es.foldl step ⟨done ++ beforeFile run, none,
        some (hold held (fileWith attributes inner)), none⟩ := by
  have hopen : step ⟨done, run, held, none⟩ (.opened "file" attributes) =
      ⟨done ++ beforeFile run, none, held, some (fileOf attributes)⟩ := by
    rw [step, if_neg Event.not_isExampleName_file, if_pos (by rfl), openFile, beforeFile]
    dsimp only
    split
    · rw [flushText_eq]
    · rw [List.append_nil]
  have hinner : inner.foldl step ⟨done ++ beforeFile run, none, held, some (fileOf attributes)⟩ =
      ⟨done ++ beforeFile run, if inner.isEmpty then none else some (Event.writeAll inner), held,
        some (fileOf attributes)⟩ := by
    by_cases hnil : inner = []
    · rw [hnil]
      rfl
    · rw [foldl_of_not_isMark h hnil, if_neg (by simpa using hnil), addText]
      rw [Option.getD_none, String.empty_append]
  rw [List.foldl_cons, hopen, List.foldl_append, hinner, List.foldl_cons, step,
    if_neg Event.not_isExampleName_file, if_pos (by rfl), closeFile]
  dsimp only
  rw [hold]
  split
  · next hnil => rw [List.isEmpty_iff.1 hnil]; rfl
  · rfl

end Steps

end Assembly

namespace Segment

@[simp] lemma texts_append (a b : List Segment) : texts (a ++ b) = texts a ++ texts b :=
  List.filterMap_append

@[simp] lemma examples_append (a b : List Segment) : examples (a ++ b) = examples a ++ examples b :=
  List.filterMap_append

@[simp] lemma texts_ofHeld (held : Option Example) : texts (Assembly.ofHeld held) = [] := by
  cases held <;> rfl

@[simp] lemma examples_ofHeld (held : Option Example) :
    examples (Assembly.ofHeld held) = held.toList := by
  cases held <;> rfl

@[simp] lemma texts_ofRun (run : Option String) :
    texts (Assembly.ofRun run) = run.toList.filter (· ≠ "") := by
  cases run with
  | none => rfl
  | some t => by_cases h : t = "" <;> simp [Assembly.ofRun, texts, text?, h]

@[simp] lemma examples_ofRun (run : Option String) : examples (Assembly.ofRun run) = [] := by
  cases run with
  | none => rfl
  | some t =>
    rw [Assembly.ofRun]
    split <;> rfl

@[simp] lemma examples_beforeFile (run : Option String) :
    examples (Assembly.beforeFile run) = [] := by
  rw [Assembly.beforeFile]
  split
  · exact examples_ofRun run
  · rfl

@[simp] lemma texts_map_text (run : Option String) :
    texts (run.toList.map Segment.text) = run.toList := by
  cases run <;> rfl

@[simp] lemma examples_map_text (run : Option String) :
    examples (run.toList.map Segment.text) = [] := by
  cases run <;> rfl

end Segment

end DocHarvest.Markup
