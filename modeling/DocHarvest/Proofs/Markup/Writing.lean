import DocHarvest.Proofs.Markup.Reading

/-! Segments written as markup, and read back as they were. -/

namespace DocHarvest.Markup

def writeOption (name : String) : Option String → String
  | none => ""
  | some value => " " ++ name ++ "=\"" ++ value ++ "\""

namespace ExampleFile

def write (f : ExampleFile) : String :=
  String.join ["<file name=\"", f.name, "\"", writeOption "src" f.src, ">", f.content, "</file>"]

structure Writable (f : ExampleFile) : Prop where
  name : '"' ∉ f.name.toList
  src : ∀ s, f.src = some s → '"' ∉ s.toList
  content : '<' ∉ f.content.toList

end ExampleFile

namespace Example

def write (e : Example) : String :=
  String.join ["<example", writeOption "module" e.module, writeOption "deps" e.deps, ">",
    String.join (e.files.map ExampleFile.write), "</example>"]

structure Writable (e : Example) : Prop where
  module : ∀ m, e.module = some m → '"' ∉ m.toList
  deps : ∀ d, e.deps = some d → '"' ∉ d.toList
  files : ∀ f ∈ e.files, f.Writable

end Example

namespace Segment

def write : Segment → String
  | text content => content
  | worked details => details.write

def IsText : Segment → Prop
  | text _ => True
  | worked _ => False

def Writable : Segment → Prop
  | text content => content ≠ "" ∧ '<' ∉ content.toList
  | worked details => details.Writable

/-- No two texts in a row, as these cannot be told from one. -/
def Apart (segments : List Segment) : Prop :=
  segments.IsChain fun a b => ¬(a.IsText ∧ b.IsText)

lemma Apart.head? {content : String} {segments : List Segment}
    (h : Apart (text content :: segments)) : ∀ s ∈ segments.head?, ¬s.IsText := by
  intro s hs ht
  cases segments with
  | nil => cases hs
  | cons x segments =>
    cases hs
    exact (List.isChain_cons_cons.1 h).1 ⟨trivial, ht⟩

end Segment

namespace Attribute

def ofOption (name : String) (value : Option String) : List Attribute :=
  (value.map fun v => ⟨name, v⟩).toList

lemma join_ofOption (name : String) (value : Option String) :
    String.join ((ofOption name value).map render) = writeOption name value := by
  cases value <;> simp [ofOption, render, writeOption]

lemma plain_of_name {name value : String} (hn : name ∈ ["name", "src", "module", "deps"])
    (hv : '"' ∉ value.toList) : Plain ⟨name, value⟩ where
  name_ne := by
    rintro rfl
    revert hn
    decide
  name_char := by
    have h : ∀ n ∈ ["name", "src", "module", "deps"],
        n.toList.all fun c => isNameChar c && !isQuote c && c.toLower == c := by decide
    simpa [and_assoc] using h name hn
  value_char := hv

lemma plain_of_mem_ofOption {name : String} {value : Option String}
    (hn : name ∈ ["name", "src", "module", "deps"]) (hv : ∀ v, value = some v → '"' ∉ v.toList) :
    ∀ a ∈ ofOption name value, a.Plain := by
  intro a ha
  cases value with
  | none => cases ha
  | some v =>
    obtain rfl := List.mem_singleton.1 ha
    exact plain_of_name hn (hv v rfl)

end Attribute

namespace ExampleFile

def attributes (f : ExampleFile) : List Attribute :=
  ⟨"name", f.name⟩ :: Attribute.ofOption "src" f.src

lemma write_eq (f : ExampleFile) :
    f.write = renderStart "file" f.attributes ++ (f.content ++ renderEnd "file") := by
  have hn : "<file name=\"" = "<" ++ "file" ++ (" " ++ "name" ++ "=\"") := by decide
  have he : renderEnd "file" = "</file>" := by decide
  rw [renderStart, attributes, List.map_cons, String.join_cons, Attribute.join_ofOption]
  simp only [write, hn, he, Attribute.render, String.append_assoc, String.join_cons, String.join_nil,
    String.append_empty]

lemma plain_attributes (f : ExampleFile) (h : f.Writable) : ∀ a ∈ f.attributes, a.Plain := by
  intro a ha
  rcases List.mem_cons.1 ha with rfl | ha
  · exact Attribute.plain_of_name (by decide) h.name
  · exact Attribute.plain_of_mem_ofOption (by decide) h.src a ha

lemma nodup_attributes (f : ExampleFile) : (f.attributes.map Attribute.name).Nodup := by
  obtain ⟨name, content, src⟩ := f
  cases src <;> simp [attributes, Attribute.ofOption]

end ExampleFile

namespace Example

def attributes (e : Example) : List Attribute :=
  Attribute.ofOption "module" e.module ++ Attribute.ofOption "deps" e.deps

lemma write_eq (e : Example) :
    e.write = renderStart "example" e.attributes ++
      (String.join (e.files.map ExampleFile.write) ++ renderEnd "example") := by
  rw [renderStart, attributes, List.map_append, String.join_append, Attribute.join_ofOption,
    Attribute.join_ofOption]
  have hn : "<example" = "<" ++ "example" := by decide
  have he : renderEnd "example" = "</example>" := by decide
  simp only [write, hn, he, String.append_assoc, String.join_cons, String.join_nil,
    String.append_empty]

lemma plain_attributes (e : Example) (h : e.Writable) : ∀ a ∈ e.attributes, a.Plain := by
  intro a ha
  rcases List.mem_append.1 ha with ha | ha
  · exact Attribute.plain_of_mem_ofOption (by decide) h.module a ha
  · exact Attribute.plain_of_mem_ofOption (by decide) h.deps a ha

lemma nodup_attributes (e : Example) : (e.attributes.map Attribute.name).Nodup := by
  obtain ⟨module, deps, files⟩ := e
  cases module <;> cases deps <;> simp [attributes, Attribute.ofOption]

end Example

namespace Event

lemma plainName_file : Token.PlainName "file" :=
  .of_all (by decide) (by decide)

lemma plainName_example : Token.PlainName "example" :=
  .of_all (by decide) (by decide)

def ofFile (f : ExampleFile) : List Event :=
  opened "file" f.attributes :: (ofRun f.content.toList ++ [closed "file"])

def ofExample (e : Example) : List Event :=
  opened "example" e.attributes :: (e.files.flatMap ofFile ++ [closed "example"])

def ofSegment : Segment → List Event
  | .text content => ofRun content.toList
  | .worked details => ofExample details

lemma ofChars_write_file {f : ExampleFile} (h : f.Writable) (stack : List String)
    (rest : List Char) :
    ofChars stack (f.write.toList ++ rest) = ofFile f ++ ofChars stack rest := by
  have hs := ofChars_renderStart plainName_file (by decide) (by decide) (f.plain_attributes h)
    f.nodup_attributes stack (List.not_mem_nil (a := '<'))
    (f.content.toList ++ ((renderEnd "file").toList ++ rest))
  rw [ofChars_renderEnd plainName_file stack h.content rest, List.nil_append] at hs
  simp only [ExampleFile.write_eq, String.toList_append, List.append_assoc, hs, ofFile]
  simp [ofRun]

lemma ofChars_write_files {files : List ExampleFile} (h : ∀ f ∈ files, f.Writable)
    (stack : List String) (rest : List Char) :
    ofChars stack ((String.join (files.map ExampleFile.write)).toList ++ rest) =
      files.flatMap ofFile ++ ofChars stack rest := by
  induction files with
  | nil => simp
  | cons f files ih =>
    rw [List.map_cons, String.join_cons, String.toList_append, List.append_assoc,
      ofChars_write_file (h f List.mem_cons_self),
      ih fun x hx => h x (List.mem_cons_of_mem f hx), List.flatMap_cons, List.append_assoc]

lemma ofChars_write_example {e : Example} (h : e.Writable) {t : List Char} (ht : '<' ∉ t)
    (stack : List String) (rest : List Char) :
    ofChars stack (t ++ (e.write.toList ++ rest)) =
      ofRun t ++ ofExample e ++ ofChars stack rest := by
  have he := ofChars_renderEnd plainName_example stack (List.not_mem_nil (a := '<')) rest
  have hs := ofChars_renderStart plainName_example (by decide) (by decide) (e.plain_attributes h)
    e.nodup_attributes stack ht ((String.join (e.files.map ExampleFile.write)).toList ++
      ((renderEnd "example").toList ++ rest))
  rw [List.nil_append] at he
  rw [ofChars_write_files h.files, he] at hs
  simp only [Example.write_eq, String.toList_append, List.append_assoc] at hs ⊢
  rw [hs]
  simp [ofExample, ofRun]

lemma ofChars_write {segments : List Segment} (hw : ∀ s ∈ segments, s.Writable)
    (hc : Segment.Apart segments) {t : List Char} (ht : '<' ∉ t)
    (hh : t ≠ [] → ∀ s ∈ segments.head?, ¬s.IsText) :
    ofChars [] (t ++ (String.join (segments.map Segment.write)).toList) =
      ofRun t ++ segments.flatMap ofSegment := by
  -- A text waits in `t` for the example after it, as both are read from there.
  induction segments generalizing t with
  | nil => simpa using ofChars_of_notMem ht
  | cons s segments ih =>
    have hw' : ∀ x ∈ segments, x.Writable := fun x hx => hw x (List.mem_cons_of_mem s hx)
    have hc' := (List.IsChain.of_cons hc)
    have hs := hw s List.mem_cons_self
    rw [List.map_cons, String.join_cons, String.toList_append, List.flatMap_cons]
    cases s with
    | text content =>
      obtain rfl : t = [] := by
        by_contra hne
        exact hh hne _ rfl trivial
      exact ih hw' hc' hs.2 fun _ => hc.head?
    | worked details =>
      have hrest := ih hw' hc' (List.not_mem_nil (a := '<')) (fun h => (h rfl).elim)
      rw [List.nil_append] at hrest
      rw [Segment.write, ofChars_write_example hs ht, hrest, List.append_assoc]
      rfl

end Event

namespace Assembly

lemma fileOf_attributes (f : ExampleFile) : fileOf f.attributes = { f with content := "" } := by
  obtain ⟨name, content, src⟩ := f
  cases src <;> rfl

lemma exampleOf_attributes (e : Example) : exampleOf e.attributes = { e with files := [] } := by
  obtain ⟨module, deps, files⟩ := e
  cases module <;> cases deps <;> rfl

lemma foldl_ofFile (done : List Segment) (e : Example) (f : ExampleFile) :
    (Event.ofFile f).foldl step ⟨done, none, some e, none⟩ =
      ⟨done, none, some { e with files := e.files ++ [f] }, none⟩ := by
  have hn : isExampleName "file" = false := by decide
  have hf := fileOf_attributes f
  by_cases hc : f.content = ""
  · have he : { f with content := "" } = f := by
      cases f
      cases hc
      rfl
    simp [Event.ofFile, Event.ofRun, step, hn, openFile, closeFile, hf, hc, he]
  · simp [Event.ofFile, Event.ofRun, step, hn, openFile, closeFile, addText, hf, hc]

lemma foldl_ofFiles (done : List Segment) (e : Example) (files : List ExampleFile) :
    (files.flatMap Event.ofFile).foldl step ⟨done, none, some e, none⟩ =
      ⟨done, none, some { e with files := e.files ++ files }, none⟩ := by
  induction files generalizing e with
  | nil => simp
  | cons f files ih =>
    rw [List.flatMap_cons, List.foldl_append, foldl_ofFile, ih]
    simp

lemma foldl_ofExample (done : List Segment) {run : Option String} (hr : run ≠ some "")
    (e : Example) :
    (Event.ofExample e).foldl step ⟨done, run, none, none⟩ =
      ⟨done ++ run.toList.map Segment.text ++ [.worked e], none, none, none⟩ := by
  have hn : isExampleName "example" = true := by decide
  have he := exampleOf_attributes e
  have ho : step ⟨done, run, none, none⟩ (.opened "example" e.attributes) =
      ⟨done ++ run.toList.map Segment.text, none, some { e with files := [] }, none⟩ := by
    cases run with
    | none => simp [step, hn, openExample, flushExample, flushText, he]
    | some t =>
      have ht : t ≠ "" := fun h => hr (congrArg some h)
      simp [step, hn, openExample, flushExample, flushText, he, ht]
  rw [Event.ofExample, List.foldl_cons, ho, List.foldl_append, foldl_ofFiles]
  simp [step, hn, closeExample, flushExample, flushText]

lemma finish_foldl_ofSegment (done : List Segment) (run : Option String) (hr : run ≠ some "")
    {segments : List Segment} (hw : ∀ s ∈ segments, s.Writable)
    (hc : Segment.Apart segments)
    (hh : run.isSome → ∀ s ∈ segments.head?, ¬s.IsText) :
    ((segments.flatMap Event.ofSegment).foldl step ⟨done, run, none, none⟩).finish =
      done ++ run.toList.map Segment.text ++ segments := by
  induction segments generalizing done run with
  | nil => simp [finish, flushExample]
  | cons s segments ih =>
    have hw' : ∀ x ∈ segments, x.Writable := fun x hx => hw x (List.mem_cons_of_mem s hx)
    rw [List.flatMap_cons, List.foldl_append]
    cases s with
    | text content =>
      have hs := hw _ List.mem_cons_self
      obtain rfl : run = none := by
        by_contra hne
        exact hh (Option.isSome_iff_ne_none.2 hne) _ rfl trivial
      have hstep : (Event.ofSegment (.text content)).foldl step ⟨done, none, none, none⟩ =
          ⟨done, some content, none, none⟩ := by
        simp [Event.ofSegment, Event.ofRun, hs.1, step, addText]
      rw [hstep, ih done (some content) (by simpa using hs.1) hw' (List.IsChain.of_cons hc)
        fun _ => hc.head?]
      simp
    | worked details =>
      rw [Event.ofSegment, foldl_ofExample done hr,
        ih _ none (by simp) hw' (List.IsChain.of_cons hc) (fun h => by cases h)]
      simp

end Assembly

theorem ofMarkup_write {segments : List Segment} (hw : ∀ s ∈ segments, s.Writable)
    (hc : Segment.Apart segments) :
    Segment.ofMarkup (String.join (segments.map Segment.write)) = segments := by
  have he := Event.ofChars_write hw hc (List.not_mem_nil (a := '<')) (fun h => (h rfl).elim)
  have hf := Assembly.finish_foldl_ofSegment [] none (by simp) hw hc (fun h => by cases h)
  exact (congrArg Segment.ofEvents he).trans hf

theorem ofMarkup_write_signs :
    let segments : List Segment :=
      [.text "a > b\n",
        .worked ⟨some "", some "it's <b>\n>", [⟨"x.js", "", some ""⟩, ⟨"", "f(\"x\")", none⟩]⟩,
        .worked ⟨none, none, []⟩, .text " "]
    (∀ s ∈ segments, s.Writable) ∧ Segment.Apart segments ∧
      Segment.ofMarkup (String.join (segments.map Segment.write)) = segments := by
  intro segments
  have hf : ∀ f ∈ ([⟨"x.js", "", some ""⟩, ⟨"", "f(\"x\")", none⟩] : List ExampleFile),
      f.Writable := by
    simp only [List.forall_mem_cons]
    exact ⟨⟨by simp, by simp, by simp⟩, ⟨by simp, by simp, by simp⟩, by simp⟩
  have hw : ∀ s ∈ segments, s.Writable := by
    simp only [segments, List.forall_mem_cons]
    exact ⟨by simp [Segment.Writable], ⟨by simp, by simp, hf⟩, ⟨by simp, by simp, by simp⟩,
      by simp [Segment.Writable], by simp⟩
  have hc : Segment.Apart segments := by simp [Segment.Apart, segments, Segment.IsText]
  exact ⟨hw, hc, ofMarkup_write hw hc⟩

end DocHarvest.Markup
