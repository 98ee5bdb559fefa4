import DocHarvest.Proofs.Markup.Nesting
import DocHarvest.Proofs.Markup.Passthrough

/-! Nested events in which a file holds nothing but elements that are written back. -/

namespace DocHarvest.Markup

namespace Event

/-- With the elements on `stack` open, no example and no file is opened inside a file. -/
def filesFlat : List String → List Event → Bool
  | _, [] => true
  | stack, opened name _ :: es =>
    !(isMarkName name && stack.contains "file") && filesFlat (name :: stack) es
  | stack, closed _ :: es => filesFlat stack.tail es
  | stack, text _ :: es => filesFlat stack es

/-- Events, read with the elements on `stack` open, in which a file holds only what is written back. -/
inductive Flat : List String → List Event → Prop
  | nil : Flat [] []
  | plain {stack left : List String} {e : Event} {es : List Event} : ¬e.isMark →
      leave? stack [e] = some left → Flat left es → Flat stack (e :: es)
  | exampleStart {stack : List String} {name : String} {es : List Event}
      (attributes : List Attribute) : isExampleName name → Flat (name :: stack) es →
      Flat stack (opened name attributes :: es)
  | exampleEnd {stack : List String} {name : String} {es : List Event} : isExampleName name →
      Flat stack es → Flat (name :: stack) (closed name :: es)
  | file {stack : List String} {inner es : List Event} (attributes : List Attribute) :
      Nested inner → (∀ e ∈ inner, ¬e.isMark) → Flat stack es →
      Flat stack (opened "file" attributes :: (inner ++ closed "file" :: es))

lemma split_of_leave? {es : List Event} {stack : List String} {name : String}
    (above : List String) (h : leave? (above ++ name :: stack) es = some []) :
    ∃ inner after, es = inner ++ closed name :: after ∧ leave? above inner = some [] ∧
      leave? stack after = some [] := by
  induction es generalizing above with
  | nil =>
    rw [leave?, Option.some.injEq] at h
    exact (List.append_ne_nil_of_right_ne_nil above (List.cons_ne_nil name stack) h).elim
  | cons e es ih =>
    cases e with
    | opened top attributes =>
      obtain ⟨inner, after, rfl, hi, ha⟩ := ih (top :: above) h
      exact ⟨Event.opened top attributes :: inner, after, rfl, hi, ha⟩
    | text content =>
      obtain ⟨inner, after, rfl, hi, ha⟩ := ih above h
      exact ⟨Event.text content :: inner, after, rfl, hi, ha⟩
    | closed top =>
      obtain ⟨outer, ho, hl⟩ := exists_of_leave?_closed h
      cases above with
      | nil =>
        cases ho
        exact ⟨[], es, rfl, rfl, hl⟩
      | cons last above =>
        cases ho
        obtain ⟨inner, after, rfl, hi, ha⟩ := ih above hl
        refine ⟨Event.closed top :: inner, after, rfl, ?_, ha⟩
        rw [leave?, if_pos rfl, hi]

lemma filesFlat_append {stack left : List String} {es fs : List Event}
    (h : leave? stack es = some left) :
    filesFlat stack (es ++ fs) = (filesFlat stack es && filesFlat left fs) := by
  induction es generalizing stack with
  | nil =>
    cases h
    rfl
  | cons e es ih =>
    cases e with
    | opened name attributes =>
      simp only [List.cons_append, filesFlat, ih h, Bool.and_assoc]
    | text content => exact ih h
    | closed name =>
      obtain ⟨outer, rfl, ho⟩ := exists_of_leave?_closed h
      exact ih ho

lemma not_isMark_of_filesFlat {es : List Event} {outer left : List String}
    (ho : "file" ∈ outer) (above : List String) (ha : ∀ name ∈ above, ¬isMarkName name)
    (h : leave? above es = some left) (hf : filesFlat (above ++ outer) es) :
    ∀ e ∈ es, ¬e.isMark := by
  -- All that is open above the file was opened in it, so it is no mark and neither is its end.
  induction es generalizing above with
  | nil => exact fun e he => (List.not_mem_nil he).elim
  | cons e es ih =>
    rw [List.forall_mem_cons]
    cases e with
    | text content => exact ⟨Bool.false_ne_true, ih above ha h hf⟩
    | opened name attributes =>
      simp only [filesFlat, Bool.and_eq_true, Bool.not_eq_true', Bool.and_eq_false_iff] at hf
      have hn : ¬isMarkName name := by
        rcases hf.1 with hn | hc
        · simp [hn]
        · simp [ho] at hc
      refine ⟨hn, ih (name :: above) ?_ h hf.2⟩
      rw [List.forall_mem_cons]
      exact ⟨hn, ha⟩
    | closed name =>
      obtain ⟨above, rfl, hl⟩ := exists_of_leave?_closed h
      rw [List.forall_mem_cons] at ha
      exact ⟨ha.1, ih above ha.2 hl hf⟩

lemma isExampleName_of_isMarkName {name : String} (hn : name ≠ "file") (h : isMarkName name) :
    isExampleName name := by
  rw [isMarkName, Bool.or_eq_true, beq_iff_eq] at h
  exact h.resolve_right hn

lemma flat_of_filesFlat {es : List Event} {stack : List String} (h : leave? stack es = some [])
    (hs : "file" ∉ stack) (hf : filesFlat stack es) : Flat stack es := by
  -- A file is passed as a whole, hence the induction on the length.
  induction hn : es.length using Nat.strong_induction_on generalizing es stack with
  | h n ih =>
    cases es with
    | nil =>
      cases h
      exact .nil
    | cons e es =>
      have hlen : es.length < n := by simp [← hn]
      cases e with
      | text content => exact .plain Bool.false_ne_true rfl (ih _ hlen h hs hf rfl)
      | opened name attributes =>
        simp only [filesFlat, Bool.and_eq_true] at hf
        by_cases hname : name = "file"
        · subst hname
          obtain ⟨inner, after, rfl, hi, ha⟩ := split_of_leave? [] h
          have hu : leave? ("file" :: stack) inner = some ("file" :: stack) :=
            leave?_under hi ("file" :: stack)
          rw [filesFlat_append hu, Bool.and_eq_true] at hf
          have hfile : "file" ∈ "file" :: stack := List.mem_cons_self
          have hmark := not_isMark_of_filesFlat hfile [] (by simp) hi hf.2.1
          refine .file attributes hi hmark (ih _ ?_ ha hs hf.2.2 rfl)
          simp only [List.length_append, List.length_cons] at hlen
          omega
        · have hs' : "file" ∉ name :: stack := by
            rw [List.mem_cons, not_or]
            exact ⟨Ne.symm hname, hs⟩
          have hflat : Flat (name :: stack) es := ih _ hlen h hs' hf.2 rfl
          by_cases hm : isMarkName name
          · exact .exampleStart attributes (isExampleName_of_isMarkName hname hm) hflat
          · exact .plain hm rfl hflat
      | closed name =>
        obtain ⟨stack, rfl, hl⟩ := exists_of_leave?_closed h
        rw [List.mem_cons, not_or] at hs
        have hflat := ih _ hlen hl hs.2 hf rfl
        by_cases hm : isMarkName name
        · exact .exampleEnd (isExampleName_of_isMarkName (Ne.symm hs.1) hm) hflat
        · exact .plain hm (by simp [leave?]) hflat

lemma not_isExampleName_file : ¬isExampleName "file" := by
  decide

lemma isMark_file (attributes : List Attribute) :
    (opened "file" attributes).isMark ∧ (closed "file").isMark := by
  have h : isMarkName "file" := by decide
  exact ⟨h, h⟩

lemma ne_file_of_isExampleName {name : String} (h : isExampleName name) : name ≠ "file" := by
  rintro rfl
  exact not_isExampleName_file h

lemma Flat.file_notMem {stack : List String} {es : List Event} (h : Flat stack es) :
    "file" ∉ stack := by
  induction h with
  | nil => exact List.not_mem_nil
  | @plain stack left e es hm hl _ ih =>
    cases e with
    | text content =>
      cases hl
      exact ih
    | opened name attributes =>
      cases hl
      exact fun hs => ih (List.mem_cons_of_mem name hs)
    | closed name =>
      obtain ⟨outer, rfl, ho⟩ := exists_of_leave?_closed hl
      cases ho
      rw [List.mem_cons, not_or]
      refine ⟨?_, ih⟩
      rintro rfl
      exact hm (isMark_file []).2
  | exampleStart _ _ _ ih => exact fun hs => ih (List.mem_cons_of_mem _ hs)
  | exampleEnd hn _ ih =>
    rw [List.mem_cons, not_or]
    exact ⟨Ne.symm (ne_file_of_isExampleName hn), ih⟩
  | file _ _ _ _ ih => exact ih

end Event

end DocHarvest.Markup
