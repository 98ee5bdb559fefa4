import DocHarvest.Markup.Event
import Mathlib

/-! The events of a text are nested: an element that is closed is always the innermost of those that
are open, and none is open in the end. -/

namespace DocHarvest.Markup.Event

/-- The names left open, innermost first, by events that find `stack` open. Closing an element that
is not the innermost fails. -/
def leave? : List String → List Event → Option (List String)
  | stack, [] => some stack
  | stack, .opened name _ :: es => leave? (name :: stack) es
  | stack, .text _ :: es => leave? stack es
  | [], .closed _ :: _ => none
  | top :: stack, .closed name :: es => if name = top then leave? stack es else none

def Nested (es : List Event) : Prop :=
  leave? [] es = some []

lemma exists_of_leave?_closed {stack left : List String} {name : String} {es : List Event}
    (h : leave? stack (closed name :: es) = some left) :
    ∃ outer, stack = name :: outer ∧ leave? outer es = some left := by
  cases stack with
  | nil => cases h
  | cons top outer =>
    simp only [leave?] at h
    split at h
    · next hn => exact ⟨outer, by rw [hn], h⟩
    · cases h

lemma leave?_append (stack : List String) (es fs : List Event) :
    leave? stack (es ++ fs) = (leave? stack es).bind (leave? · fs) := by
  induction es generalizing stack with
  | nil => rfl
  | cons e es ih =>
    cases e with
    | opened name attributes => exact ih (name :: stack)
    | text content => exact ih stack
    | closed name =>
      cases stack with
      | nil => rfl
      | cons top stack =>
        simp only [List.cons_append, leave?]
        split
        · exact ih stack
        · rfl

lemma leave?_under {stack left : List String} {es : List Event} (h : leave? stack es = some left)
    (outer : List String) : leave? (stack ++ outer) es = some (left ++ outer) := by
  induction es generalizing stack with
  | nil =>
    cases h
    rfl
  | cons e es ih =>
    cases e with
    | opened name attributes => exact ih h
    | text content => exact ih h
    | closed name =>
      obtain ⟨stack, rfl, hs⟩ := exists_of_leave?_closed h
      simpa only [List.cons_append, leave?, if_true] using ih hs

lemma leave?_map_closed (inner outer : List String) :
    leave? (inner ++ outer) (inner.map closed) = some outer := by
  induction inner with
  | nil => rfl
  | cons name inner ih => simpa only [List.cons_append, List.map_cons, leave?, if_true] using ih

lemma leave?_ofTokens (stack : List String) (ts : List Token) :
    leave? stack (ofTokens stack ts) = some [] := by
  -- The events so far hold open exactly what is on the stack that makes the next ones.
  induction ts generalizing stack with
  | nil => simpa only [ofTokens, List.append_nil] using leave?_map_closed stack []
  | cons t ts ih =>
    cases t with
    | text content => exact ih stack
    | skipped source => exact ih stack
    | startTag source name attributes =>
      rw [ofTokens]
      split
      · simpa only [leave?, if_true] using ih stack
      · exact ih (name :: stack)
    | endTag source name =>
      rw [ofTokens]
      cases hd : stack.dropWhile (· != name) with
      | nil => exact ih stack
      | cons top outer =>
        have ht : top = name := by
          have hh := List.head?_dropWhile_not (· != name) stack
          rw [hd] at hh
          simpa using hh
        have hs := leave?_map_closed (stack.takeWhile (· != name)) (top :: outer)
        rw [← hd, List.takeWhile_append_dropWhile] at hs
        simp only [leave?_append, hs, hd, Option.bind_some, leave?, ht, if_true]
        exact ih outer

lemma opened_of_leave? {es : List Event} {name : String} {stack : List String}
    (h : leave? [] es = some (name :: stack)) :
    ∃ before attributes inner, es = before ++ opened name attributes :: inner ∧
      leave? [] before = some stack ∧ Nested inner := by
  -- An end before the last event is matched first, and the search goes on before its start.
  induction hn : es.length using Nat.strong_induction_on generalizing es name stack with
  | h n ih =>
    rcases List.eq_nil_or_concat es with rfl | ⟨es, e, rfl⟩
    · cases h
    · rw [List.concat_eq_append, leave?_append] at h
      obtain ⟨s, hs, he⟩ := Option.bind_eq_some_iff.1 h
      have hlen : es.length < n := by simp [← hn]
      cases e with
      | opened top attributes =>
        cases he
        exact ⟨es, attributes, [], by simp, hs, rfl⟩
      | text content =>
        cases he
        obtain ⟨before, attributes, inner, rfl, hb, hi⟩ := ih es.length hlen hs rfl
        refine ⟨before, attributes, inner ++ [text content], by simp, hb, ?_⟩
        rw [Nested, leave?_append, hi]
        rfl
      | closed top =>
        obtain ⟨s, rfl, hleft⟩ := exists_of_leave?_closed he
        cases hleft
        obtain ⟨es', attributes', inner', rfl, hb', hi'⟩ := ih es.length hlen hs rfl
        have hlen' : es'.length < n := by
          simp only [List.length_append] at hlen
          omega
        obtain ⟨before, attributes, inner, rfl, hb, hi⟩ := ih es'.length hlen' hb' rfl
        refine ⟨before, attributes,
          inner ++ opened top attributes' :: (inner' ++ [closed top]), by simp, hb, ?_⟩
        have hu := leave?_under hi' [top]
        rw [List.nil_append] at hu
        rw [Nested, leave?_append, hi, Option.bind_some, leave?, leave?_append, hu]
        simp [leave?]

theorem nested_ofMarkup (markup : String) :
    Nested (ofMarkup markup) ∧
    ∀ before name after, ofMarkup markup = before ++ closed name :: after →
      ∃ outer attributes inner, before = outer ++ opened name attributes :: inner ∧
        Nested inner := by
  have hn : Nested (ofMarkup markup) := leave?_ofTokens [] _
  refine ⟨hn, fun before name after h => ?_⟩
  rw [h, Nested, leave?_append] at hn
  obtain ⟨stack, hs, he⟩ := Option.bind_eq_some_iff.1 hn
  cases stack with
  | nil => cases he
  | cons top stack =>
    simp only [leave?] at he
    split at he
    · next ht =>
      obtain ⟨outer, attributes, inner, hb, -, hi⟩ := opened_of_leave? hs
      exact ⟨outer, attributes, inner, ht ▸ hb, hi⟩
    · cases he

end DocHarvest.Markup.Event
