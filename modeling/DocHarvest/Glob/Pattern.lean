import DocHarvest.Text.Split

/-! Wildcard patterns for one name of a path, and for any number of directories. -/

namespace DocHarvest.Glob

open Text

inductive Span where
  | single (c : Char)
  | range (first last : Char)
deriving DecidableEq, Repr

inductive Piece where
  | char (c : Char)
  | anyChar
  | anyRun
  | oneOf (spans : List Span)
  | noneOf (spans : List Span)
deriving DecidableEq, Repr

inductive Component where
  | anyDepth
  | name (pieces : List Piece)
deriving DecidableEq, Repr

def Span.holds (c : Char) : Span → Bool
  | single x => c == x
  | range first last => first ≤ c && c ≤ last

def Piece.holds (c : Char) : Piece → Bool
  | char x => c == x
  | anyChar => true
  | anyRun => true
  | oneOf spans => spans.any (Span.holds c)
  | noneOf spans => !spans.any (Span.holds c)

/-- The test holds of the text or of what is left of it further on. -/
def someTail (test : List Char → Bool) : List Char → Bool
  | [] => test []
  | c :: s => test (c :: s) || someTail test s

def fits : List Piece → List Char → Bool
  | [], s => s.isEmpty
  | .anyRun :: ps, s => someTail (fits ps) s
  | p :: ps, c :: s => p.holds c && fits ps s
  | _ :: _, [] => false

def literal? (pieces : List Piece) : Option (List Char) :=
  pieces.mapM fun
    | .char c => some c
    | _ => none

def spans : List Char → List Span
  | a :: '-' :: b :: s => .range a b :: spans s
  | c :: s => .single c :: spans s
  | [] => []

/-- The inside of a class, which holds at least one character, and what follows the class. -/
def classBody? : List Char → Option (List Char × List Char)
  | [] => none
  | c :: s => (cutAtChar? ']' s).map fun (inner, rest) => (c :: inner, rest)

theorem length_lt_of_classBody? {s inner rest : List Char} (h : classBody? s = some (inner, rest)) :
    rest.length < s.length := by
  cases s with
  | nil => simp [classBody?] at h
  | cons c s =>
    obtain ⟨⟨before, after⟩, hc, he⟩ := Option.map_eq_some_iff.1 h
    simp only [Prod.mk.injEq] at he
    rw [← he.2, eq_of_cutAtChar? hc]
    simp
    omega

/-- Reads the pieces of a name. A class must be closed, and two stars cannot stand side by side. -/
def pieces? (s : List Char) : Option (List Piece) :=
  match s with
  | [] => some []
  | c :: s =>
    if c == '?' then (pieces? s).map (.anyChar :: ·)
    else if c == '*' then
      if s.head? == some '*' then none else (pieces? s).map (.anyRun :: ·)
    else if c == '[' then
      match s with
      | [] => none
      | x :: t =>
        if x == '!' then
          match _h : classBody? t with
          | some (inner, rest) => (pieces? rest).map (.noneOf (spans inner) :: ·)
          | none => none
        else
          match _h : classBody? (x :: t) with
          | some (inner, rest) => (pieces? rest).map (.oneOf (spans inner) :: ·)
          | none => none
    else (pieces? s).map (.char c :: ·)
termination_by s.length
decreasing_by
  · simp
  · simp
  · have := length_lt_of_classBody? _h
    simp
    omega
  · have := length_lt_of_classBody? _h
    simp at *
    omega
  · simp

/-- Two stars alone stand for any number of directories. -/
def component? (text : List Char) : Option Component :=
  if text == ['*', '*'] then some .anyDepth else (pieces? text).map .name

end DocHarvest.Glob
