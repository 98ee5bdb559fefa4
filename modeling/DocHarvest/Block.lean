import DocHarvest.Source
import DocHarvest.Text.Split

/-! Documentation blocks of a source. A page is one block; any other source has one block for each
comment that opens with a slash and two stars. Such a block reaches up to the run of stars that
closes the comment, or to the end of the source. -/

namespace DocHarvest

open Text

inductive Layout where
  | comment
  | page
deriving DecidableEq, Repr

structure Block where
  layout : Layout
  text : String
deriving DecidableEq, Repr

namespace Block

def isStar (c : Char) : Bool :=
  c == '*'

def opensComment (s : List Char) : Bool :=
  "/**".toList.isPrefixOf s

def closesComment : List Char → Bool
  | c :: s => isStar c && (s.dropWhile isStar).head? == some '/'
  | [] => false

/-- The comments of a text that have a body, in order. -/
def comments (s : List Char) : List (List Char) :=
  match s with
  | [] => []
  | c :: t =>
    if opensComment (c :: t) && !(t.dropWhile isStar).isEmpty then
      (c :: t.takeWhile isStar ++ (breakWhere closesComment (t.dropWhile isStar)).1)
        :: comments (breakWhere closesComment (t.dropWhile isStar)).2
    else comments t
termination_by s.length
decreasing_by
  · have h := congrArg List.length (breakWhere_append closesComment (t.dropWhile isStar))
    have hd := (List.dropWhile_suffix (l := t) isStar).length_le
    rw [List.length_append] at h
    rw [List.length_cons]
    omega
  · simp

end Block

def Source.layout (s : Source) : Layout :=
  if s.extension == "ngdoc" then .page else .comment

def Source.blocks (s : Source) : List Block :=
  match s.layout with
  | .page => [⟨.page, s.content⟩]
  | .comment => (Block.comments s.content.toList).map fun b => ⟨.comment, String.ofList b⟩

end DocHarvest
