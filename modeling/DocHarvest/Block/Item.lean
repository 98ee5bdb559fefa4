import DocHarvest.Block
import DocHarvest.Text.Blank

/-! Items of a block, each the text of one tag. In a comment an item starts at a star that only
blanks part from an at sign, and it ends where the blanks before the next such star begin; on a page
it is a line that starts with an at sign. The stars that decorate the lines of a comment are no part
of an item. -/

namespace DocHarvest.Block

open Text

def marker? : List Char → Option (List Char × List Char)
  | [] => none
  | c :: s =>
    match s.dropWhile isBlank with
    | [] => none
    | a :: body =>
      if isStar c && a == '@' then some (c :: s.takeWhile isBlank ++ [a], body) else none

def atMarker (s : List Char) : Bool :=
  (marker? (trimStart s)).isSome

theorem length_lt_of_marker? {s lead body : List Char} (h : marker? s = some (lead, body)) :
    body.length < s.length := by
  cases s with
  | nil => simp [marker?] at h
  | cons c s =>
    rw [marker?] at h
    have hd := (List.dropWhile_suffix (l := s) isBlank).length_le
    split at h
    · simp at h
    · next a t ht =>
      rw [ht] at hd
      split at h
      · simp only [Option.some.injEq, Prod.mk.injEq] at h
        rw [← h.2]
        simp only [List.length_cons] at hd ⊢
        omega
      · simp at h

/-- The marked items of a comment. A marker without text up to the next one makes no item. -/
def commentItems (s : List Char) : List (List Char) :=
  match s with
  | [] => []
  | c :: t =>
    match _h : marker? (c :: t) with
    | none => commentItems t
    | some (lead, body) =>
      if (breakWhere atMarker body).1.isEmpty then commentItems t
      else (lead ++ (breakWhere atMarker body).1) :: commentItems (breakWhere atMarker body).2
termination_by s.length
decreasing_by
  · simp
  · simp
  · have h := congrArg List.length (breakWhere_append atMarker body)
    have hb := length_lt_of_marker? _h
    rw [List.length_append] at h
    omega

/-- The item of a page's line, which a carriage return ends too. -/
def lineItem? (line : List Char) : Option (List Char) :=
  match line.takeWhile (· != '\r') with
  | a :: c :: rest => if a == '@' then some (a :: c :: rest) else none
  | _ => none

def pageItems (s : List Char) : List (List Char) :=
  (s.splitOn '\n').filterMap lineItem?

def isIndent (c : Char) : Bool :=
  c == '\t' || c == ' '

/-- Drops the star at the start of a line, and the indentation on both its sides. -/
def stripLine (line : List Char) : List Char :=
  match line.dropWhile isIndent with
  | [] => line
  | c :: rest => if isStar c then rest.dropWhile isIndent else line

def stripDecoration (item : List Char) : List Char :=
  List.intercalate ['\n'] ((item.splitOn '\n').map stripLine)

def items (b : Block) : List (List Char) :=
  let raw := match b.layout with
    | .comment => commentItems b.text.toList
    | .page => pageItems b.text.toList
  raw.map stripDecoration

end DocHarvest.Block
