import DocHarvest.Text.Blank
import DocHarvest.Text.Word
import DocHarvest.Text.Lowercase
import DocHarvest.Text.Split

/-! Parameter lines: an optional list of types in braces, a name, and a description. -/

namespace DocHarvest

open Text

structure ParamType where
  name : String
  kind : String
deriving DecidableEq, Repr

structure Param where
  types : Option (List ParamType)
  name : String
  altName : Option String
  description : String
  optional : Bool
  defaultValue : Option String
deriving DecidableEq, Repr

/-- Kind of a type: callables are told by the word `function`, other types by their name in lower
case. -/
def ParamType.kindOf (name : List Char) : List Char :=
  if hasPiece "function".toList name then "function".toList else lower name

/-- Reads one entry of a type list. What follows an equals sign is no part of the name. -/
def ParamType.ofEntry (entry : List Char) : ParamType :=
  let name := entry.takeWhile (· != '=')
  ⟨String.ofList name, String.ofList (kindOf name)⟩

namespace Param

structure Form where
  types : Option (List Char)
  name : List Char
  description : List Char
deriving DecidableEq, Repr

def isNameChar (c : Char) : Bool :=
  isWord c || c == '[' || c == ']' || c == '=' || c == '|'

/-- The description is what follows a run of blanks. When nothing follows, the last blank stands for
it, if a blank is left before it. -/
def description? (s : List Char) : Option (List Char) :=
  match s.takeWhile isBlank, s.dropWhile isBlank with
  | [], _ => none
  | _ :: blanks, [] => blanks.getLast?.map fun c => [c]
  | _ :: _, c :: rest => some (c :: rest)

def nameAndDescription? (s : List Char) : Option (List Char × List Char) :=
  let t := trimStart s
  match t.takeWhile isNameChar with
  | [] => none
  | name => (description? (t.dropWhile isNameChar)).map fun d => (name, d)

/-- Text in braces, without a closing brace inside and not empty, and what follows it. -/
def braced? : List Char → Option (List Char × List Char)
  | '{' :: s =>
    match cutAtChar? '}' s with
    | some (c :: inner, rest) => some (c :: inner, rest)
    | _ => none
  | _ => none

def formHere? (s : List Char) : Option Form :=
  match braced? s with
  | some (types, rest) => (nameAndDescription? rest).map fun (n, d) => ⟨some types, n, d⟩
  | none => (nameAndDescription? s).map fun (n, d) => ⟨none, n, d⟩

/-- The leftmost form in the text. -/
def form? : List Char → Option Form
  | [] => none
  | c :: s =>
    match formHere? (c :: s) with
    | some f => some f
    | none => form? s

/-- Takes a form apart: the first bracket of each sort is no part of the name, a bar divides it from
an alternative name, and an equals sign before that bar starts the default. -/
def Form.toParam (f : Form) : Param :=
  let bare := (f.name.erase '[').erase ']'
  let names := bare.splitOn '|'
  let first := names.headD []
  { types := f.types.map fun t => (t.splitOn '|').map ParamType.ofEntry
    name := String.ofList (first.takeWhile (· != '='))
    altName := names[1]?.map String.ofList
    description := String.ofList f.description
    optional := f.types.any (·.contains '=')
    defaultValue := (cutAtChar? '=' first).map fun p => String.ofList p.2 }

def parse? (line : String) : Option Param :=
  (form? line.toList).map Form.toParam

end Param

end DocHarvest
