/-! JSON values and their text. The members of an object keep their order, and a key may stand in it
twice. -/

namespace DocHarvest

inductive Json where
  | null
  | bool (value : Bool)
  | text (value : String)
  | array (items : List Json)
  | object (members : List (String × Json))
deriving Repr

namespace Json

def ofOption : Option String → Json
  | some s => text s
  | none => null

/-- Quotes, backslashes and control characters are escaped; the shortest escape is used. -/
def escapeChar (c : Char) : List Char :=
  if c == '"' then ['\\', '"']
  else if c == '\\' then ['\\', '\\']
  else if c == '\x08' then ['\\', 'b']
  else if c == '\x0c' then ['\\', 'f']
  else if c == '\n' then ['\\', 'n']
  else if c == '\r' then ['\\', 'r']
  else if c == '\t' then ['\\', 't']
  else if c.toNat < 0x20 then
    ['\\', 'u', '0', '0', Nat.digitChar (c.toNat / 16), Nat.digitChar (c.toNat % 16)]
  else [c]

def quote (s : String) : List Char :=
  '"' :: s.toList.flatMap escapeChar ++ ['"']

/-- What stands before an item at some depth, and between a key and its value. -/
structure Style where
  lineBreak : Nat → List Char
  colon : List Char

def Style.compact : Style :=
  ⟨fun _ => [], [':']⟩

def Style.indented : Style :=
  ⟨fun depth => '\n' :: List.replicate (2 * depth) ' ', [':', ' ']⟩

mutual

def write (st : Style) (depth : Nat) : Json → List Char
  | null => "null".toList
  | bool value => (if value then "true" else "false").toList
  | text value => quote value
  | array [] => ['[', ']']
  | array (x :: xs) =>
    '[' :: st.lineBreak (depth + 1) ++ write st (depth + 1) x ++ writeItems st (depth + 1) xs
      ++ st.lineBreak depth ++ [']']
  | object [] => ['{', '}']
  | object (m :: ms) =>
    '{' :: st.lineBreak (depth + 1) ++ writeMember st (depth + 1) m
      ++ writeMembers st (depth + 1) ms ++ st.lineBreak depth ++ ['}']

/-- The items after the first. -/
def writeItems (st : Style) (depth : Nat) : List Json → List Char
  | [] => []
  | x :: xs => ',' :: st.lineBreak depth ++ write st depth x ++ writeItems st depth xs

def writeMember (st : Style) (depth : Nat) : String × Json → List Char
  | (key, value) => quote key ++ st.colon ++ write st depth value

/-- The members after the first. -/
def writeMembers (st : Style) (depth : Nat) : List (String × Json) → List Char
  | [] => []
  | m :: ms => ',' :: st.lineBreak depth ++ writeMember st depth m ++ writeMembers st depth ms

end

def render (st : Style) (j : Json) : String :=
  String.ofList (write st 0 j)

end Json

end DocHarvest
