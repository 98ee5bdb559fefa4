import DocHarvest.Json
import Mathlib

/-! The grammar of JSON. A text stands for a tree when it spells the tokens of the tree, one after the
other, with spaces around them or without. -/

namespace DocHarvest.Json

/-- A value without parts. A number is kept as it is written. -/
inductive Scalar where
  | null
  | bool (value : Bool)
  | number (literal : List Char)
  | text (value : String)
deriving DecidableEq

/-- What a text says. Members keep their order, also those with one key. -/
inductive Tree where
  | scalar (value : Scalar)
  | array (items : List Tree)
  | object (members : List (String × Tree))

inductive Token where
  | openArray
  | closeArray
  | openObject
  | closeObject
  | colon
  | comma
  | scalar (value : Scalar)
deriving DecidableEq

namespace Tree

mutual

def tokens : Tree → List Token
  | scalar value => [.scalar value]
  | array [] => [.openArray, .closeArray]
  | array (x :: xs) => .openArray :: (x.tokens ++ itemTokens xs)
  | object [] => [.openObject, .closeObject]
  | object (m :: ms) => .openObject :: (memberTokens m ++ membersTokens ms)

/-- The items after the first, and the end of their array. -/
def itemTokens : List Tree → List Token
  | [] => [.closeArray]
  | x :: xs => .comma :: (x.tokens ++ itemTokens xs)

def memberTokens : String × Tree → List Token
  | (key, value) => .scalar (.text key) :: .colon :: value.tokens

/-- The members after the first, and the end of their object. -/
def membersTokens : List (String × Tree) → List Token
  | [] => [.closeObject]
  | m :: ms => .comma :: (memberTokens m ++ membersTokens ms)

end

end Tree

def isSpace (c : Char) : Bool :=
  c == ' ' || c == '\t' || c == '\n' || c == '\r'

def marks : List (Char × Token) :=
  [('[', .openArray), (']', .closeArray), ('{', .openObject), ('}', .closeObject), (':', .colon),
    (',', .comma)]

def words : List (List Char × Scalar) :=
  [(['n', 'u', 'l', 'l'], .null), (['t', 'r', 'u', 'e'], .bool true),
    (['f', 'a', 'l', 's', 'e'], .bool false)]

/-- Characters that stand for themselves in a quoted text. -/
def isPlain (c : Char) : Bool :=
  0x20 ≤ c.toNat && c != '"' && c != '\\'

def shortEscapes : List (Char × Char) :=
  [('"', '"'), ('\\', '\\'), ('/', '/'), ('b', '\x08'), ('f', '\x0c'), ('n', '\n'), ('r', '\r'),
    ('t', '\t')]

def hexDigit? (c : Char) : Option Nat :=
  if c.isDigit then some (c.toNat - '0'.toNat)
  else if 'a' ≤ c && c ≤ 'f' then some (c.toNat - 'a'.toNat + 10)
  else if 'A' ≤ c && c ≤ 'F' then some (c.toNat - 'A'.toNat + 10)
  else none

/-- The code unit that four hexadecimal digits write. -/
def unit? (digits : List Char) : Option Nat :=
  if digits.length = 4 then digits.foldlM (fun n d => (hexDigit? d).map (16 * n + ·)) 0 else none

/-- The character beyond the first plane that two code units write together. -/
def pair? (high low : Nat) : Option Char :=
  if 0xD800 ≤ high ∧ high < 0xDC00 ∧ 0xDC00 ≤ low ∧ low < 0xE000 then
    some (.ofNat (0x10000 + 0x400 * (high - 0xD800) + (low - 0xDC00)))
  else none

/-- What may follow a backslash, and the character it stands for. -/
inductive Escape : List Char → Char → Prop
  | short {e c : Char} : (e, c) ∈ shortEscapes → Escape [e] c
  | unit {digits : List Char} {n : Nat} : unit? digits = some n → n.isValidChar →
      Escape ('u' :: digits) (.ofNat n)
  | pair {digits digits' : List Char} {high low : Nat} {c : Char} : unit? digits = some high →
      unit? digits' = some low → pair? high low = some c →
      Escape ('u' :: (digits ++ '\\' :: 'u' :: digits')) c

/-- What may stand between quotes, and the text it stands for. -/
inductive Quotes : List Char → List Char → Prop
  | nil : Quotes [] []
  | plain {c : Char} {s t : List Char} : isPlain c → Quotes s t → Quotes (c :: s) (c :: t)
  | escape {c : Char} {e s t : List Char} : Escape e c → Quotes s t →
      Quotes ('\\' :: (e ++ s)) (c :: t)

def isNumberChar (c : Char) : Bool :=
  c.isDigit || ['-', '+', '.', 'e', 'E'].contains c

def isDigits (s : List Char) : Bool :=
  !s.isEmpty && s.all Char.isDigit

/-- The digits before the point start with a zero only if they are one zero. -/
def isWhole (s : List Char) : Bool :=
  s == ['0'] || isDigits s && s.head? != some '0'

def skipSign (signs : List Char) : List Char → List Char
  | [] => []
  | c :: s => if signs.contains c then s else c :: s

def isExponent : List Char → Bool
  | [] => true
  | c :: s => ['e', 'E'].contains c && isDigits (skipSign ['+', '-'] s)

def isFraction : List Char → Bool
  | '.' :: s => isDigits (s.takeWhile Char.isDigit) && isExponent (s.dropWhile Char.isDigit)
  | s => isExponent s

def isNumber (s : List Char) : Bool :=
  let t := skipSign ['-'] s
  isWhole (t.takeWhile Char.isDigit) && isFraction (t.dropWhile Char.isDigit)

/-- The spellings of a token. A number goes on as far as it can. -/
inductive Lexeme (rest : List Char) : List Char → Token → Prop
  | mark {c : Char} {t : Token} : (c, t) ∈ marks → Lexeme rest [c] t
  | word {s : List Char} {v : Scalar} : (s, v) ∈ words → Lexeme rest s (.scalar v)
  | number {s : List Char} : isNumber s → (∀ c ∈ rest.head?, ¬isNumberChar c) →
      Lexeme rest s (.scalar (.number s))
  | text {s t : List Char} : Quotes s t →
      Lexeme rest ('"' :: (s ++ ['"'])) (.scalar (.text (String.ofList t)))

inductive Spells : List Char → List Token → Prop
  | nil : Spells [] []
  | space {c : Char} {s : List Char} {ts : List Token} : isSpace c → Spells s ts →
      Spells (c :: s) ts
  | token {s rest : List Char} {t : Token} {ts : List Token} : Lexeme rest s t → Spells rest ts →
      Spells (s ++ rest) (t :: ts)

/-- The text is a document that stands for the tree. -/
def Document (text : String) (t : Tree) : Prop :=
  Spells text.toList t.tokens

end DocHarvest.Json
