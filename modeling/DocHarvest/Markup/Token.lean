import DocHarvest.Markup.Attribute

/-! Markup as a list of tokens: runs of text and complete constructs. Each token keeps the text it
was read from. -/

namespace DocHarvest.Markup

open Text

inductive Token where
  | text (content : String)
  | startTag (source : String) (name : String) (attributes : List Attribute)
  | endTag (source : String) (name : String)
  /-- Comments, declarations and processing instructions. -/
  | skipped (source : String)
deriving DecidableEq, Repr

namespace Token

def source : Token → String
  | text content => content
  | startTag source _ _ => source
  | endTag source _ => source
  | skipped source => source

/-- Elements whose content is text up to their own end tag. -/
def rawNames : List String :=
  ["script", "style"]

/-- What a `<` turns out to be, from the text after it. -/
inductive Reading where
  /-- A complete construct, and what follows it. -/
  | mark (token : Token) (rest : List Char)
  /-- The `<` stands for itself. -/
  | plain
  /-- A construct that never ends: all that is left is text. -/
  | endless
deriving DecidableEq, Repr

def isTagNameChar (c : Char) : Bool :=
  !isBlank c && c != '/' && c != '>'

def tagName (s : List Char) : String :=
  String.ofList (lowerAscii (s.takeWhile isTagNameChar))

/-- The text of a construct: the `<` and what was read of `s` up to `rest`. -/
def spelled (s rest : List Char) : String :=
  String.ofList ('<' :: s.take (s.length - rest.length))

def readToAngle (token : String → Token) (s : List Char) : Reading :=
  match cutAtChar? '>' s with
  | some (_, rest) => .mark (token (spelled s rest)) rest
  | none => .endless

/-- A comment, which the end of the text may end too. -/
def readComment (s : List Char) : Reading :=
  match cutAt? "-->".toList (s.drop 3) with
  | some (_, rest) => .mark (skipped (spelled s rest)) rest
  | none => .mark (skipped (spelled s [])) []

def readStartTag (s : List Char) : Reading :=
  match Attribute.read? (s.dropWhile isTagNameChar) with
  | some (attributes, rest) => .mark (startTag (spelled s rest) (tagName s) attributes) rest
  | none => .plain

def opensComment (s : List Char) : Bool :=
  "!--".toList.isPrefixOf s

def opensDeclaration : List Char → Bool
  | c :: s => c == '?' || (c == '!' && s.head?.any fun x => x != '-' && x != '>')
  | [] => false

def opensEndTag : List Char → Bool
  | c :: s => c == '/' && s.head?.any Char.isAlpha
  | [] => false

def opensStartTag (s : List Char) : Bool :=
  s.head?.any Char.isAlpha

/-- Reads the construct whose `<` has just been passed. -/
def read (s : List Char) : Reading :=
  if opensComment s then readComment s
  else if opensDeclaration s then readToAngle skipped s
  else if opensEndTag s then readToAngle (endTag · (tagName s.tail)) s
  else if opensStartTag s then readStartTag s
  else .plain

/-- The text before the first construct, and that construct with what follows it. -/
def next : List Char → List Char × Option (Token × List Char)
  | [] => ([], none)
  | c :: s =>
    if c == '<' then
      match read s with
      | .mark token rest => ([], some (token, rest))
      | .plain => (next s).map (c :: ·) id
      | .endless => (c :: s, none)
    else (next s).map (c :: ·) id

/-- An end tag of `name` starts here, in letters of either case. -/
def atEndTag (name : String) (s : List Char) : Bool :=
  ("</".toList ++ name.toList).isPrefixOf (lowerAscii (s.take (name.length + 2)))

/-- The raw content that follows a token, and what is left. -/
def rawContent (token : Token) (s : List Char) : List Char × List Char :=
  match token with
  | startTag _ name _ => if rawNames.contains name then breakWhere (atEndTag name) s else ([], s)
  | _ => ([], s)

/-- A run of text as a token, unless it is empty. -/
def ofText (s : List Char) : List Token :=
  if s.isEmpty then [] else [text (String.ofList s)]

theorem suffix_of_readToAngle {f : String → Token} {s rest : List Char} {token : Token}
    (h : readToAngle f s = .mark token rest) : rest <:+ s := by
  rw [readToAngle] at h
  split at h
  · next before after hc =>
    simp only [Reading.mark.injEq] at h
    exact ⟨before ++ ['>'], by simp [← h.2, eq_of_cutAtChar? hc]⟩
  · simp at h

theorem suffix_of_readComment {s rest : List Char} {token : Token}
    (h : readComment s = .mark token rest) : rest <:+ s := by
  rw [readComment] at h
  split at h
  · next before after hc =>
    simp only [Reading.mark.injEq] at h
    rw [← h.2]
    refine List.IsSuffix.trans ⟨before ++ "-->".toList, ?_⟩ (List.drop_suffix 3 s)
    rw [eq_of_cutAt? hc]
  · simp only [Reading.mark.injEq] at h
    simp [← h.2]

theorem suffix_of_readStartTag {s rest : List Char} {token : Token}
    (h : readStartTag s = .mark token rest) : rest <:+ s := by
  rw [readStartTag] at h
  split at h
  · next attributes after ha =>
    simp only [Reading.mark.injEq] at h
    rw [← h.2]
    exact (Attribute.read?_suffix ha).trans (List.dropWhile_suffix _)
  · simp at h

theorem suffix_of_read {s rest : List Char} {token : Token} (h : read s = .mark token rest) :
    rest <:+ s := by
  rw [read] at h
  split at h
  · exact suffix_of_readComment h
  · split at h
    · exact suffix_of_readToAngle h
    · split at h
      · exact suffix_of_readToAngle h
      · split at h
        · exact suffix_of_readStartTag h
        · simp at h

theorem length_lt_of_next {s before rest : List Char} {token : Token}
    (h : next s = (before, some (token, rest))) : rest.length < s.length := by
  induction s generalizing before with
  | nil => simp [next] at h
  | cons c s ih =>
    rw [next] at h
    split at h
    · split at h
      · next hr =>
        simp only [Prod.mk.injEq, Option.some.injEq] at h
        rw [← h.2.2]
        exact Nat.lt_succ_of_le (suffix_of_read hr).length_le
      · have hn : (next s).2 = some (token, rest) := congrArg Prod.snd h
        exact Nat.lt_succ_of_lt (ih (Prod.ext rfl hn))
      · simp at h
    · have hn : (next s).2 = some (token, rest) := congrArg Prod.snd h
      exact Nat.lt_succ_of_lt (ih (Prod.ext rfl hn))

theorem rawContent_append (token : Token) (s : List Char) :
    (rawContent token s).1 ++ (rawContent token s).2 = s := by
  cases token with
  | startTag source name attributes =>
    rw [rawContent]
    split
    · exact breakWhere_append _ s
    · rfl
  | _ => rfl

theorem length_rawContent_le (token : Token) (s : List Char) :
    (rawContent token s).2.length ≤ s.length := by
  have h := congrArg List.length (rawContent_append token s)
  rw [List.length_append] at h
  omega

def tokens (s : List Char) : List Token :=
  match _h : next s with
  | (before, none) => ofText before
  | (before, some (token, rest)) =>
    ofText before ++ token :: (ofText (rawContent token rest).1 ++ tokens (rawContent token rest).2)
termination_by s.length
decreasing_by exact Nat.lt_of_le_of_lt (length_rawContent_le token rest) (length_lt_of_next _h)

def ofMarkup (markup : String) : List Token :=
  tokens markup.toList

end Token

end DocHarvest.Markup
