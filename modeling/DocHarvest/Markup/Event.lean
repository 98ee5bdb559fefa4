import DocHarvest.Markup.Token

/-! Markup as a list of events in which every element that is opened is closed again: an end tag
closes what is still open inside its element, one without an open element is ignored, and the end
of the text closes all that is left. -/

namespace DocHarvest.Markup

inductive Event where
  | opened (name : String) (attributes : List Attribute)
  | closed (name : String)
  | text (content : String)
deriving DecidableEq, Repr

namespace Event

def voidNames : List String :=
  ["area", "base", "br", "col", "embed", "hr", "img", "input", "link", "meta", "param", "source",
    "track", "wbr"]

/-- The events of a list of tokens, where `stack` holds the names still open, innermost first. -/
def ofTokens (stack : List String) : List Token → List Event
  | [] => stack.map closed
  | .text content :: ts => text content :: ofTokens stack ts
  | .skipped _ :: ts => ofTokens stack ts
  | .startTag _ name attributes :: ts =>
    if voidNames.contains name then opened name attributes :: closed name :: ofTokens stack ts
    else opened name attributes :: ofTokens (name :: stack) ts
  | .endTag _ name :: ts =>
    match stack.dropWhile (· != name) with
    | [] => ofTokens stack ts
    | _ :: outer =>
      (stack.takeWhile (· != name)).map closed ++ closed name :: ofTokens outer ts

def ofMarkup (markup : String) : List Event :=
  ofTokens [] (Token.ofMarkup markup)

end Event

end DocHarvest.Markup
