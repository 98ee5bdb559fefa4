import DocHarvest.Block.Item

/-! Tags of a block: a key after an at sign, and the content that belongs to it. -/

namespace DocHarvest

open Text

inductive Ownership where
  | method
  | property
  | event
  | member
deriving DecidableEq, Repr

inductive Key where
  | kind
  | name
  | module
  | param
  | description
  | examples
  | scope
  | owner (sort : Ownership)
  | other (text : String)
deriving DecidableEq, Repr

def Key.ofText : String → Key
  | "ngdoc" => kind
  | "name" => name
  | "module" => module
  | "param" => param
  | "description" => description
  | "example" => examples
  | "scope" => scope
  | "methodOf" => owner .method
  | "propertyOf" => owner .property
  | "eventOf" => owner .event
  | "memberOf" => owner .member
  | text => other text

structure Tag where
  key : Key
  content : String
deriving DecidableEq, Repr

namespace Tag

def isKeyChar (c : Char) : Bool :=
  c.isAlphanum || c == '_'

/-- The key after the first at sign that has one, and the content without the blanks around it. -/
def keyAndContent? : List Char → Option (List Char × List Char)
  | [] => none
  | c :: s =>
    if c == '@' && s.head?.any isKeyChar then
      some (s.takeWhile isKeyChar, trimEnd (trimStart (s.dropWhile isKeyChar)))
    else keyAndContent? s

def ofItem? (item : List Char) : Option Tag :=
  (keyAndContent? item).map fun (key, content) =>
    ⟨.ofText (String.ofList key), String.ofList content⟩

def descriptionMark : List Char :=
  "@description".toList

/-- On a page the first description mark of a line ends its key, whatever follows. -/
def separateDescription (item : List Char) : List Char :=
  match cutAt? descriptionMark item with
  | some (before, after) => before ++ descriptionMark ++ ' ' :: after
  | none => item

/-- On a page the description is all the text after the page's first description mark. -/
def withWholeDescription (page : List Char) (t : Tag) : Tag :=
  match t.key, cutAt? descriptionMark page with
  | .description, some (_, after) => { t with content := String.ofList after }
  | _, _ => t

end Tag

def Block.tags? (b : Block) : Option (List Tag) :=
  match b.layout with
  | .comment => b.items.mapM Tag.ofItem?
  | .page => b.items.mapM fun item =>
      (Tag.ofItem? (Tag.separateDescription item)).map (Tag.withWholeDescription b.text.toList)

end DocHarvest
