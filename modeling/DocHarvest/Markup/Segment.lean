import DocHarvest.Markup.Event

/-! Segments of a description: runs of text, and worked examples with their files. An example is an
element named `example`, alone or after a namespace and a colon; every other element is written back
into the text. -/

namespace DocHarvest.Markup

open Text

structure ExampleFile where
  name : String
  content : String
  src : Option String
deriving DecidableEq, Repr

structure Example where
  module : Option String
  deps : Option String
  files : List ExampleFile
deriving DecidableEq, Repr

inductive Segment where
  | text (content : String)
  | worked (details : Example)
deriving DecidableEq, Repr

/-- Segments on the way: those that are complete, and the text, the example and the file that are
still open. No text differs from an empty text. -/
structure Assembly where
  segments : List Segment
  text : Option String
  worked : Option Example
  file : Option ExampleFile
deriving DecidableEq, Repr

def isExampleName (name : String) : Bool :=
  match cutAtChar? ':' name.toList with
  | some (space, part) => !space.isEmpty && part == "example".toList
  | none => name == "example"

def Attribute.render (a : Attribute) : String :=
  " " ++ a.name ++ "=\"" ++ a.value ++ "\""

def renderStart (name : String) (attributes : List Attribute) : String :=
  "<" ++ name ++ String.join (attributes.map Attribute.render) ++ ">"

def renderEnd (name : String) : String :=
  "</" ++ name ++ ">"

namespace Assembly

def empty : Assembly :=
  ⟨[], none, none, none⟩

def addText (content : String) (a : Assembly) : Assembly :=
  { a with text := some (a.text.getD "" ++ content) }

def flushText (a : Assembly) : Assembly :=
  match a.text with
  | some t =>
    { a with
      segments := if t.isEmpty then a.segments else a.segments ++ [.text t]
      text := none }
  | none => a

def flushExample (a : Assembly) : Assembly :=
  match a.worked with
  | some e => { a with segments := a.segments ++ [.worked e], worked := none }
  | none => a

def exampleOf (attributes : List Attribute) : Example where
  module := Attribute.lookup attributes "module"
  deps := Attribute.lookup attributes "deps"
  files := []

def openExample (attributes : List Attribute) (a : Assembly) : Assembly :=
  { a.flushExample.flushText with worked := some (exampleOf attributes) }

def closeExample (a : Assembly) : Assembly :=
  a.flushText.flushExample

def fileOf (attributes : List Attribute) : ExampleFile where
  name := (Attribute.lookup attributes "name").getD ""
  content := ""
  src := Attribute.lookup attributes "src"

/-- Blank text before a file is dropped. -/
def openFile (attributes : List Attribute) (a : Assembly) : Assembly :=
  let b := if a.text.any (!·.toList.all isBlank) then a.flushText else a
  { b with text := none, file := some (fileOf attributes) }

/-- A file outside any example starts an example of its own. -/
def closeFile (a : Assembly) : Assembly :=
  match a.file with
  | some f =>
    let e := a.worked.getD (exampleOf [])
    { a with
      text := none
      worked := some { e with files := e.files ++ [{ f with content := a.text.getD "" }] }
      file := none }
  | none => { a with text := none }

def step (a : Assembly) : Event → Assembly
  | .opened name attributes =>
    if isExampleName name then a.openExample attributes
    else if name == "file" then a.openFile attributes
    else a.addText (renderStart name attributes)
  | .closed name =>
    if isExampleName name then a.closeExample
    else if name == "file" then a.closeFile
    else a.addText (renderEnd name)
  | .text content => a.addText content

def finish (a : Assembly) : List Segment :=
  a.flushExample.segments ++ a.text.toList.map Segment.text

end Assembly

def Segment.ofEvents (events : List Event) : List Segment :=
  (events.foldl Assembly.step Assembly.empty).finish

def Segment.ofMarkup (markup : String) : List Segment :=
  ofEvents (Event.ofMarkup markup)

end DocHarvest.Markup
