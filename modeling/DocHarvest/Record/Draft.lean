import DocHarvest.Record

/-! Records from documentation blocks. The tags act in order, and the later of two tags for one
field wins; only the kind is settled beforehand, as the reading of names depends on it. -/

namespace DocHarvest

open Markup Text

/-- A record on the way, with the name of the thing it belongs to. -/
structure Draft where
  record : Record
  parent : Option String
deriving DecidableEq

namespace Draft

/-- What is settled before any tag acts. -/
structure Context where
  kind : Option String
  defaultModule : Option String
deriving DecidableEq, Repr

/-- Kinds whose names may be written after the name of their parent. -/
def compoundKinds : List String :=
  ["method", "property", "event", "function", "type", "overview"]

def isJoint (c : Char) : Bool :=
  c == '#' || c == ':'

/-- The parent and the name in a compound name. What follows a second joint is dropped. -/
def Context.splitName? (c : Context) (content : String) : Option (String × String) :=
  if c.kind.any compoundKinds.contains then
    match content.toList.splitOnP isJoint with
    | parent :: name :: _ => some (String.ofList parent, String.ofList name)
    | _ => none
  else none

def setName (c : Context) (content : String) (d : Draft) : Draft :=
  match c.splitName? content with
  | some (parent, name) => ⟨{ d.record with name := some name }, some parent⟩
  | none => ⟨{ d.record with name := some content }, d.parent.or c.defaultModule⟩

def addTag? (c : Context) (d : Draft) (t : Tag) : Option Draft :=
  match t.key with
  | .kind => some d
  | .name => some (d.setName c t.content)
  | .module => some { d with record.module := some t.content }
  | .param =>
    (Param.parse? t.content).map fun p => { d with record.params := d.record.params ++ [p] }
  | .description => some { d with record.description := some (Segment.ofMarkup t.content) }
  | .examples => some { d with record.examples := some (Segment.ofMarkup t.content) }
  | .scope => some { d with record.scope := true }
  | .owner sort =>
    some ⟨{ d.record with owners := d.record.owners.set sort t.content }, some t.content⟩
  | .other text => some { d with record.extra := d.record.extra.insert text t.content }

/-- A record that declares a module has no parent. -/
def finish (d : Draft) : Record :=
  if d.record.isModule then d.record
  else { d.record with parent := some ⟨d.record.module, d.parent⟩ }

end Draft

def Tag.kindOf (tags : List Tag) : Option String :=
  (tags.findRev? (·.key == .kind)).map Tag.content

def Record.ofTags? (tags : List Tag) (defaultModule : Option String) : Option Record :=
  let context : Draft.Context := ⟨Tag.kindOf tags, defaultModule⟩
  (tags.foldlM (Draft.addTag? context) ⟨.blank context.kind, none⟩).map Draft.finish

def Block.isDocumentation (b : Block) : Bool :=
  b.items.any (hasPiece "@ngdoc".toList)

/-- The record of a block; none if the block has no documentation mark, an item without a tag, or a
parameter that cannot be read. -/
def Record.ofBlock? (b : Block) (defaultModule : Option String) : Option Record :=
  if b.isDocumentation then b.tags?.bind (ofTags? · defaultModule) else none

/-- The records of a source, or none if it has no block at all. -/
def Source.records? (s : Source) : Option (List Record) :=
  match s.blocks with
  | [] => none
  | blocks => some (blocks.filterMap fun b =>
      (Record.ofBlock? b none).map fun r => { r with file := s.path })

end DocHarvest
