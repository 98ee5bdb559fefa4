import DocHarvest.Json
import DocHarvest.Record

/-! Records as JSON. An absent field of a record is left out, an absent field inside one is null,
and the tags without a field of their own come last. -/

namespace DocHarvest

open Markup

def ParamType.toJson (t : ParamType) : Json :=
  .object [("name", .text t.name), ("type", .text t.kind)]

def Param.typesToJson : Option (List ParamType) → Json
  | some types => .array (types.map ParamType.toJson)
  | none => .text "undefined"

def Param.toJson (p : Param) : Json :=
  .object [
    ("type", typesToJson p.types),
    ("varName", .text p.name),
    ("altName", .ofOption p.altName),
    ("description", .text p.description),
    ("optional", .bool p.optional),
    ("defaultValue", .ofOption p.defaultValue)]

namespace Markup

def ExampleFile.toJson (f : ExampleFile) : Json :=
  .object [("name", .text f.name), ("content", .text f.content), ("src", .ofOption f.src)]

def Example.toJson (e : Example) : Json :=
  .object [
    ("module", .ofOption e.module),
    ("deps", .ofOption e.deps),
    ("files", .array (e.files.map ExampleFile.toJson))]

def Segment.toJson : Segment → Json
  | text content => .text content
  | worked details => details.toJson

end Markup

def Parent.toJson (p : Parent) : Json :=
  .object [("module", .ofOption p.module), ("name", .ofOption p.name)]

namespace Record

def optionalMember {α : Type} (key : String) (encode : α → Json) (value : Option α) :
    List (String × Json) :=
  (value.map fun v => (key, encode v)).toList

def segmentsToJson (segments : List Segment) : Json :=
  .array (segments.map Segment.toJson)

def fieldMembers (r : Record) : List (String × Json) :=
  [("docType", .text r.docType)]
    ++ optionalMember "ngdoc" .text r.kind
    ++ optionalMember "name" .text r.name
    ++ optionalMember "module" .text r.module
    ++ optionalMember "description" segmentsToJson r.description
    ++ optionalMember "example" segmentsToJson r.examples
    ++ [("params", .array (r.params.map Param.toJson))]
    ++ (if r.scope then [("scope", .bool true)] else [])
    ++ optionalMember "methodOf" .text r.owners.methodOf
    ++ optionalMember "propertyOf" .text r.owners.propertyOf
    ++ optionalMember "eventOf" .text r.owners.eventOf
    ++ optionalMember "memberOf" .text r.owners.memberOf
    ++ optionalMember "parentDoc" Parent.toJson r.parent
    ++ [("file", .text r.file)]

def extraMembers (r : Record) : List (String × Json) :=
  r.extra.entries.map fun e => (e.1, .text e.2)

def toJson (r : Record) : Json :=
  .object (r.fieldMembers ++ r.extraMembers)

end Record

end DocHarvest
