import DocHarvest.Block.Tag
import DocHarvest.Dictionary
import DocHarvest.Markup.Segment
import DocHarvest.Param

/-! Documentation records. -/

namespace DocHarvest

open Markup

structure Owners where
  methodOf : Option String
  propertyOf : Option String
  eventOf : Option String
  memberOf : Option String
deriving DecidableEq, Repr

def Owners.none : Owners :=
  ⟨.none, .none, .none, .none⟩

def Owners.set (o : Owners) (sort : Ownership) (content : String) : Owners :=
  match sort with
  | .method => { o with methodOf := content }
  | .property => { o with propertyOf := content }
  | .event => { o with eventOf := content }
  | .member => { o with memberOf := content }

structure Parent where
  module : Option String
  name : Option String
deriving DecidableEq, Repr

structure Record where
  docType : String := "ngdoc"
  kind : Option String
  name : Option String
  module : Option String
  description : Option (List Segment)
  examples : Option (List Segment)
  params : List Param
  scope : Bool
  owners : Owners
  parent : Option Parent
  file : String
  extra : Dictionary String
deriving DecidableEq

namespace Record

def blank (kind : Option String) : Record where
  kind := kind
  name := none
  module := none
  description := none
  examples := none
  params := []
  scope := false
  owners := .none
  parent := none
  file := ""
  extra := .empty

def isModule (r : Record) : Bool :=
  r.kind == some "module"

end Record

end DocHarvest
