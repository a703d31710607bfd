import HotPatch.Name

/-!
# Tags on classes and methods

A tag is a declared note of a class type with constant elements.  Only its
type and its constants are ever asked for.
-/

namespace HotPatch

/-- Constant of a tag's element. -/
inductive TagValue where
  | int (value : Int32)
  | bool (value : Bool)
  | string (value : String)
  deriving DecidableEq

structure Tag where
  type : ClassName
  elements : List (MemberName × TagValue) := []
  deriving DecidableEq

namespace Tag

/-- The value of the first element of that name. -/
def element? (t : Tag) (name : MemberName) : Option TagValue :=
  (t.elements.find? (·.1 == name)).map Prod.snd

/-- The integer that a tag holds under the name. -/
def int? (t : Tag) (name : MemberName) : Option Int32 :=
  match t.element? name with
  | some (.int value) => some value
  | _ => none

/-- One of the tags has the type. -/
def anyOf (tags : List Tag) (type : ClassName) : Bool := tags.any (·.type == type)

/-- The first integer under the name in a tag of the type. -/
def intOf? (tags : List Tag) (type : ClassName) (name : MemberName) : Option Int32 :=
  (tags.filter (·.type == type)).findSome? (·.int? name)

end Tag

end HotPatch
