import HotPatch.Name

/-!
# Component types and the roles of classes

The platform starts components by itself.  A class plays a role for each of
the five component types: it is declared in the manifest, it is above a
declared class, it was inserted as a genesis class, or it is a patch's
counterpart of one.  The roles for all types are packed into one word, four
bits a type.
-/

namespace HotPatch

inductive ComponentType where
  | application | activity | service | receiver | provider
  deriving DecidableEq

namespace ComponentType

/-- All component types, in manifest order. -/
def all : List ComponentType := [.application, .activity, .service, .receiver, .provider]

def name : ComponentType → String
  | .application => "Application"
  | .activity => "Activity"
  | .service => "Service"
  | .receiver => "Receiver"
  | .provider => "Provider"

/-- The platform class that components of this type extend; applications have none. -/
def platformRoot? : ComponentType → Option ClassName
  | .application => none
  | .activity => some (.of "android/app/Activity")
  | .service => some (.of "android/app/Service")
  | .receiver => some (.of "android/content/BroadcastReceiver")
  | .provider => some (.of "android/content/ContentProvider")

/-- How many bits of the word the roles for one type take. -/
def rolesWidth : Nat := 4

/-- Where the roles for this type start in the word. -/
def shift (component : ComponentType) : Nat :=
  rolesWidth *
    match component with
    | .application => 0
    | .activity => 1
    | .service => 2
    | .receiver => 3
    | .provider => 4

end ComponentType

/-- The roles of a class for one component type. -/
structure Roles where
  /-- Declared in the manifest. -/
  direct : Bool := false
  /-- Above a declared class. -/
  ancestor : Bool := false
  genesis : Bool := false
  buddy : Bool := false
  deriving DecidableEq

namespace Roles

def none : Roles := {}

def isEmpty (r : Roles) : Bool := r == none

def union (r s : Roles) : Roles :=
  ⟨r.direct || s.direct, r.ancestor || s.ancestor, r.genesis || s.genesis, r.buddy || s.buddy⟩

/-- The two have a role in common. -/
def meets (r s : Roles) : Bool :=
  r.direct && s.direct || r.ancestor && s.ancestor || r.genesis && s.genesis || r.buddy && s.buddy

/-- The roles a word names in its lowest bits; the other bits are dropped. -/
def ofBits (bits : BitVec 32) : Roles :=
  ⟨bits.getLsbD 0, bits.getLsbD 1, bits.getLsbD 2, bits.getLsbD 3⟩

def bits (r : Roles) : BitVec 32 :=
  bit 0 r.direct ||| bit 1 r.ancestor ||| bit 2 r.genesis ||| bit 3 r.buddy
where
  bit (position : Nat) (isSet : Bool) : BitVec 32 := if isSet then 1#32 <<< position else 0

/-- The bits that the roles for one type take. -/
def mask : BitVec 32 := (1#32 <<< ComponentType.rolesWidth) - 1

def names (r : Roles) : List String :=
  (if r.direct then ["DIRECT"] else []) ++ (if r.ancestor then ["SUPER"] else []) ++
    (if r.genesis then ["GENESIS"] else []) ++ (if r.buddy then ["BUDDY"] else [])

end Roles

/-- The roles of a class for every component type, packed into a word. -/
structure ComponentMarks where
  word : BitVec 32 := 0
  deriving DecidableEq

namespace ComponentMarks

def none : ComponentMarks := {}

/-- The roles for one component type. -/
def get (m : ComponentMarks) (component : ComponentType) : Roles :=
  .ofBits ((m.word >>> component.shift) &&& Roles.mask)

/-- The marks with more roles for one component type. -/
def mark (m : ComponentMarks) (component : ComponentType) (roles : Roles) : ComponentMarks :=
  ⟨m.word ||| (roles.bits <<< component.shift)⟩

def has (m : ComponentMarks) (component : ComponentType) (roles : Roles) : Bool :=
  (m.get component).meets roles

def isEmpty (m : ComponentMarks) : Bool := m.word == 0

/-- The types with a role, as listings show them. -/
def render (m : ComponentMarks) : String :=
  let entries := ComponentType.all.filterMap fun c =>
    if (m.get c).isEmpty then Option.none
    else some (c.name ++ ": " ++ " | ".intercalate (m.get c).names)
  "\x7b" ++ ", ".intercalate entries ++ "\x7d"

end ComponentMarks

end HotPatch
