import HotPatch.Text.ByteOrder

/-!
# Names of classes and members

A class is named by its path, segments divided by `/`; a member by one plain
segment, or by one of the two initializer names.  Names built from outside
text are checked once; a name derived from another one by a suffix is not.
Either way the name of a class ends where its descriptor does.

Offsets in the errors count UTF-8 bytes.
-/

namespace HotPatch

/-- Name of a class or interface, such as `android/app/Activity`.  It holds no `;`, which is what
ends it in a descriptor. -/
structure ClassName where
  text : String
  bounded : ';' ∉ text.toList
  deriving DecidableEq

/-- Name of a method or field, such as `onCreate` or `<init>`. -/
structure MemberName where
  text : String
  deriving DecidableEq

/-- What is wrong with one segment of a name. -/
inductive SegmentError where
  | empty
  | reserved (segment : String) (char : Char) (offset : Nat)
  deriving DecidableEq

/-- Why a text is no name. -/
inductive NameError where
  | badMember (cause : SegmentError)
  | badSegment (name : String) (cause : SegmentError)
  | initializerSegment (name segment : String)
  deriving DecidableEq

def SegmentError.message : SegmentError → String
  | .empty => "empty name segment"
  | .reserved segment char offset =>
      "'" ++ segment ++ "' has reserved character '" ++ char.toString ++ "' at offset "
        ++ toString offset

def NameError.message : NameError → String
  | .badMember cause => "bad member name: " ++ cause.message
  | .badSegment name cause => "bad class name '" ++ name ++ "': " ++ cause.message
  | .initializerSegment name segment =>
      "bad class name '" ++ name ++ "': '" ++ segment ++ "' is a method name"

namespace Name

/-- Characters that no segment may hold. -/
def isReserved (c : Char) : Bool :=
  c == '.' || c == ';' || c == '[' || c == '/' || c == '<' || c == '>'

/-- The names of the two initializers, the only ones with angle brackets. -/
def isInitializer (segment : List Char) : Bool :=
  segment == "<init>".toList || segment == "<clinit>".toList

/-- Number of UTF-8 bytes of a run of characters. -/
def byteLength : List Char → Nat
  | [] => 0
  | c :: rest => c.utf8Size + byteLength rest

/-- The first reserved character and the bytes before it. -/
def firstReserved? : List Char → Option (Char × Nat)
  | [] => none
  | c :: rest =>
      if isReserved c then some (c, 0)
      else (firstReserved? rest).map fun (found, offset) => (found, c.utf8Size + offset)

/-- The check that every segment passes. -/
def segmentError? (segment : List Char) : Option SegmentError :=
  if segment.isEmpty then some .empty
  else if isInitializer segment then none
  else
    (firstReserved? segment).map fun (c, offset) =>
      .reserved (String.ofList segment) c offset

/-- Cut at every `/`; a text without one is a single segment. -/
def segments : List Char → List (List Char)
  | [] => [[]]
  | c :: rest =>
      if c = '/' then [] :: segments rest
      else
        match segments rest with
        | [] => [[c]]
        | first :: others => (c :: first) :: others

/-- The fault of one segment of the class name `name`. -/
def classSegmentError? (name : String) (segment : List Char) : Option NameError :=
  if isInitializer segment then some (.initializerSegment name (String.ofList segment))
  else (segmentError? segment).map (.badSegment name)

theorem firstReserved?_eq_none {segment : List Char} (h : firstReserved? segment = none) :
    ∀ c ∈ segment, isReserved c = false := by
  induction segment with
  | nil => intro c hc; cases hc
  | cons first rest ih =>
      rw [firstReserved?] at h
      split at h
      · cases h
      · next hFirst =>
          intro c hc
          rcases List.mem_cons.mp hc with rfl | hc
          · exact Bool.not_eq_true _ ▸ hFirst
          · exact ih (Option.map_eq_none_iff.mp h) c hc

/-- Nothing but slashes is lost when a text is cut. -/
theorem mem_segments {text : List Char} {c : Char} (hc : c ∈ text) (hSlash : c ≠ '/') :
    ∃ segment ∈ segments text, c ∈ segment := by
  induction text with
  | nil => cases hc
  | cons first rest ih =>
      rw [segments]
      rcases List.mem_cons.mp hc with rfl | hc
      · rw [if_neg hSlash]
        cases segments rest with
        | nil => exact ⟨_, List.mem_cons_self, List.mem_cons_self⟩
        | cons segment others => exact ⟨_, List.mem_cons_self, List.mem_cons_self⟩
      · obtain ⟨segment, hSegment, hIn⟩ := ih hc
        split
        · exact ⟨segment, List.mem_cons_of_mem _ hSegment, hIn⟩
        · cases hCut : segments rest with
          | nil => rw [hCut] at hSegment; cases hSegment
          | cons front others =>
              rw [hCut] at hSegment
              rcases List.mem_cons.mp hSegment with rfl | hSegment
              · exact ⟨_, List.mem_cons_self, List.mem_cons_of_mem _ hIn⟩
              · exact ⟨segment, List.mem_cons_of_mem _ hSegment, hIn⟩

theorem classSegmentError?_eq_none {name : String} {segment : List Char}
    (h : classSegmentError? name segment = none) : ∀ c ∈ segment, isReserved c = false := by
  unfold classSegmentError? at h
  split at h
  · cases h
  · next hPlain =>
      have hSegment := Option.map_eq_none_iff.mp h
      unfold segmentError? at hSegment
      rw [if_neg hPlain] at hSegment
      split at hSegment
      · cases hSegment
      · exact firstReserved?_eq_none (Option.map_eq_none_iff.mp hSegment)

end Name

namespace ClassName

/-- Whether a text ends where its descriptor does. -/
def isBounded (text : String) : Bool := text.toList.all (· != ';')

theorem not_mem_of_isBounded {text : String} (h : isBounded text = true) : ';' ∉ text.toList := by
  intro hMem
  exact absurd (List.all_eq_true.mp h ';' hMem) (by decide)

/-- The class of a name that is written out. -/
abbrev of (text : String) (bounded : isBounded text = true := by exact @rfl Bool true) :
    ClassName :=
  ⟨text, not_mem_of_isBounded bounded⟩

@[ext] theorem ext {name name' : ClassName} (h : name.text = name'.text) : name = name' := by
  cases name
  cases name'
  cases h
  rfl

/-- The first fault of a text as a class name, segments taken from the left. -/
def error? (text : String) : Option NameError :=
  (Name.segments text.toList).findSome? (Name.classSegmentError? text)

/-- A text without a fault holds no `;`. -/
theorem not_mem_of_error? {text : String} (h : error? text = none) : ';' ∉ text.toList := by
  intro hMem
  obtain ⟨segment, hSegment, hIn⟩ := Name.mem_segments hMem (by decide)
  have hNone := List.findSome?_eq_none_iff.mp h segment hSegment
  have hFree := Name.classSegmentError?_eq_none hNone ';' hIn
  revert hFree
  decide

/-- Check a text as a class name. -/
def ofString? (text : String) : Except NameError ClassName :=
  match h : error? text with
  | some e => .error e
  | none => .ok ⟨text, not_mem_of_error? h⟩

/-- The same name with `suffix` after its last segment. -/
def withSuffix (name : ClassName) (suffix : String) (h : ';' ∉ suffix.toList) : ClassName where
  text := name.text ++ suffix
  bounded := by
    rw [String.toList_append, List.mem_append, not_or]
    exact ⟨name.bounded, h⟩

/-- The part before the last `/`, empty when there is none. -/
def package (name : ClassName) : String :=
  String.ofList ((name.text.toList.reverse.dropWhile (· != '/')).drop 1).reverse

theorem not_mem_package (name : ClassName) : ';' ∉ name.package.toList := by
  rw [package, String.toList_ofList, List.mem_reverse]
  intro hMem
  have hDropped := List.mem_of_mem_drop hMem
  exact name.bounded (List.mem_reverse.mp ((List.dropWhile_suffix _).mem hDropped))

/-- The class that carries what is declared of the whole package. -/
def packageInfo (name : ClassName) : ClassName :=
  if name.package.isEmpty then .of "package-info"
  else
    { text := name.package ++ "/package-info"
      bounded := by
        rw [String.toList_append, List.mem_append, not_or]
        exact ⟨name.not_mem_package, by decide +kernel⟩ }

/-- The name starts with the given text. -/
def startsWith (name : ClassName) (start : String) : Bool :=
  start.toList.isPrefixOf name.text.toList

def object : ClassName := .of "java/lang/Object"
def string : ClassName := .of "java/lang/String"

end ClassName

namespace MemberName

/-- The fault of a text as a member name. -/
def error? (text : String) : Option NameError :=
  (Name.segmentError? text.toList).map .badMember

/-- Check a text as a member name. -/
def ofString? (text : String) : Except NameError MemberName :=
  match error? text with
  | some e => .error e
  | none => .ok ⟨text⟩

/-- The same name with `suffix` after it. -/
def withSuffix (name : MemberName) (suffix : String) : MemberName := ⟨name.text ++ suffix⟩

/-- Name of the instance initializers. -/
def init : MemberName := ⟨"<init>"⟩

/-- Name of the static initializer. -/
def clinit : MemberName := ⟨"<clinit>"⟩

def isInit (name : MemberName) : Bool := name == init

def isClinit (name : MemberName) : Bool := name == clinit

/-- The names in byte order. -/
def sort (names : List MemberName) : List MemberName :=
  names.mergeSort fun a b => Text.byteLe a.text b.text

end MemberName

end HotPatch
