import HotPatch.Proofs.Descriptor.RoundTrip

/-!
# Where reading stops

A reader only ever moves on over whole characters, whatever it answers, so one
that is handed from read to read stays inside its text, between two characters,
never goes back and never cuts out of range (`Kind.read_within`).

Where a text is refused, the part in front of the reader is not to blame: some
descriptor of the same kind starts with it.  The one exception is the bracket
that makes one dimension too many, which has been read when it is reported.
This is shown reader by reader, in the order in which they are built on each
other (`StopsInside`), and then for whole texts (`PointsAtFault`).
-/

namespace HotPatch

/-- What a reader has passed already of what it complains about. -/
def Reason.extra : Reason → List Char
  | .tooManyDimensions => ['[']
  | _ => []

namespace Descriptor

/-! ## Texts that are refused -/

section Begun

variable {α β : Type} {read : Cursor → Read α} {chars : α → List Char} {readable : α → Prop}

/-- A descriptor starts like this. -/
def Begun (chars : α → List Char) (readable : α → Prop) (begun : List Char) : Prop :=
  ∃ value more, readable value ∧ chars value = begun ++ more

/-- If a text is refused at `cursor`, a descriptor starts with what has been passed of it, and
nothing was cut out of range. -/
def StopsAt (chars : α → List Char) (readable : α → Prop) (cursor : Cursor) (answer : Read α) :
    Prop :=
  ∀ reason stop, answer = (.error reason, stop) → reason ≠ .outOfRange ∧
    ∃ begun, cursor.Passes (begun ++ reason.extra) stop ∧ Begun chars readable begun

/-- Wherever the reader refuses a text, a descriptor starts with what it has passed. -/
def StopsInside (read : Cursor → Read α) (chars : α → List Char) (readable : α → Prop) : Prop :=
  ∀ cursor, StopsAt chars readable cursor (read cursor)

/-- Nothing is the beginning of whatever can be read. -/
theorem Begun.nil {value : α} (h : readable value) : Begun chars readable [] :=
  ⟨value, chars value, h, rfl⟩

/-- A reader that stops inside a part of a descriptor stops inside the descriptor. -/
theorem StopsAt.within {cursor next : Cursor} {front : List Char} {answer : Read α}
    {chars' : β → List Char} {readable' : β → Prop} (h : StopsAt chars readable next answer)
    (hFront : cursor.Passes front next)
    (hWhole : ∀ value, readable value → ∃ whole back, readable' whole ∧
      chars' whole = front ++ (chars value ++ back))
    {reason : Reason} {stop : Cursor} (hAnswer : answer = (.error reason, stop)) :
    reason ≠ .outOfRange ∧
      ∃ begun, cursor.Passes (begun ++ reason.extra) stop ∧ Begun chars' readable' begun := by
  obtain ⟨hReason, begun, hPasses, value, more, hReadable, hChars⟩ := h reason stop hAnswer
  obtain ⟨whole, back, hReadable', hChars'⟩ := hWhole value hReadable
  refine ⟨hReason, front ++ begun, ?_, whole, more ++ back, hReadable', ?_⟩
  · rw [List.append_assoc]
    exact hFront.trans hPasses
  · rw [hChars', hChars, List.append_assoc, List.append_assoc]

/-- An answer made from that of another reader. -/
theorem StopsAt.map {cursor next : Cursor} {front : List Char} {answer : Read α}
    {chars' : β → List Char} {readable' : β → Prop} (h : StopsAt chars readable next answer)
    (hFront : cursor.Passes front next) {f : α → β}
    (hWhole : ∀ value, readable value →
      readable' (f value) ∧ chars' (f value) = front ++ chars value) :
    StopsAt chars' readable' cursor (answer.map f) := by
  intro reason stop hAnswer
  refine h.within hFront (fun value hReadable => ⟨f value, [], (hWhole value hReadable).1, ?_⟩)
    (Read.map_eq_error.mp hAnswer)
  rw [(hWhole value hReadable).2, List.append_nil]

/-- Whatever a reader answers, it moves on, and nothing was cut out of range. -/
theorem moves_on (hReads : Reads read chars readable) (hStops : StopsInside read chars readable)
    (cursor : Cursor) :
    (∃ taken, cursor.Passes taken (read cursor).2) ∧ (read cursor).1 ≠ .error .outOfRange := by
  cases hRead : read cursor with
  | mk answer stop =>
      cases answer with
      | error reason =>
          obtain ⟨hReason, begun, hPasses, _⟩ := hStops cursor reason stop hRead
          exact ⟨⟨_, hPasses⟩, fun h => hReason (Except.error.inj h)⟩
      | ok value =>
          obtain ⟨_, rest, hRest, rfl⟩ := (hReads cursor value stop).mp hRead
          exact ⟨⟨_, Cursor.passes_after hRest⟩, fun h => by cases h⟩

end Begun

private theorem stops_primitive : StopsInside readPrimitive (fun p => [p.code]) fun _ => True := by
  intro cursor reason stop h
  have hHere : reason = .expectedPrimitive ∧ stop = cursor := by
    unfold readPrimitive at h
    split at h
    · cases h; exact ⟨rfl, rfl⟩
    · split at h
      · cases h; exact ⟨rfl, rfl⟩
      · cases h
  obtain ⟨rfl, rfl⟩ := hHere
  exact ⟨by decide, [], stop.passes_self, .int, ['I'], trivial, rfl⟩

private theorem object_accepted : ClassName.object.Accepted := by
  unfold ClassName.Accepted
  decide +kernel

/-- Past the letter there is a name to come, whichever fault is found in this one. -/
private theorem stops_class :
    StopsInside readClass ClassName.descriptorChars ClassName.Accepted := by
  intro cursor reason stop h
  by_cases hOpen : ∃ rest, cursor.rest = 'L' :: rest
  · obtain ⟨rest, hRest⟩ := hOpen
    have hInside : reason ≠ .outOfRange ∧ reason.extra = [] ∧ stop = cursor.after ['L'] rest := by
      by_cases hMark : ';' ∈ rest
      · obtain ⟨name, others, rfl, hName⟩ := List.eq_append_cons_of_mem hMark
        rw [readClass_named hRest hName] at h
        cases hCheck : ClassName.ofString? (String.ofList name) with
        | error e =>
            rw [hCheck] at h
            cases h
            exact ⟨by decide, rfl, rfl⟩
        | ok cls =>
            rw [hCheck] at h
            cases h
      · rw [readClass_open hRest hMark] at h
        cases h
        exact ⟨by decide, rfl, rfl⟩
    obtain ⟨hReason, hExtra, rfl⟩ := hInside
    refine ⟨hReason, ['L'], ?_, .object, _, object_accepted, rfl⟩
    rw [hExtra]
    exact Cursor.passes_after hRest
  · rw [readClass_other fun rest hRest => hOpen ⟨rest, hRest⟩] at h
    cases h
    exact ⟨by decide, [], cursor.passes_self, .nil object_accepted⟩

private theorem stops_element : StopsInside readElement ValueType.descriptorChars Plain := by
  intro cursor
  by_cases hL : ∃ rest, cursor.rest = 'L' :: rest
  · obtain ⟨rest, hRest⟩ := hL
    rw [readElement_class hRest]
    exact (stops_class cursor).map cursor.passes_self fun cls h => ⟨plain_object.mpr h, rfl⟩
  · by_cases hNil : cursor.rest = []
    · intro reason stop h
      rw [readElement_nil hNil] at h
      cases h
      exact ⟨by decide, [], cursor.passes_self, .nil (plain_base .int)⟩
    · rw [readElement_primitive (fun rest h => hL ⟨rest, h⟩) hNil]
      exact (stops_primitive cursor).map cursor.passes_self fun p _ => ⟨plain_base p, rfl⟩

/-! ## Brackets -/

private theorem stops_array {cursor : Cursor} {text : List Char}
    (hOpen : cursor.rest = '[' :: text) :
    StopsAt (fun type : RefType => type.toValue.descriptorChars) RefType.Readable cursor
      (readArray cursor) := by
  obtain ⟨n, behind, hRun, hBehind⟩ := exists_brackets text
  have hRest : cursor.rest = List.replicate (n + 1) '[' ++ behind := by
    rw [hOpen, hRun, List.replicate_succ, List.cons_append]
  rw [readArray_eq hRest hBehind]
  split
  · next hMany =>
      intro reason stop h
      cases h
      have hTake : cursor.rest.take 256 = List.replicate 256 '[' := by
        rw [hRest, List.take_append_of_le_length (by rw [List.length_replicate]; exact hMany),
          List.take_replicate, Nat.min_eq_left hMany]
      have hPasses : cursor.Passes (List.replicate 255 '[' ++ Reason.tooManyDimensions.extra)
          (cursor.after (List.replicate 256 '[') (cursor.rest.drop 256)) := by
        rw [Reason.extra, ← List.replicate_succ']
        refine Cursor.passes_after ?_
        rw [← hTake, List.take_append_drop]
      refine ⟨by decide, List.replicate 255 '[', hPasses, .array (nest 254 (.base .int)), ['I'],
        ?_, ?_⟩
      · exact (readable_nest (n := 255) rfl).mpr ⟨plain_base .int, Nat.le_refl 255⟩
      · exact descriptorChars_nest 255 (.base .int)
  · next hFew =>
      refine (stops_element _).map (Cursor.passes_after hRest) fun inner hPlain => ⟨?_, ?_⟩
      · exact (readable_nest (n := n + 1) hPlain.2).mpr ⟨hPlain, Nat.le_of_not_lt hFew⟩
      · exact descriptorChars_nest (n + 1) inner

private theorem stops_ref :
    StopsInside readRef (fun type => type.toValue.descriptorChars) RefType.Readable := by
  intro cursor
  by_cases hOpen : ∃ text, cursor.rest = '[' :: text
  · obtain ⟨text, hOpen⟩ := hOpen
    rw [readRef_array hOpen]
    exact stops_array hOpen
  · rw [readRef_class fun text h => hOpen ⟨text, h⟩]
    exact (stops_class cursor).map cursor.passes_self fun cls h => ⟨(plain_object.mpr h).1, rfl⟩

private theorem stops_value :
    StopsInside readValue ValueType.descriptorChars ValueType.Readable := by
  intro cursor
  by_cases hOpen : ∃ text, cursor.rest = '[' :: text
  · obtain ⟨text, hOpen⟩ := hOpen
    rw [readValue_array hOpen]
    exact (stops_array hOpen).map cursor.passes_self fun type h => ⟨h, rfl⟩
  · rw [readValue_element fun text h => hOpen ⟨text, h⟩]
    intro reason stop h
    exact (stops_element cursor).within cursor.passes_self
      (fun type hPlain => ⟨type, [], hPlain.1, (List.append_nil _).symm⟩) h

/-! ## Signatures -/

/-- The descriptor characters of parameters, the closing bracket included. -/
def parameterChars (types : List ValueType) : List Char :=
  types.flatMap ValueType.descriptorChars ++ [')']

private theorem parameterChars_cons (type : ValueType) (types : List ValueType) :
    parameterChars (type :: types) = type.descriptorChars ++ parameterChars types := by
  rw [parameterChars, List.flatMap_cons, List.append_assoc]
  rfl

private theorem stops_parameters (rounds : Nat) :
    StopsInside (readParameters rounds) parameterChars
      fun types => ∀ type ∈ types, type.Readable := by
  have hEmpty : Begun parameterChars (fun types => ∀ type ∈ types, type.Readable) [] :=
    ⟨[], [')'], fun _ h => (List.not_mem_nil h).elim, rfl⟩
  induction rounds with
  | zero =>
      intro cursor reason stop h
      cases h
      exact ⟨by decide, [], cursor.passes_self, hEmpty⟩
  | succ rounds ih =>
      intro cursor reason stop h
      by_cases hClose : ∃ rest, cursor.rest = ')' :: rest
      · obtain ⟨rest, hClose⟩ := hClose
        rw [readParameters_close hClose] at h
        cases h
      · by_cases hNil : cursor.rest = []
        · rw [readParameters_nil hNil] at h
          cases h
          exact ⟨by decide, [], cursor.passes_self, hEmpty⟩
        · rw [readParameters_value rounds (fun rest h => hClose ⟨rest, h⟩) hNil,
            Read.andThen_eq_error] at h
          rcases h with hValue | ⟨type, next, hValue, hOthers⟩
          · refine (stops_value cursor).within cursor.passes_self ?_ hValue
            intro type hReadable
            exact ⟨[type], [')'], by simpa using hReadable, parameterChars_cons type []⟩
          · obtain ⟨hReadable, rest, hRest, rfl⟩ := (reads_value cursor type next).mp hValue
            refine (ih _).within (Cursor.passes_after hRest) ?_ (Read.map_eq_error.mp hOthers)
            intro types hTypes
            refine ⟨type :: types, [], List.forall_mem_cons.mpr ⟨hReadable, hTypes⟩, ?_⟩
            rw [parameterChars_cons, List.append_nil]

private theorem stops_result : StopsInside readResult resultChars
    (fun result => ∀ type, result = some type → type.Readable) := by
  intro cursor
  by_cases hVoid : ∃ rest, cursor.rest = 'V' :: rest
  · obtain ⟨rest, hRest⟩ := hVoid
    intro reason stop h
    rw [readResult_none hRest] at h
    cases h
  · rw [readResult_value fun rest hRest => hVoid ⟨rest, hRest⟩]
    refine (stops_value cursor).map cursor.passes_self fun type hReadable => ⟨?_, rfl⟩
    exact fun _ hSome => Option.some.inj hSome ▸ hReadable

private theorem stops_signature :
    StopsInside readSignature Signature.descriptorChars Signature.Readable := by
  intro cursor reason stop h
  by_cases hOpen : ∃ rest, cursor.rest = '(' :: rest
  · obtain ⟨text, hOpen⟩ := hOpen
    have hParen : cursor.Passes ['('] (cursor.after ['('] text) := Cursor.passes_after hOpen
    rw [readSignature_open hOpen, Read.andThen_eq_error] at h
    rcases h with hTypes | ⟨types, next, hTypes, hResult⟩
    · refine (stops_parameters _ _).within hParen ?_ hTypes
      intro types hReadable
      refine ⟨⟨types, none⟩, ['V'], ⟨hReadable, fun _ hNone => by cases hNone⟩, ?_⟩
      rw [descriptorChars_signature, parameterChars]
      simp [resultChars]
    · obtain ⟨hReadable, rest, hRest, rfl⟩ :=
        (reads_parameters (length_lt_of_readParameters hTypes)).mp hTypes
      have hPasses := hParen.trans (Cursor.passes_after
        (hRest.trans (List.append_cons _ ')' rest)))
      refine (stops_result _).within hPasses ?_ (Read.map_eq_error.mp hResult)
      intro result hResult
      refine ⟨⟨types, result⟩, [], ⟨hReadable, hResult⟩, ?_⟩
      rw [descriptorChars_signature]
      simp
  · rw [readSignature_other fun rest hRest => hOpen ⟨rest, hRest⟩] at h
    cases h
    have hEmpty : Signature.Readable ⟨[], none⟩ :=
      ⟨fun _ h => (List.not_mem_nil h).elim, fun _ h => by cases h⟩
    exact ⟨by decide, [], cursor.passes_self, .nil hEmpty⟩

/-! ## Whole texts -/

/-- The error of a refused text points behind a part that an accepted text starts with.  If there
are too many dimensions, it points behind the bracket that follows such a part. -/
def PointsAtFault {α : Type} (parse : String → Except DescriptorError α) : Prop :=
  ∀ text e, parse text = .error e → e.offset ≤ text.utf8ByteSize ∧
    ∃ front back more value, text = front ++ back ∧
      front.utf8ByteSize + (if e.reason = .tooManyDimensions then 1 else 0) = e.offset ∧
      parse (front ++ more) = .ok value

private theorem byteLength_extra (reason : Reason) :
    Name.byteLength reason.extra = if reason = .tooManyDimensions then 1 else 0 := by
  cases reason <;> rfl

/-- A text is refused where its reader stops, or where something follows. -/
theorem parse_eq_error {α : Type} {read : Cursor → Read α} {text : String} {e : DescriptorError}
    (h : parse read text = .error e) :
    ∃ answer stop, read (.start text) = (answer, stop) ∧ e.offset = stop.offset ∧
      (answer = .error e.reason ∨
        (∃ value, answer = .ok value) ∧ e.reason = .trailingCharacters) := by
  unfold parse at h
  cases hRead : read (.start text) with
  | mk answer stop =>
      rw [hRead] at h
      cases answer with
      | error reason =>
          cases h
          exact ⟨_, stop, rfl, rfl, .inl rfl⟩
      | ok value =>
          simp only at h
          split at h
          · cases h
          · cases h
            exact ⟨_, stop, rfl, rfl, .inr ⟨⟨value, rfl⟩, rfl⟩⟩

/-- A reader that fails has passed the start of a descriptor, and at most one bracket too many. -/
private theorem StopsInside.pointsAtFault {α : Type} {onBytes : Reader → Reader.Read α}
    {read : Cursor → Read α} {chars : α → List Char} {readable : α → Prop}
    (hStops : StopsInside read chars readable) (hReads : Reads read chars readable)
    (hAgrees : Agrees onBytes read) : PointsAtFault (Reader.parse onBytes) := by
  intro text e h
  rw [hAgrees.parse_eq] at h
  obtain ⟨answer, stop, hRead, hOffset, hAnswer⟩ := parse_eq_error h
  have hPassed : ∃ begun, (Cursor.start text).Passes (begun ++ e.reason.extra) stop ∧
      Begun chars readable begun := by
    rcases hAnswer with rfl | ⟨⟨value, rfl⟩, hReason⟩
    · exact (hStops _ _ _ hRead).2
    · obtain ⟨hReadable, rest, hRest, rfl⟩ := (hReads _ value stop).mp hRead
      refine ⟨chars value, ?_, value, [], hReadable, (List.append_nil _).symm⟩
      rw [hReason, Reason.extra, List.append_nil]
      · exact Cursor.passes_after hRest
      · exact fun h => by cases h
  obtain ⟨begun, hPasses, value, more, hReadable, hChars⟩ := hPassed
  have hWithin : stop.Within text := ⟨_, hPasses⟩
  refine ⟨hOffset ▸ hWithin.offset_le, String.ofList begun,
    String.ofList (e.reason.extra ++ stop.rest), String.ofList more, value, ?_, ?_, ?_⟩
  · rw [← String.ofList_append, ← List.append_assoc, ← hPasses.1]
    exact String.ofList_toList.symm
  · rw [hOffset, hPasses.offset_eq, Name.byteLength_append, byteLength_extra,
      Text.utf8ByteSize_ofList]
    exact (Nat.zero_add _).symm
  · rw [← String.ofList_append, ← hChars]
    exact (hReads.inverse hAgrees).parse_render value hReadable

/-! ## One reader, read after read -/

/-- The five kinds of descriptors. -/
inductive Kind where
  | primitive | cls | ref | value | signature
  deriving DecidableEq

namespace Kind

/-- What descriptors of a kind are read as. -/
def Value : Kind → Type
  | primitive => Primitive
  | cls => ClassName
  | ref => RefType
  | value => ValueType
  | signature => Signature

/-- The reader of a kind. -/
def read : (kind : Kind) → Reader → Reader.Read kind.Value
  | primitive => Reader.readPrimitive
  | cls => Reader.readClass
  | ref => Reader.readRef
  | value => Reader.readValue
  | signature => Reader.readSignature

/-- A read stops at a place between two characters that is not in front of the one it started
from, and does not cut out of range. -/
theorem read_within (kind : Kind) {text : String} {cursor : Cursor} (h : cursor.Within text) :
    (kind.read (cursor.reader text)).1 ≠ .error .outOfRange ∧
      ∃ stop : Cursor, stop.Within text ∧ cursor.offset ≤ stop.offset ∧
        (kind.read (cursor.reader text)).2 = stop.reader text := by
  have hMoves : ∀ {α : Type} {onBytes : Reader → Reader.Read α} {read : Cursor → Read α}
      {chars : α → List Char} {readable : α → Prop}, Agrees onBytes read →
      Reads read chars readable → StopsInside read chars readable →
      (onBytes (cursor.reader text)).1 ≠ .error .outOfRange ∧
        ∃ stop : Cursor, stop.Within text ∧ cursor.offset ≤ stop.offset ∧
          (onBytes (cursor.reader text)).2 = stop.reader text := by
    intro α onBytes read chars readable hAgrees hReads hStops
    obtain ⟨⟨taken, hPasses⟩, hRange⟩ := moves_on hReads hStops cursor
    obtain ⟨hEq, hWithin⟩ := hAgrees text cursor h
    rw [hEq]
    exact ⟨hRange, _, hWithin, hPasses.offset_eq ▸ Nat.le_add_right _ _, rfl⟩
  cases kind with
  | primitive => exact hMoves agrees_primitive reads_primitive stops_primitive
  | cls => exact hMoves agrees_class reads_class stops_class
  | ref => exact hMoves agrees_ref reads_ref stops_ref
  | value => exact hMoves agrees_value reads_value stops_value
  | signature => exact hMoves agrees_signature reads_signature stops_signature

end Kind

/-- Where a series of reads leaves the reader, each going on from where the one before stopped,
whatever it answered. -/
def readAll (kinds : List Kind) (r : Reader) : Reader :=
  kinds.foldl (fun r kind => (kind.read r).2) r

private theorem readAll_within (kinds : List Kind) {text : String} :
    ∀ {cursor : Cursor}, cursor.Within text →
      ∃ stop : Cursor, stop.Within text ∧
        readAll kinds (cursor.reader text) = stop.reader text := by
  induction kinds with
  | nil => exact fun h => ⟨_, h, rfl⟩
  | cons kind others ih =>
      intro cursor h
      obtain ⟨_, next, hNext, _, hRead⟩ := kind.read_within h
      obtain ⟨stop, hStop, hAll⟩ := ih hNext
      refine ⟨stop, hStop, ?_⟩
      rw [← hAll, ← hRead]
      rfl

/-- **Reading stays inside its text, and errors point at the first offending place.** -/
theorem reading_inside :
    (∀ (text : String) (kinds : List Kind) (kind : Kind),
      let r := readAll kinds (.start text)
      r.text = text ∧ r.position ≤ text.utf8ByteSize ∧
        String.Pos.Raw.IsValid text ⟨r.position⟩ ∧
        (kind.read r).1 ≠ .error .outOfRange ∧ r.position ≤ (kind.read r).2.position) ∧
      PointsAtFault Primitive.parse ∧ PointsAtFault ClassName.parse ∧
      PointsAtFault RefType.parse ∧ PointsAtFault ValueType.parse ∧
      PointsAtFault Signature.parse := by
  refine ⟨fun text kinds kind => ?_, stops_primitive.pointsAtFault reads_primitive agrees_primitive,
    stops_class.pointsAtFault reads_class agrees_class,
    stops_ref.pointsAtFault reads_ref agrees_ref,
    stops_value.pointsAtFault reads_value agrees_value,
    stops_signature.pointsAtFault reads_signature agrees_signature⟩
  obtain ⟨cursor, hWithin, hAll⟩ := readAll_within kinds (Cursor.within_start text)
  obtain ⟨hRange, stop, _, hLe, hStop⟩ := kind.read_within hWithin
  have hReader : readAll kinds (.start text) = cursor.reader text := hAll
  simp only [hReader]
  refine ⟨rfl, hWithin.offset_le, hWithin.isValid, hRange, ?_⟩
  rw [hStop]
  exact hLe

/-- The letter of the class counts two bytes. -/
example : Signature.parse "(Lé;Q)V" = .error ⟨"(Lé;Q)V", 5, .expectedPrimitive⟩ := by
  decide +kernel

end Descriptor

end HotPatch
