import HotPatch.Proofs.Descriptor.Characters

/-!
# Readers on bytes

Every character that a descriptor asks for is one byte, and no byte of a
longer character looks like it.  So a reader on bytes that starts between two
characters sees what the reader on characters sees, and stops between two
characters again, wherever that is (`Agrees`).  The name of a class ends at a
byte that is a character, so it can always be cut out of the text.
-/

namespace HotPatch

/-! ## The bytes of characters -/

namespace Text

theorem utf8ByteSize_ofList (chars : List Char) :
    (String.ofList chars).utf8ByteSize = Name.byteLength chars := by
  induction chars with
  | nil => rfl
  | cons c rest ih =>
      rw [String.ofList_cons, String.utf8ByteSize_append, String.utf8ByteSize_singleton, ih,
        Name.byteLength]

private theorem bytes_append (a b : String) : bytes (a ++ b) = bytes a ++ bytes b := by
  simp [bytes, String.toByteArray_append]

private theorem length_bytes (s : String) : (bytes s).length = s.utf8ByteSize := by
  rw [← String.size_toByteArray]
  rfl

private theorem bytes_ofList (chars : List Char) :
    bytes (String.ofList chars) = chars.flatMap String.utf8EncodeChar := by
  rw [bytes, String.toByteArray_ofList, List.utf8Encode, List.toList_data_toByteArray]

/-- A character of one byte is that byte. -/
theorem encode_eq {c : Char} (h : c.toNat < 128) : String.utf8EncodeChar c = [c.toUInt8] := by
  have hSize : c.utf8Size = 1 := Char.utf8Size_eq_one_iff.mpr (Nat.le_of_lt_succ h)
  rw [String.utf8EncodeChar_eq_singleton hSize, Char.toUInt8_val]

/-- No byte of a longer character is a character. -/
theorem le_of_mem_encode {c : Char} (h : 128 ≤ c.toNat) {byte : UInt8}
    (hByte : byte ∈ String.utf8EncodeChar c) : 128 ≤ byte.toNat := by
  have hLong : ¬ c.val.toNat ≤ 127 := Nat.not_le.mpr h
  have hOf : ∀ n, n < 128 → 128 ≤ (UInt8.ofNat (n + 128)).toNat := by
    intro n hn
    rw [UInt8.toNat_ofNat', Nat.mod_eq_of_lt (by omega)]
    omega
  simp only [String.utf8EncodeChar, if_neg hLong] at hByte
  split at hByte
  · rcases List.mem_cons.mp hByte with rfl | hByte
    · exact hOf (c.val.toNat / 64 % 32 + 64) (by omega)
    · rw [List.mem_singleton.mp hByte]
      exact hOf _ (by omega)
  · split at hByte
    · rcases List.mem_cons.mp hByte with rfl | hByte
      · exact hOf (c.val.toNat / 4096 % 16 + 96) (by omega)
      · simp only [List.mem_cons, List.not_mem_nil, or_false] at hByte
        rcases hByte with rfl | rfl <;> exact hOf _ (by omega)
    · rcases List.mem_cons.mp hByte with rfl | hByte
      · exact hOf (c.val.toNat / 262144 % 8 + 112) (by omega)
      · simp only [List.mem_cons, List.not_mem_nil, or_false] at hByte
        rcases hByte with rfl | rfl | rfl <;> exact hOf _ (by omega)

private theorem toNat_toUInt8 {c : Char} (h : c.toNat < 128) : c.toUInt8.toNat = c.toNat := by
  rw [Char.toUInt8, UInt32.toNat_toUInt8]
  exact Nat.mod_eq_of_lt (Nat.lt_trans h (by decide))

/-- A byte that is a character stands for this character only. -/
theorem mem_encode_iff {c expected : Char} (h : expected.toNat < 128) :
    expected.toUInt8 ∈ String.utf8EncodeChar c ↔ c = expected := by
  constructor
  · intro hByte
    by_cases hc : c.toNat < 128
    · rw [encode_eq hc, List.mem_singleton] at hByte
      have hSame := congrArg UInt8.toNat hByte
      rw [toNat_toUInt8 h, toNat_toUInt8 hc] at hSame
      exact (Char.toNat_inj.mp hSame).symm
    · have hLe := le_of_mem_encode (Nat.le_of_not_lt hc) hByte
      rw [toNat_toUInt8 h] at hLe
      omega
  · rintro rfl
    rw [encode_eq h]
    exact List.mem_singleton.mpr rfl

private theorem getElem?_toByteArray (text : String) (i : Nat) :
    text.toByteArray[i]? = (bytes text)[i]? := by
  by_cases h : i < text.toByteArray.size
  · have hLt : i < (bytes text).length := h
    rw [getElem?_pos _ i h, List.getElem?_eq_getElem hLt]
    rfl
  · have hLe : (bytes text).length ≤ i := Nat.le_of_not_lt h
    rw [getElem?_neg _ i h, List.getElem?_eq_none hLe]

/-- What is cut out between two characters. -/
theorem slice?_eq_some {text front taken rest : String} (h : text = front ++ (taken ++ rest)) :
    slice? text front.utf8ByteSize (front.utf8ByteSize + taken.utf8ByteSize) = some taken := by
  have hStart : String.Pos.Raw.IsValid text ⟨front.utf8ByteSize⟩ :=
    String.Pos.Raw.isValid_iff_exists_append.mpr ⟨front, taken ++ rest, h, rfl⟩
  have hStop : String.Pos.Raw.IsValid text ⟨front.utf8ByteSize + taken.utf8ByteSize⟩ := by
    refine String.Pos.Raw.isValid_iff_exists_append.mpr ⟨front ++ taken, rest, ?_, ?_⟩
    · rw [h, String.append_assoc]
    · rw [String.rawEndPos, String.utf8ByteSize_append]
  rw [slice?, dif_pos ⟨Nat.le_add_right _ _, hStart, hStop⟩]
  refine congrArg some (bytes_injective ?_)
  rw [bytes, String.toByteArray_extract, ByteArray.data_extract, Array.toList_extract,
    List.extract_eq_take_drop]
  have hCut : ((bytes text).drop front.utf8ByteSize).take
      (front.utf8ByteSize + taken.utf8ByteSize - front.utf8ByteSize) = bytes taken := by
    rw [h, bytes_append, bytes_append, ← length_bytes, ← length_bytes, List.drop_left,
      Nat.add_sub_cancel_left, List.take_left]
  exact hCut

end Text

/-! ## Cursors between characters -/

namespace Cursor

variable {text : String} {cursor : Cursor}

/-- The reader on bytes at the place of a cursor. -/
def reader (cursor : Cursor) (text : String) : Reader := ⟨text, cursor.offset⟩

/-- The cursor is between two characters of the text. -/
def Within (cursor : Cursor) (text : String) : Prop :=
  ∃ front, (start text).Passes front cursor

theorem within_start (text : String) : (start text).Within text :=
  ⟨[], passes_self _⟩

/-- Reading on stays within the text. -/
theorem Within.passes (h : cursor.Within text) {taken : List Char} {stop : Cursor}
    (hPasses : cursor.Passes taken stop) : stop.Within text := by
  obtain ⟨front, hFront⟩ := h
  exact ⟨front ++ taken, hFront.trans hPasses⟩

/-- The text falls into two where the cursor is. -/
theorem Within.exists_append (h : cursor.Within text) :
    ∃ front : String, text = front ++ String.ofList cursor.rest ∧
      cursor.offset = front.utf8ByteSize := by
  obtain ⟨front, hFront⟩ := h
  refine ⟨String.ofList front, ?_, ?_⟩
  · rw [← String.ofList_append, ← hFront.1]
    exact String.ofList_toList.symm
  · rw [hFront.offset_eq, Text.utf8ByteSize_ofList]
    exact Nat.zero_add _

/-- A cursor within the text is at the boundary of a character. -/
theorem Within.isValid (h : cursor.Within text) :
    String.Pos.Raw.IsValid text ⟨cursor.offset⟩ := by
  obtain ⟨front, hText, hOffset⟩ := h.exists_append
  exact String.Pos.Raw.isValid_iff_exists_append.mpr ⟨front, _, hText, by rw [hOffset]; rfl⟩

/-- A cursor within the text is not past its end. -/
theorem Within.offset_le (h : cursor.Within text) : cursor.offset ≤ text.utf8ByteSize := by
  obtain ⟨front, hText, hOffset⟩ := h.exists_append
  rw [hText, hOffset, String.utf8ByteSize_append]
  exact Nat.le_add_right _ _

/-- The bytes that are left are those of the characters that are left. -/
theorem Within.size_eq (h : cursor.Within text) : cursor.size = text.utf8ByteSize := by
  obtain ⟨front, hText, hOffset⟩ := h.exists_append
  rw [size, hOffset, ← Text.utf8ByteSize_ofList, ← String.utf8ByteSize_append, ← hText]

private theorem Within.drop_bytes (h : cursor.Within text) :
    (Text.bytes text).drop cursor.offset = cursor.rest.flatMap String.utf8EncodeChar := by
  obtain ⟨front, hText, hOffset⟩ := h.exists_append
  rw [hOffset, ← Text.length_bytes, hText, Text.bytes_append, List.drop_left, Text.bytes_ofList]

/-- A reader sees the first byte of what is left. -/
theorem Within.peek_eq (h : cursor.Within text) :
    (cursor.reader text).peek = (cursor.rest.flatMap String.utf8EncodeChar).head? := by
  rw [← h.drop_bytes, List.head?_drop, ← Text.getElem?_toByteArray]
  rfl

private theorem Within.peek_nil (h : cursor.Within text) (hRest : cursor.rest = []) :
    (cursor.reader text).peek = none := by
  rw [h.peek_eq, hRest]
  rfl

/-- A reader sees a byte of the next character. -/
theorem Within.peek_cons (h : cursor.Within text) {c : Char} {rest : List Char}
    (hRest : cursor.rest = c :: rest) :
    ∃ byte ∈ String.utf8EncodeChar c, (cursor.reader text).peek = some byte := by
  have hLength : 0 < (String.utf8EncodeChar c).length := by
    rw [String.length_utf8EncodeChar]
    exact c.utf8Size_pos
  obtain ⟨byte, others, hBytes⟩ := List.exists_cons_of_length_pos hLength
  refine ⟨byte, by rw [hBytes]; exact List.mem_cons_self, ?_⟩
  rw [h.peek_eq, hRest, List.flatMap_cons, hBytes]
  rfl

/-- A reader sees the byte of a character exactly if this is the next character. -/
theorem Within.peek_eq_some_iff (h : cursor.Within text) {expected : Char}
    (hByte : expected.toNat < 128) :
    (cursor.reader text).peek = some expected.toUInt8 ↔ ∃ rest, cursor.rest = expected :: rest := by
  cases hRest : cursor.rest with
  | nil => simp [h.peek_nil hRest]
  | cons c rest =>
      obtain ⟨byte, hMem, hPeek⟩ := h.peek_cons hRest
      rw [hPeek, Option.some.injEq]
      constructor
      · rintro rfl
        exact ⟨rest, by rw [(Text.mem_encode_iff hByte).mp hMem]⟩
      · rintro ⟨_, hCons⟩
        rw [(List.cons.inj hCons).1, Text.encode_eq hByte, List.mem_singleton] at hMem
        exact hMem

/-- Past a character of one byte. -/
theorem reader_after {c : Char} (hByte : c.toNat < 128) (rest : List Char) :
    (cursor.after [c] rest).reader text = ⟨text, cursor.offset + 1⟩ := by
  have hSize : c.utf8Size = 1 := Char.utf8Size_eq_one_iff.mpr (Nat.le_of_lt_succ hByte)
  rw [reader, after, Name.byteLength, hSize, Name.byteLength]

private theorem Within.bump_eq (h : cursor.Within text) {c : Char} (hByte : c.toNat < 128)
    {rest : List Char} (hRest : cursor.rest = c :: rest) :
    (cursor.reader text).bump = (cursor.after [c] rest).reader text := by
  obtain ⟨byte, _, hPeek⟩ := h.peek_cons hRest
  rw [Reader.bump, hPeek, reader_after hByte]
  rfl

end Cursor

/-! ## Agreement -/

namespace Descriptor

open Cursor

variable {α β : Type} {text : String} {cursor : Cursor}

/-- The answer on bytes is the answer on characters, and stops between two of them. -/
structure AgreesAt (text : String) (onBytes : Reader.Read α) (answer : Read α) : Prop where
  eq : onBytes = (answer.1, answer.2.reader text)
  within : answer.2.Within text

/-- The reader on bytes agrees with the one on characters, from wherever it starts. -/
def Agrees (onBytes : Reader → Reader.Read α) (read : Cursor → Read α) : Prop :=
  ∀ text cursor, cursor.Within text → AgreesAt text (onBytes (cursor.reader text)) (read cursor)

/-- An answer made from that of another reader. -/
theorem AgreesAt.map {onBytes : Reader.Read α} {answer : Read α}
    (h : AgreesAt text onBytes answer) (f : α → β) :
    AgreesAt text (onBytes.map f) (answer.map f) :=
  ⟨by rw [h.eq]; rfl, h.within⟩

/-- The answers of two readers one after the other. -/
theorem AgreesAt.andThen {onBytes : Reader.Read α} {answer : Read α}
    {next : α → Reader → Reader.Read β} {next' : α → Cursor → Read β}
    (h : AgreesAt text onBytes answer)
    (hNext : ∀ a stop, stop.Within text →
      AgreesAt text (next a (stop.reader text)) (next' a stop)) :
    AgreesAt text (onBytes.andThen next) (answer.andThen next') := by
  obtain ⟨outcome, stop⟩ := answer
  rw [h.eq]
  cases outcome with
  | error e => exact ⟨rfl, h.within⟩
  | ok a => exact hNext a stop h.within

/-- A primitive type is read from its letter alone. -/
theorem ofCode?_eq_some {c : Char} {p : Primitive} :
    Primitive.ofCode? c = some p ↔ c = p.code := by
  constructor
  · intro h
    unfold Primitive.ofCode? at h
    split at h <;> cases h <;> rfl
  · rintro rfl
    exact Primitive.ofCode?_code p

private theorem code_lt (p : Primitive) : p.code.toNat < 128 := by
  cases p <;> decide

/-- The letter of a primitive type is told from its byte. -/
theorem ofByte?_eq {c : Char} {byte : UInt8} (hByte : byte ∈ String.utf8EncodeChar c) :
    Primitive.ofByte? byte = Primitive.ofCode? c := by
  refine Option.ext fun p => ?_
  rw [Primitive.ofByte?, ofCode?_eq_some, ofCode?_eq_some]
  have hCode : Char.ofUInt8 byte = p.code ↔ byte = p.code.toUInt8 := by
    rw [← Char.toNat_inj, ← UInt8.toNat_inj, Text.toNat_toUInt8 (code_lt p)]
    rfl
  rw [hCode]
  constructor
  · rintro rfl
    exact (Text.mem_encode_iff (code_lt p)).mp hByte
  · rintro rfl
    rw [Text.encode_eq (code_lt p), List.mem_singleton] at hByte
    exact hByte

/-- The readers of primitive types, on bytes and on characters, agree. -/
theorem agrees_primitive : Agrees Reader.readPrimitive readPrimitive := by
  intro text cursor h
  unfold Reader.readPrimitive readPrimitive
  cases hRest : cursor.rest with
  | nil =>
      rw [h.peek_nil hRest]
      exact ⟨rfl, h⟩
  | cons c rest =>
      obtain ⟨byte, hByte, hPeek⟩ := h.peek_cons hRest
      simp only [hPeek, Option.bind_some, ofByte?_eq hByte]
      cases hCode : Primitive.ofCode? c with
      | none => exact ⟨rfl, h⟩
      | some p =>
          obtain rfl := ofCode?_eq_some.mp hCode
          exact ⟨congrArg _ (h.bump_eq (code_lt p) hRest), h.passes (passes_after hRest)⟩

/-- A name is cut out of the text up to the first `;`. -/
theorem takeUntil_eq (h : cursor.Within text) {name rest : List Char}
    (hRest : cursor.rest = name ++ ';' :: rest) (hName : ';' ∉ name) (reason : Reason) :
    (cursor.reader text).takeUntil ';' reason =
      (.ok (String.ofList name), (cursor.after (name ++ [';']) rest).reader text) := by
  have hFree : ∀ byte ∈ name.flatMap String.utf8EncodeChar, (byte == ';'.toUInt8) = false := by
    intro byte hByte
    obtain ⟨c, hc, hMem⟩ := List.mem_flatMap.mp hByte
    rw [beq_eq_false_iff_ne]
    rintro rfl
    rw [(Text.mem_encode_iff (by decide)).mp hMem] at hc
    exact hName hc
  have hFound : ((Text.bytes text).drop cursor.offset).findIdx? (· == ';'.toUInt8) =
      some (String.ofList name).utf8ByteSize := by
    rw [h.drop_bytes, hRest, List.flatMap_append, List.findIdx?_append,
      List.findIdx?_eq_none_iff.mpr hFree, Option.none_or, List.flatMap_cons,
      Text.encode_eq (c := ';') (by decide), ← Text.length_bytes, Text.bytes_ofList]
    simp [List.findIdx?_cons]
  obtain ⟨front, hText, hOffset⟩ := h.exists_append
  have hSlice : Text.slice? text cursor.offset
      (cursor.offset + (String.ofList name).utf8ByteSize) = some (String.ofList name) := by
    have hSplit : text = front ++ (String.ofList name ++ String.ofList (';' :: rest)) := by
      rw [← String.ofList_append, ← hRest]
      exact hText
    rw [hOffset]
    exact Text.slice?_eq_some hSplit
  have hLe : cursor.offset ≤ (Text.bytes text).length := by
    rw [Text.length_bytes]
    exact h.offset_le
  have hSize : Name.byteLength (name ++ [';']) = (String.ofList name).utf8ByteSize + 1 := by
    rw [Name.byteLength_append, Text.utf8ByteSize_ofList]
    rfl
  simp only [Reader.takeUntil, reader, if_pos hLe, hFound, hSlice, after, hSize, Nat.add_assoc]

/-- Without a `;` no name ends. -/
theorem takeUntil_open (h : cursor.Within text) (hOpen : ';' ∉ cursor.rest) (reason : Reason) :
    (cursor.reader text).takeUntil ';' reason = (.error reason, cursor.reader text) := by
  have hNone : ((Text.bytes text).drop cursor.offset).findIdx? (· == ';'.toUInt8) = none := by
    rw [h.drop_bytes, List.findIdx?_eq_none_iff]
    intro byte hByte
    obtain ⟨c, hc, hMem⟩ := List.mem_flatMap.mp hByte
    rw [beq_eq_false_iff_ne]
    rintro rfl
    rw [(Text.mem_encode_iff (by decide)).mp hMem] at hc
    exact hOpen hc
  have hLe : cursor.offset ≤ (Text.bytes text).length := by
    rw [Text.length_bytes]
    exact h.offset_le
  simp only [Reader.takeUntil, reader, if_pos hLe, hNone]

/-- A character that is asked for. -/
theorem expect_eq (h : cursor.Within text) {expected : Char} (hByte : expected.toNat < 128)
    {rest : List Char} (hRest : cursor.rest = expected :: rest) (reason : Reason) :
    (cursor.reader text).expect expected reason =
      (.ok (), (cursor.after [expected] rest).reader text) := by
  rw [Reader.expect, if_pos ((h.peek_eq_some_iff hByte).mpr ⟨rest, hRest⟩), reader_after hByte]
  rfl

private theorem expect_other (h : cursor.Within text) {expected : Char}
    (hByte : expected.toNat < 128)
    (hOther : ∀ rest, cursor.rest ≠ expected :: rest) (reason : Reason) :
    (cursor.reader text).expect expected reason = (.error reason, cursor.reader text) := by
  rw [Reader.expect, if_neg fun hPeek => ?_]
  obtain ⟨rest, hRest⟩ := (h.peek_eq_some_iff hByte).mp hPeek
  exact hOther rest hRest

/-- The readers of class names agree. -/
theorem agrees_class : Agrees Reader.readClass readClass := by
  intro text cursor h
  unfold Reader.readClass
  by_cases hOpen : ∃ rest, cursor.rest = 'L' :: rest
  · obtain ⟨rest, hRest⟩ := hOpen
    have hInside : (cursor.after ['L'] rest).Within text := h.passes (passes_after hRest)
    rw [expect_eq h (by decide) hRest, Reader.Read.andThen]
    by_cases hMark : ';' ∈ rest
    · obtain ⟨name, others, rfl, hName⟩ := List.eq_append_cons_of_mem hMark
      rw [readClass_named hRest hName, takeUntil_eq hInside rfl hName, Reader.Read.andThen,
        after_after]
      have hPasses : cursor.Passes ('L' :: (name ++ [';']))
          (cursor.after ('L' :: (name ++ [';'])) others) :=
        passes_after (by rw [hRest, List.cons_append, List.append_assoc]; rfl)
      cases ClassName.ofString? (String.ofList name) with
      | error e => exact ⟨rfl, hInside⟩
      | ok cls => exact ⟨rfl, h.passes hPasses⟩
    · rw [readClass_open hRest hMark, takeUntil_open hInside hMark, Reader.Read.andThen]
      exact ⟨rfl, hInside⟩
  · have hOther : ∀ rest, cursor.rest ≠ 'L' :: rest := fun rest hRest => hOpen ⟨rest, hRest⟩
    rw [expect_other h (by decide) hOther, readClass_other hOther, Reader.Read.andThen]
    exact ⟨rfl, h⟩

/-- The next character is told from its first byte, where that is a byte of its own. -/
theorem first_eq_iff {c d : Char} {byte : UInt8} (hByte : byte ∈ String.utf8EncodeChar c)
    (hd : d.toNat < 128) : byte = d.toUInt8 ↔ c = d := by
  constructor
  · rintro rfl
    exact (Text.mem_encode_iff hd).mp hByte
  · rintro rfl
    rwa [Text.encode_eq hd, List.mem_singleton] at hByte

private theorem rest_ne_of_ne {c d : Char} {rest : List Char} (hRest : cursor.rest = c :: rest)
    (h : c ≠ d) : ∀ more, cursor.rest ≠ d :: more := by
  intro more hMore
  exact h (List.cons.inj (hRest.symm.trans hMore)).1

private theorem agrees_element : Agrees Reader.readElement readElement := by
  intro text cursor h
  unfold Reader.readElement
  cases hRest : cursor.rest with
  | nil =>
      rw [h.peek_nil hRest, readElement_nil hRest]
      exact ⟨rfl, h⟩
  | cons c rest =>
      obtain ⟨byte, hByte, hPeek⟩ := h.peek_cons hRest
      simp only [hPeek, first_eq_iff (d := 'L') hByte (by decide)]
      by_cases hClass : c = 'L'
      · subst hClass
        rw [if_pos rfl, readElement_class hRest]
        exact (agrees_class text cursor h).map ValueType.object
      · rw [if_neg hClass, readElement_primitive (rest_ne_of_ne hRest hClass)
          (by rw [hRest]; exact List.cons_ne_nil c rest)]
        exact (agrees_primitive text cursor h).map ValueType.base

/-- Brackets are read one by one, up to the first that is one too many. -/
theorem readBrackets_eq {rest : List Char} (hEnd : ∀ more, rest ≠ '[' :: more) (allowed : Nat) :
    ∀ {cursor : Cursor} {n : Nat}, cursor.Within text →
      cursor.rest = List.replicate n '[' ++ rest →
      (cursor.reader text).readBrackets allowed =
        if allowed < n then
          (.error .tooManyDimensions,
            (cursor.after (List.replicate (allowed + 1) '[')
              (cursor.rest.drop (allowed + 1))).reader text)
        else (.ok n, (cursor.after (List.replicate n '[') rest).reader text) := by
  have hNone : ∀ {cursor : Cursor}, cursor.Within text → cursor.rest = rest →
      (cursor.reader text).peek ≠ some '['.toUInt8 := by
    intro cursor h hRest hPeek
    obtain ⟨more, hMore⟩ := (h.peek_eq_some_iff (by decide)).mp hPeek
    exact hEnd more (hRest.symm.trans hMore)
  induction allowed with
  | zero =>
      intro cursor n h hRest
      unfold Reader.readBrackets
      cases n with
      | zero =>
          rw [if_neg (hNone h hRest), if_neg (Nat.lt_irrefl 0)]
          obtain rfl : cursor.rest = rest := hRest
          rfl
      | succ n =>
          rw [if_pos ((h.peek_eq_some_iff (by decide)).mpr ⟨_, hRest⟩), if_pos (Nat.succ_pos n),
            h.bump_eq (by decide) hRest, hRest]
          rfl
  | succ allowed ih =>
      intro cursor n h hRest
      unfold Reader.readBrackets
      cases n with
      | zero =>
          rw [if_neg (hNone h hRest), if_neg (Nat.not_lt_zero _)]
          obtain rfl : cursor.rest = rest := hRest
          rfl
      | succ n =>
          have hNext : (cursor.after ['['] (List.replicate n '[' ++ rest)).Within text :=
            h.passes (passes_after hRest)
          have hBump : (cursor.reader text).bump =
              (cursor.after ['['] (List.replicate n '[' ++ rest)).reader text :=
            h.bump_eq (by decide) hRest
          rw [if_pos ((h.peek_eq_some_iff (by decide)).mpr ⟨_, hRest⟩)]
          simp only [hBump, ih hNext rfl]
          by_cases hMany : allowed < n
          · rw [if_pos hMany, if_pos (Nat.succ_lt_succ hMany), after_after, hRest]
            rfl
          · rw [if_neg hMany, if_neg (fun h => hMany (Nat.lt_of_succ_lt_succ h)), after_after]
            rfl

private theorem agrees_array {rest : List Char} (h : cursor.Within text)
    (hRest : cursor.rest = '[' :: rest) :
    AgreesAt text (cursor.reader text).readRef (readArray cursor) := by
  obtain ⟨n, others, rfl, hEnd⟩ := exists_brackets rest
  have hBrackets : cursor.rest = List.replicate (n + 1) '[' ++ others := hRest
  rw [readArray_eq hBrackets hEnd, Reader.readRef,
    readBrackets_eq hEnd maxDimensions h hBrackets, maxDimensions]
  by_cases hMany : 255 < n + 1
  · rw [if_pos hMany, if_pos hMany]
    have hTake : cursor.rest.take 256 = List.replicate 256 '[' := by
      rw [hBrackets, List.take_append_of_le_length (by rw [List.length_replicate]; exact hMany),
        List.take_replicate, Nat.min_eq_left hMany]
    have hSplit : cursor.rest = List.replicate 256 '[' ++ cursor.rest.drop 256 := by
      rw [← hTake, List.take_append_drop]
    exact ⟨rfl, h.passes (passes_after hSplit)⟩
  · rw [if_neg hMany, if_neg hMany]
    have hElement := agrees_element text (cursor.after (List.replicate (n + 1) '[') others)
      (h.passes (passes_after hBrackets))
    exact hElement.map fun inner => RefType.array (nest n inner)

/-- The readers of reference types agree. -/
theorem agrees_ref : Agrees Reader.readRef readRef := by
  intro text cursor h
  by_cases hOpen : ∃ rest, cursor.rest = '[' :: rest
  · obtain ⟨rest, hRest⟩ := hOpen
    rw [readRef_array hRest]
    exact agrees_array h hRest
  · have hOther : ∀ rest, cursor.rest ≠ '[' :: rest := fun rest hRest => hOpen ⟨rest, hRest⟩
    have hNone : cursor.rest = List.replicate 0 '[' ++ cursor.rest := rfl
    rw [readRef_class hOther, Reader.readRef, readBrackets_eq hOther maxDimensions h hNone,
      if_neg (Nat.not_lt_zero _)]
    exact (agrees_class text cursor h).map RefType.object

/-- The readers of value types agree. -/
theorem agrees_value : Agrees Reader.readValue readValue := by
  intro text cursor h
  unfold Reader.readValue
  cases hRest : cursor.rest with
  | nil =>
      have hOther : ∀ more, cursor.rest ≠ '[' :: more := by
        rw [hRest]
        exact fun _ => (List.cons_ne_nil _ _).symm
      rw [h.peek_nil hRest, readValue_element hOther, readElement_nil hRest]
      exact ⟨rfl, h⟩
  | cons c rest =>
      obtain ⟨byte, hByte, hPeek⟩ := h.peek_cons hRest
      simp only [hPeek, first_eq_iff (d := 'L') hByte (by decide),
        first_eq_iff (d := '[') hByte (by decide)]
      by_cases hArray : c = '['
      · subst hArray
        rw [if_pos (.inr rfl), readValue_array hRest]
        exact (agrees_array h hRest).map RefType.toValue
      · have hOther := rest_ne_of_ne hRest hArray
        rw [readValue_element hOther]
        by_cases hClass : c = 'L'
        · subst hClass
          rw [if_pos (.inl rfl), readElement_class hRest]
          have hRef := (agrees_ref text cursor h).map RefType.toValue
          rw [readRef_class hOther] at hRef
          have hMap : ((readClass cursor).map RefType.object).map RefType.toValue =
              (readClass cursor).map ValueType.object := by
            cases readClass cursor with
            | mk answer stop => cases answer <;> rfl
          exact hMap ▸ hRef
        · rw [if_neg (not_or.mpr ⟨hClass, hArray⟩), readElement_primitive
            (rest_ne_of_ne hRest hClass) (by rw [hRest]; exact List.cons_ne_nil c rest)]
          exact (agrees_primitive text cursor h).map ValueType.base

private theorem agrees_parameters (rounds : Nat) :
    Agrees (Reader.readParameters rounds) (readParameters rounds) := by
  induction rounds with
  | zero => exact fun text cursor h => ⟨rfl, h⟩
  | succ rounds ih =>
      intro text cursor h
      unfold Reader.readParameters
      cases hRest : cursor.rest with
      | nil =>
          rw [h.peek_nil hRest, readParameters_nil hRest]
          exact ⟨rfl, h⟩
      | cons c rest =>
          obtain ⟨byte, hByte, hPeek⟩ := h.peek_cons hRest
          simp only [hPeek, first_eq_iff (d := ')') hByte (by decide)]
          by_cases hClose : c = ')'
          · subst hClose
            rw [if_pos rfl, h.bump_eq (by decide) hRest, readParameters_close hRest]
            exact ⟨rfl, h.passes (passes_after hRest)⟩
          · rw [if_neg hClose, readParameters_value rounds (rest_ne_of_ne hRest hClose)
              (by rw [hRest]; exact List.cons_ne_nil c rest)]
            exact (agrees_value text cursor h).andThen fun type next hNext =>
              (ih text next hNext).map (type :: ·)

private theorem agrees_result : Agrees Reader.readResult readResult := by
  intro text cursor h
  unfold Reader.readResult
  by_cases hVoid : ∃ rest, cursor.rest = 'V' :: rest
  · obtain ⟨rest, hRest⟩ := hVoid
    rw [if_pos ((h.peek_eq_some_iff (by decide)).mpr ⟨rest, hRest⟩),
      h.bump_eq (by decide) hRest, readResult_none hRest]
    exact ⟨rfl, h.passes (passes_after hRest)⟩
  · rw [if_neg fun hPeek => hVoid ((h.peek_eq_some_iff (by decide)).mp hPeek),
      readResult_value fun rest hRest => hVoid ⟨rest, hRest⟩]
    exact (agrees_value text cursor h).map some

/-- The readers of signatures agree. -/
theorem agrees_signature : Agrees Reader.readSignature readSignature := by
  intro text cursor h
  unfold Reader.readSignature
  by_cases hOpen : ∃ rest, cursor.rest = '(' :: rest
  · obtain ⟨rest, hRest⟩ := hOpen
    have hInside : (cursor.after ['('] rest).Within text := h.passes (passes_after hRest)
    rw [readSignature_open hRest, h.size_eq, expect_eq h (by decide) hRest]
    exact (agrees_parameters _ text _ hInside).andThen fun types next hNext =>
      (agrees_result text next hNext).map (Signature.mk types)
  · have hOther : ∀ rest, cursor.rest ≠ '(' :: rest := fun rest hRest => hOpen ⟨rest, hRest⟩
    rw [expect_other h (by decide) hOther, readSignature_other hOther, Reader.Read.andThen]
    exact ⟨rfl, h⟩

/-- **Reading bytes is reading characters**: on whole texts. -/
theorem Agrees.parse_eq {onBytes : Reader → Reader.Read α} {read : Cursor → Read α}
    (h : Agrees onBytes read) : Reader.parse onBytes = parse read := by
  funext text
  obtain ⟨hEq, hWithin⟩ := h text (.start text) (within_start text)
  have hStart : onBytes (.start text) = _ := hEq
  unfold Reader.parse parse
  rw [hStart]
  cases hAnswer : read (.start text) with
  | mk answer stop =>
      rw [hAnswer] at hWithin
      cases answer with
      | error reason => rfl
      | ok value =>
          cases hRest : stop.rest with
          | nil => simp only [hWithin.peek_nil hRest, hRest, Option.isSome_none, List.isEmpty_nil,
              if_true, Bool.false_eq_true, if_false]
          | cons c rest =>
              obtain ⟨byte, _, hPeek⟩ := hWithin.peek_cons hRest
              simp only [hPeek, hRest, Option.isSome_some, List.isEmpty_cons, if_true,
                Bool.false_eq_true, if_false]
              rfl

end Descriptor

end HotPatch
