import Mathlib.Data.List.Chain
import HotPatch.Boxing

/-!
# Runs of registers

The registers of a call over a range must be one run.  A run inside one bank
stays a run when the frame grows; one that crosses from the locals to the
parameters does not.  Registers that are handed out in order are a run
(`absoluteSlots_layout`).

Indices count in 16 bits.  Handing out registers fails exactly if the index
after the last one does not fit (`assign_eq`), and positions that go up can be
compared as long as the last one fits (`isContiguous?_eq`).
-/

namespace HotPatch

/-! ## Runs -/

namespace RegisterList

private theorem isRun_map_add (offset : Nat) :
    ∀ positions : List Nat, isRun (positions.map (offset + ·)) = isRun positions
  | [] => rfl
  | [_] => rfl
  | a :: b :: rest => by
      have hStep : (offset + b == offset + a + 1) = (b == a + 1) := by
        rw [Bool.eq_iff_iff, beq_iff_eq, beq_iff_eq]
        omega
      have ih := isRun_map_add offset (b :: rest)
      simp only [List.map_cons] at ih
      simp only [List.map_cons, isRun, hStep, ih]

/-- Consecutive positions are a run. -/
theorem isRun_range' (count : Nat) :
    ∀ start : Nat, isRun (List.range' start count) = true := by
  induction count with
  | zero => intro start; rfl
  | succ count ih =>
      intro start
      cases count with
      | zero => rfl
      | succ count =>
          have hRest := ih (start + 1)
          rw [List.range'_succ] at hRest
          simp only [List.range'_succ, isRun, beq_self_eq_true, Bool.true_and, hRest]

@[simp] theorem slotCount_append (front back : RegisterList) :
    slotCount (front ++ back) = slotCount front + slotCount back := by
  induction front with
  | nil => simp [slotCount]
  | cons r rest ih => simp only [List.cons_append, slotCount, ih]; omega

theorem absoluteSlots_cons (r : Register) (rest : RegisterList) (locals : Nat) :
    absoluteSlots (r :: rest) locals =
      r.slots.map (·.absolute locals) ++ absoluteSlots rest locals := by
  simp [absoluteSlots]

end RegisterList

/-- Position of the first register of a bank. -/
def Bank.start (locals : Nat) : Bank → Nat
  | .locals => 0
  | .params => locals

/-- The positions of a register's slots, from the start of its bank on. -/
theorem Register.map_absolute_slots (r : Register) (locals : Nat) :
    r.slots.map (·.absolute locals) = (r.slots.map (·.index)).map (r.bank.start locals + ·) := by
  obtain ⟨bank, index, wide⟩ := r
  cases bank <;> cases wide <;>
    simp [Register.slots, Register.narrow, Register.withWide, Register.absolute, Bank.start]

namespace RegisterList

/-- Within one bank, positions are indices counted from where the bank starts. -/
theorem absoluteSlots_of_bank {args : RegisterList} {bank : Bank}
    (h : ∀ r ∈ args, r.bank = bank) (locals : Nat) :
    absoluteSlots args locals =
      ((args.flatMap Register.slots).map (·.index)).map (bank.start locals + ·) := by
  induction args with
  | nil => rfl
  | cons r rest ih =>
      rw [absoluteSlots_cons, r.map_absolute_slots, h r List.mem_cons_self,
        ih fun s hs => h s (List.mem_cons_of_mem r hs)]
      simp

/-- A run inside one bank is one in a frame of any size. -/
theorem isContiguous_of_bank {args : RegisterList} {bank : Bank} (h : ∀ r ∈ args, r.bank = bank)
    (locals locals' : Nat) : isContiguous args locals' = isContiguous args locals := by
  rw [isContiguous, isContiguous, absoluteSlots_of_bank h, absoluteSlots_of_bank h, isRun_map_add,
    isRun_map_add]

end RegisterList

/-! ## Runs in 16 bits -/

namespace RegisterList

/-- A run goes up. -/
theorem isChain_of_isRun : ∀ {positions : List Nat}, isRun positions = true →
    positions.IsChain (· < ·)
  | [], _ => .nil
  | [_], _ => .singleton _
  | a :: b :: rest, h => by
      rw [isRun, Bool.and_eq_true, beq_iff_eq] at h
      exact .cons_cons (h.1 ▸ Nat.lt_succ_self a) (isChain_of_isRun h.2)

/-- Positions that go up are compared without leaving the indices. -/
theorem isRun?_eq : ∀ {positions : List Nat}, positions.IsChain (· < ·) →
    (∀ p ∈ positions, p ≤ Register.maxIndex) → isRun? positions = some (isRun positions)
  | [], _, _ => rfl
  | [_], _, _ => rfl
  | a :: b :: rest, hUp, hLe => by
      obtain ⟨hLt, hUp⟩ := List.isChain_cons_cons.mp hUp
      obtain ⟨_, hLe⟩ := List.forall_mem_cons.mp hLe
      have hNext : a < Register.maxIndex := Nat.lt_of_lt_of_le hLt (hLe b List.mem_cons_self)
      rw [isRun?, if_pos hNext, isRun?_eq hUp hLe, isRun]
      cases b == a + 1 <;> rfl

private theorem isRun_of_isRun? : ∀ {positions : List Nat}, isRun? positions = some true →
    isRun positions = true
  | [], _ => rfl
  | [_], _ => rfl
  | a :: b :: rest, h => by
      rw [isRun?] at h
      split at h
      · split at h
        · next hNext =>
            rw [isRun, hNext, isRun_of_isRun? h]
            rfl
        · cases h
      · cases h

variable {args : RegisterList} {locals : Nat}

/-- The checked test agrees with the plain one as long as the positions can be counted. -/
theorem isContiguous?_eq (hUp : (absoluteSlots args locals).IsChain (· < ·))
    (hLe : ∀ p ∈ absoluteSlots args locals, p ≤ Register.maxIndex) :
    isContiguous? args locals = some (isContiguous args locals) := by
  have hAll : (absoluteSlots args locals).all (· ≤ Register.maxIndex) = true := by
    simpa using hLe
  rw [isContiguous?, absoluteSlots?, if_pos hAll, Option.bind_some, isRun?_eq hUp hLe]
  rfl

/-- Registers are accepted as a run if they are one and every position is an index. -/
theorem isContiguous?_eq_true_iff :
    isContiguous? args locals = some true ↔
      isContiguous args locals = true ∧
        ∀ p ∈ absoluteSlots args locals, p ≤ Register.maxIndex := by
  constructor
  · intro h
    obtain ⟨slots, hSlots, hRun⟩ := Option.bind_eq_some_iff.mp h
    rw [absoluteSlots?] at hSlots
    split at hSlots
    · next hAll =>
        obtain rfl := Option.some.inj hSlots
        exact ⟨isRun_of_isRun? hRun, by simpa using hAll⟩
    · cases hSlots
  · rintro ⟨hRun, hLe⟩
    rw [isContiguous?_eq (isChain_of_isRun hRun) hLe, hRun]

end RegisterList

/-! ## Registers handed out in order -/

/-- Every value takes a register. -/
theorem ValueType.length_le_totalWidth (types : List ValueType) :
    types.length ≤ totalWidth types := by
  induction types with
  | nil => exact Nat.le_refl 0
  | cons type rest ih =>
      have hWidth : 1 ≤ type.width := by
        unfold width
        split <;> decide
      rw [List.length_cons, totalWidth]
      omega

theorem ValueType.totalWidth_replicate (count : Nat) (type : ValueType) :
    totalWidth (.replicate count type) = count * type.width := by
  induction count with
  | zero => rw [Nat.zero_mul]; rfl
  | succ count ih =>
      rw [List.replicate_succ, totalWidth, ih, Nat.succ_mul, Nat.add_comm]

/-- Values that have registers can be counted in an `int`. -/
theorem ValueType.length_lt_of_totalWidth {types : List ValueType}
    (h : totalWidth types ≤ Register.maxIndex) : types.length < 0x80000000 := by
  have hLength := length_le_totalWidth types
  rw [Register.maxIndex] at h
  omega

theorem Signature.length_lt_of_slots {s : Signature} {hasReceiver : Bool}
    (h : s.slots hasReceiver ≤ Register.maxIndex) : s.parameters.length < 0x80000000 :=
  ValueType.length_lt_of_totalWidth (Nat.le_trans (Nat.le_add_left _ _) h)

namespace Boxing

/-- Consecutive registers of a bank for values of the given types, however many these are. -/
def layout (bank : Bank) (next : Nat) : List ValueType → List (Register × ValueType)
  | [] => []
  | type :: rest => (⟨bank, next, type.isWide⟩, type) :: layout bank (next + type.width) rest

/-- The registers are of the bank, each as wide as its type. -/
theorem bank_of_mem_layout {bank : Bank} {types : List ValueType} :
    ∀ {next : Nat} {x : Register × ValueType}, x ∈ layout bank next types →
      x.1.bank = bank ∧ x.1.wide = x.2.isWide := by
  induction types with
  | nil => intro next x h; cases h
  | cons type rest ih =>
      intro next x h
      rcases List.mem_cons.mp h with rfl | hMem
      · exact ⟨rfl, rfl⟩
      · exact ih hMem

/-- Registers are handed out as long as the index after the last one fits. -/
theorem assign_eq (bank : Bank) (types : List ValueType) :
    ∀ {next : Nat}, next ≤ Register.maxIndex →
      assign bank next types =
        if next + ValueType.totalWidth types ≤ Register.maxIndex then .ok (layout bank next types)
        else .error .indexOverflow := by
  induction types with
  | nil =>
      intro next hNext
      rw [ValueType.totalWidth, Nat.add_zero, if_pos hNext]
      rfl
  | cons type rest ih =>
      intro next hNext
      rw [ValueType.totalWidth, ← Nat.add_assoc]
      by_cases hFits : next + type.width ≤ Register.maxIndex
      · have hAdvance : advance next type = .ok (next + type.width) := if_pos hFits
        simp only [assign, hAdvance, bind, Except.bind, ih hFits]
        by_cases hAll : next + type.width + ValueType.totalWidth rest ≤ Register.maxIndex
        · rw [if_pos hAll, if_pos hAll]
          rfl
        · rw [if_neg hAll, if_neg hAll]
      · have hAdvance : advance next type = .error .indexOverflow := if_neg hFits
        rw [if_neg fun h => hFits (Nat.le_trans (Nat.le_add_right _ _) h)]
        simp only [assign, hAdvance, bind, Except.bind]

/-- Registers are assigned exactly as long as they can be counted, and then in a row. -/
theorem assign_eq_ok_iff {bank : Bank} {next : Nat} {types : List ValueType}
    {registers : List (Register × ValueType)} (h : next ≤ Register.maxIndex) :
    assign bank next types = .ok registers ↔
      next + ValueType.totalWidth types ≤ Register.maxIndex ∧
        registers = layout bank next types := by
  rw [assign_eq bank types h]
  split
  · next hFits => simp [hFits, eq_comm]
  · next hFits => simp [hFits]

/-- The registers of the declared parameters, however many these are. -/
def declared (s : Signature) (hasReceiver : Bool) : List (Register × ValueType) :=
  layout .params hasReceiver.toNat s.parameters

/-- Parameters have registers exactly as long as these can be counted. -/
theorem parameters_eq_ok_iff {s : Signature} {hasReceiver : Bool}
    {registers : List (Register × ValueType)} :
    parameters s hasReceiver = .ok registers ↔
      s.slots hasReceiver ≤ Register.maxIndex ∧ registers = declared s hasReceiver :=
  assign_eq_ok_iff (by cases hasReceiver <;> decide)

/-- Parameters past the last index are refused. -/
theorem parameters_eq_error_iff {s : Signature} {hasReceiver : Bool} {e : BodyError} :
    parameters s hasReceiver = .error e ↔
      Register.maxIndex < s.slots hasReceiver ∧ e = .indexOverflow := by
  rw [parameters, assign_eq .params s.parameters (by cases hasReceiver <;> decide), Signature.slots]
  split
  · next hFits => simp [Nat.not_lt.mpr hFits]
  · next hFits => simp [Nat.not_le.mp hFits, eq_comm]

end Boxing

namespace Boxing

open RegisterList

/-- Registers in a row take as many slots as their types are wide. -/
theorem slotCount_layout (bank : Bank) (types : List ValueType) :
    ∀ next, slotCount ((layout bank next types).map Prod.fst) = ValueType.totalWidth types := by
  induction types with
  | nil => intro next; rfl
  | cons type rest ih =>
      intro next
      rw [layout, List.map_cons, slotCount, ih, ValueType.totalWidth]
      rfl

/-- Registers handed out in order are a run. -/
theorem absoluteSlots_layout (bank : Bank) (locals : Nat) (types : List ValueType) :
    ∀ next, absoluteSlots ((layout bank next types).map Prod.fst) locals =
      List.range' (bank.start locals + next) (ValueType.totalWidth types) := by
  induction types with
  | nil => intro next; rfl
  | cons type rest ih =>
      intro next
      rw [layout, List.map_cons, absoluteSlots_cons, ih, Register.map_absolute_slots,
        ValueType.totalWidth, ← List.range'_append_1, Nat.add_assoc]
      congr 1
      cases hWide : type.isWide <;>
        simp [Register.slots, Register.narrow, Register.withWide, ValueType.width, hWide,
          List.range'_succ, Nat.add_assoc]

end Boxing

end HotPatch
