import HotPatch.Proofs.Bytecode.Machine
import HotPatch.Proofs.Intercept.Shape
import HotPatch.Proofs.Receiver.Visits

/-!
# The receiver in the code for the interceptor

The code behind an intercepted constructor leaves the receiver alone until it
calls a constructor on it.  Most of its instructions do not even name a
register that holds the receiver (`Ignores`); what is left is the copy that
the range form of a call needs, and the calls themselves.
-/

namespace HotPatch

namespace Instruction

/-- An instruction names the register that it writes. -/
theorem written_mem_registers {i : Instruction} {r : Register} (h : i.written? = some r) :
    r ∈ i.registers := by
  cases i <;> cases h <;> exact List.mem_cons_self

private theorem mem_registers_of_reads {i : Instruction} {r : Register} (h : r ∈ i.reads) :
    r ∈ i.registers := by
  unfold reads at h
  split at h
  · exact List.mem_of_mem_tail h
  · exact h

end Instruction

namespace Receiver

/-- The register covers no member of the set. -/
def Avoids (s : RegisterSet) (r : Register) : Prop := ∀ slot ∈ r.slots, slot ∉ s

instance (s : RegisterSet) (r : Register) : Decidable (Avoids s r) :=
  inferInstanceAs (Decidable (∀ slot ∈ r.slots, slot ∉ s))

private theorem narrow_mem_slots (r : Register) : r.narrow ∈ r.slots := by
  unfold Register.slots
  split <;> exact List.mem_cons_self

/-- A register above all members of its bank covers none of them. -/
theorem avoids_of_above {s : RegisterSet} {r : Register}
    (h : ∀ x ∈ s, x.bank = r.bank → x.index < r.index) : Avoids s r := by
  intro slot hSlot hMem
  have hAbove : slot.bank = r.bank ∧ r.index ≤ slot.index := by
    unfold Register.slots at hSlot
    split at hSlot
    · rcases List.mem_cons.mp hSlot with rfl | hSlot
      · exact ⟨rfl, Nat.le_refl _⟩
      · obtain rfl := List.mem_singleton.mp hSlot
        exact ⟨rfl, Nat.le_succ _⟩
    · obtain rfl := List.mem_singleton.mp hSlot
      exact ⟨rfl, Nat.le_refl _⟩
  have hBelow := h slot hMem hAbove.1
  omega

/-- The instruction goes straight on, and none of its operands is in the set. -/
structure Ignores (s : RegisterSet) (i : Instruction) : Prop where
  straight : Straight i
  move : ∀ dst src, i ≠ .move .object dst src
  operands : ∀ r ∈ i.registers, Avoids s r

namespace Ignores

variable {s : RegisterSet} {i : Instruction}

theorem of (operands : List Register) (hStraight : Straight i)
    (hMove : ∀ dst src, i ≠ .move .object dst src) (hOperands : i.registers = operands)
    (h : ∀ r ∈ operands, Avoids s r) : Ignores s i :=
  ⟨hStraight, hMove, hOperands ▸ h⟩

theorem initOn? (h : Ignores s i) : initOn? s i = none := by
  refine Option.not_isSome_iff_eq_none.mp fun hSome => ?_
  obtain ⟨r, method, hCall, hMem⟩ := initOn?_isSome_iff.mp hSome
  obtain ⟨form, x, args, rfl, rfl, _⟩ := initCall?_eq_some hCall
  exact h.operands x List.mem_cons_self _ (narrow_mem_slots x) hMem

theorem transfer (h : Ignores s i) : transfer i s = s := by
  rw [transfer_of_ne s h.move, h.initOn?]
  cases hWritten : i.written? with
  | none => rfl
  | some w =>
      have hAvoids := h.operands w (Instruction.written_mem_registers hWritten)
      have hKeep : ∀ slots : List Register, (∀ slot ∈ slots, slot ∉ s) →
          slots.foldl (fun s slot => RegisterSet.remove slot s) s = s := by
        intro slots hSlots
        induction slots with
        | nil => rfl
        | cons slot rest ih =>
            have hSlot : RegisterSet.remove slot s = s := by
              refine List.filter_eq_self.mpr fun r hr => ?_
              rw [bne_iff_ne]
              rintro rfl
              exact hSlots r List.mem_cons_self hr
            rw [List.foldl_cons, hSlot]
            exact ih fun x hx => hSlots x (List.mem_cons_of_mem slot hx)
      exact hKeep w.slots hAvoids

end Ignores

/-- Code that ignores the receiver leaves the registers that hold it. -/
theorem after_of_ignores {s : RegisterSet} {line : List Instruction}
    (h : ∀ i ∈ line, Ignores s i) : after s line = s := by
  induction line with
  | nil => rfl
  | cons i rest ih =>
      show after (transfer i s) rest = s
      rw [(h i List.mem_cons_self).transfer]
      exact ih fun j hj => h j (List.mem_cons_of_mem i hj)

private theorem trail_of_ignores {s : RegisterSet} {line : List Instruction}
    (h : ∀ i ∈ line, Ignores s i) : trail s line = List.replicate line.length (some s) := by
  induction line with
  | nil => rfl
  | cons i rest ih =>
      rw [trail, (h i List.mem_cons_self).transfer,
        ih fun j hj => h j (List.mem_cons_of_mem i hj)]
      rfl

/-! ## Who uses the receiver -/

/-- Only the copy for a range call, and constructor calls, read a register that holds it. -/
def Discreet (code : List Instruction) (states : List State) : Prop :=
  ∀ (k : Nat) (i : Instruction) (s : RegisterSet) (r : Register), code[k]? = some i →
    states[k]? = some (some s) → r ∈ s → r ∈ i.readSlots →
    i = .move .object (.v 5) (.p 0) ∨ (initOn? s i).isSome

/-- Discreet code can be put together. -/
theorem Discreet.append {front back : List Instruction} {seen later : List State}
    (hLen : seen.length = front.length) (h : Discreet front seen) (h' : Discreet back later) :
    Discreet (front ++ back) (seen ++ later) := by
  intro k i s r hAt hState
  by_cases hk : k < front.length
  · rw [List.getElem?_append_left hk] at hAt
    rw [List.getElem?_append_left (hLen ▸ hk)] at hState
    exact h k i s r hAt hState
  · rw [List.getElem?_append_right (Nat.le_of_not_lt hk)] at hAt
    rw [List.getElem?_append_right (hLen ▸ Nat.le_of_not_lt hk), hLen] at hState
    exact h' _ i s r hAt hState

/-- Code that avoids the receiver in every state is discreet. -/
theorem discreet_of_operands {code : List Instruction} {states : List State}
    (h : ∀ i ∈ code, ∀ s, some s ∈ states → ∀ r ∈ i.registers, Avoids s r) :
    Discreet code states := by
  intro k i s r hAt hState hMem hRead
  obtain ⟨x, hx, hSlot⟩ := List.mem_flatMap.mp hRead
  exact (h i (List.mem_of_getElem? hAt) s (List.mem_of_getElem? hState) x
    (Instruction.mem_registers_of_reads hx) r hSlot hMem).elim

private theorem eq_of_mem_trail {s t : RegisterSet} {line : List Instruction}
    (h : ∀ i ∈ line, Ignores s i) (hMem : some t ∈ trail s line) : t = s := by
  rw [trail_of_ignores h, List.mem_replicate] at hMem
  exact Option.some.inj hMem.2

theorem discreet_of_ignores {s : RegisterSet} {line : List Instruction}
    (h : ∀ i ∈ line, Ignores s i) : Discreet line (trail s line) := by
  refine discreet_of_operands fun i hi t ht r hr => ?_
  obtain rfl := eq_of_mem_trail h ht
  exact (h i hi).operands r hr

/-- Code that ignores the receiver calls no constructor on it. -/
theorem initCalls_of_ignores {s : RegisterSet} {line : List Instruction}
    (h : ∀ i ∈ line, Ignores s i) : initCalls line (trail s line) = [] := by
  refine List.eq_nil_iff_forall_not_mem.mpr fun call hCall => ?_
  obtain ⟨t, i, hState, hAt, hInit⟩ := mem_initCalls.mp hCall
  obtain rfl := eq_of_mem_trail h (List.mem_of_getElem? hState)
  rw [(h i (List.mem_of_getElem? hAt)).initOn?] at hInit
  cases hInit

end Receiver

namespace Intercept

open Receiver

/-! ## Packing and unpacking -/

private theorem le_index_of_mem_layout {bank : Bank} {types : List ValueType} :
    ∀ {next : Nat} {x : Register × ValueType}, x ∈ Boxing.layout bank next types →
      next ≤ x.1.index := by
  induction types with
  | nil => intro next x h; cases h
  | cons first rest ih =>
      intro next x h
      rcases List.mem_cons.mp h with rfl | hMem
      · exact Nat.le_refl next
      · exact Nat.le_trans (Nat.le_add_right next _) (ih hMem)

/-- Packing arguments ignores the receiver. -/
theorem storeAll_ignores {s : RegisterSet} {array index scratch : Register}
    {values : List (Register × ValueType)} (hArray : Avoids s array) (hIndex : Avoids s index)
    (hScratch : Avoids s scratch) (hValues : ∀ v ∈ values, ∀ wide, Avoids s (v.1.withWide wide)) :
    ∀ i ∈ Boxing.storeAll array index scratch values, Ignores s i := by
  intro i hMem
  obtain ⟨⟨⟨value, type⟩, k⟩, hValue, hi⟩ := List.mem_flatMap.mp hMem
  have hAvoids := hValues (value, type) (List.fst_mem_of_mem_zipIdx hValue)
  have hOwn : Avoids s value := hAvoids value.wide
  cases type <;>
    simp only [Boxing.store, Boxing.box, List.cons_append, List.nil_append, List.mem_cons,
      List.not_mem_nil, or_false] at hi
  case base p =>
    rcases hi with rfl | rfl | rfl | rfl
    · exact .of [index] ⟨rfl, rfl⟩ (by simp) rfl (by simpa using hIndex)
    · exact .of [value.withWide p.isWide] ⟨rfl, rfl⟩ (by simp) rfl (by simpa using hAvoids _)
    · exact .of [scratch] ⟨rfl, rfl⟩ (by simp) rfl (by simpa using hScratch)
    · exact .of [scratch, array, index] ⟨rfl, rfl⟩ (by simp) rfl (by simp [*])
  all_goals
    rcases hi with rfl | rfl
    · exact .of [index] ⟨rfl, rfl⟩ (by simp) rfl (by simpa using hIndex)
    · exact .of [value, array, index] ⟨rfl, rfl⟩ (by simp) rfl (by simp [*])

private theorem loadAll_ignores {s : RegisterSet} {array index : Register}
    {values : List (Register × ValueType)} (hArray : Avoids s array) (hIndex : Avoids s index)
    (hValues : ∀ v ∈ values, ∀ wide, Avoids s (v.1.withWide wide)) :
    ∀ i ∈ Boxing.loadAll array index values, Ignores s i := by
  intro i hMem
  obtain ⟨⟨⟨dst, type⟩, k⟩, hValue, hi⟩ := List.mem_flatMap.mp hMem
  have hAvoids := hValues (dst, type) (List.fst_mem_of_mem_zipIdx hValue)
  have hNarrow : Avoids s dst.narrow := hAvoids false
  simp only [Boxing.load, List.mem_cons] at hi
  rcases hi with rfl | rfl | hi
  · exact .of [index] ⟨rfl, rfl⟩ (by simp) rfl (by simpa using hIndex)
  · exact .of [dst.narrow, array, index] ⟨rfl, rfl⟩ (by simp) rfl (by simp [*])
  · cases type with
    | base p =>
        simp only [Boxing.unbox, List.mem_cons, List.not_mem_nil, or_false] at hi
        rcases hi with rfl | rfl | rfl
        · exact .of [dst.narrow] ⟨rfl, rfl⟩ (by simp) rfl (by simpa using hNarrow)
        · exact .of [dst.narrow] ⟨rfl, rfl⟩ (by simp) rfl (by simpa using hNarrow)
        · exact .of [dst.withWide p.isWide] ⟨rfl, rfl⟩ (by simp) rfl (by simpa using hAvoids _)
    | object cls =>
        simp only [Boxing.unbox] at hi
        split at hi
        · cases hi
        · obtain rfl := List.mem_singleton.mp hi
          exact .of [dst.narrow] ⟨rfl, rfl⟩ (by simp) rfl (by simpa using hNarrow)
    | array element =>
        obtain rfl := List.mem_singleton.mp hi
        exact .of [dst.narrow] ⟨rfl, rfl⟩ (by simp) rfl (by simpa using hNarrow)

/-! ## A constructor call with unpacked arguments -/

/-- Unpacking leaves alone what is below the registers that it fills. -/
theorem unpack_ignores {s : RegisterSet} {next : Nat} (types : List ValueType)
    (h1 : Avoids s (.v 1)) (h3 : Avoids s (.v 3)) (h4 : Avoids s (.v 4))
    (hNext : ∀ x ∈ s, x.bank = .locals → x.index < next) :
    ∀ i ∈ (if (Boxing.layout .locals next types).isEmpty then []
      else .instanceGet .object (.v 3) (.v 1) Interceptor.callArgs ::
        Boxing.loadAll (.v 3) (.v 4) (Boxing.layout .locals next types)), Ignores s i := by
  intro i hi
  split at hi
  · cases hi
  · rcases List.mem_cons.mp hi with rfl | hi
    · exact .of [.v 3, .v 1] ⟨rfl, rfl⟩ (by simp) rfl (by simp [*])
    · refine loadAll_ignores h3 h4 ?_ i hi
      rintro ⟨r, type⟩ hMem wide
      have hBank : r.bank = .locals := (Boxing.bank_of_mem_layout hMem).1
      refine avoids_of_above fun x hx hx' => ?_
      exact Nat.lt_of_lt_of_le (hNext x hx (hx'.trans hBank)) (le_index_of_mem_layout hMem)

/-- What leads up to a constructor call: at most a copy of the receiver, and then only code that
leaves it alone. -/
theorem initCall_eq (target : MethodRef) :
    ∃ lead unpack form r args s, initCall target =
        lead ++ (unpack ++ [.invoke .direct form (r :: args) target]) ∧
      (lead = [] ∧ s = [.p 0] ∨ lead = [.move .object (.v 5) (.p 0)] ∧ s = [.v 5, .p 0]) ∧
      r.narrow ∈ s ∧ ∀ i ∈ unpack, Ignores s i := by
  unfold initCall callInit initLayout initStart
  by_cases hRanged : ranged target = true
  · simp only [hRanged, if_true]
    refine ⟨[.move .object (.v 5) (.p 0)], _, .range, .v 5, _, [.v 5, .p 0], rfl,
      .inr ⟨rfl, rfl⟩, by decide, ?_⟩
    exact unpack_ignores _ (by decide) (by decide) (by decide) (by decide)
  · simp only [hRanged]
    refine ⟨[], _, .fixed, .p 0, _, [.p 0], rfl, .inl ⟨rfl, rfl⟩, by decide, ?_⟩
    exact unpack_ignores _ (by decide) (by decide) (by decide) (by decide)

private theorem initOn?_invoke {s : RegisterSet} {form : InvokeForm} {r : Register}
    {args : List Register} {target : MethodRef} (hInit : target.name.isInit = true)
    (hMem : r.narrow ∈ s) :
    initOn? s (.invoke .direct form (r :: args) target) = some target := by
  simp [initOn?, initCall?, hInit, hMem]

/-- Calling a constructor is straight code. -/
theorem initCall_straight (target : MethodRef) : ∀ i ∈ initCall target, Straight i := by
  obtain ⟨lead, unpack, form, r, args, s, hEq, hLead, _, hUnpack⟩ := initCall_eq target
  rw [hEq]
  intro i hi
  simp only [List.mem_append, List.mem_singleton] at hi
  rcases hi with hi | hi | rfl
  · rcases hLead with ⟨rfl, _⟩ | ⟨rfl, _⟩
    · cases hi
    · obtain rfl := List.mem_singleton.mp hi
      exact ⟨rfl, rfl⟩
  · exact (hUnpack i hi).straight
  · exact ⟨rfl, rfl⟩

/-- A constructor call, its arguments unpacked: it is the one call on the receiver, nothing else
but the copy reads it, and behind it the receiver is initialized. -/
theorem initCall_analyzed {target : MethodRef} (hInit : target.name.isInit = true) :
    after [.p 0] (initCall target) = [] ∧
      Discreet (initCall target) (trail [.p 0] (initCall target)) ∧
      ∃ k, initCalls (initCall target) (trail [.p 0] (initCall target)) = [⟨k, target⟩] := by
  obtain ⟨lead, unpack, form, r, args, s, hEq, hLead, hMem, hUnpack⟩ := initCall_eq target
  have hOn : initOn? s (.invoke .direct form (r :: args) target) = some target :=
    initOn?_invoke hInit hMem
  have hAfter : after [.p 0] lead = s := by
    rcases hLead with ⟨rfl, rfl⟩ | ⟨rfl, rfl⟩ <;> rfl
  have hDiscreet : Discreet lead (trail [.p 0] lead) := by
    intro k i t x hAt _ _ _
    rcases hLead with ⟨rfl, _⟩ | ⟨rfl, _⟩
    · cases hAt
    · exact .inl (List.mem_singleton.mp (List.mem_of_getElem? hAt))
  have hCalls : initCalls lead (trail [.p 0] lead) = [] := by
    rcases hLead with ⟨rfl, _⟩ | ⟨rfl, _⟩ <;> rfl
  have hLast : Discreet [.invoke .direct form (r :: args) target]
      (trail s [.invoke .direct form (r :: args) target]) := by
    intro k i t x hAt hState _ _
    cases k with
    | succ k => cases hAt
    | zero =>
        obtain rfl := Option.some.inj hAt
        obtain rfl : s = t := Option.some.inj (Option.some.inj hState)
        exact .inr (by rw [hOn]; rfl)
  rw [hEq, trail_append, hAfter, trail_append, after_of_ignores hUnpack, after_append, hAfter,
    after_append, after_of_ignores hUnpack]
  refine ⟨?_, ?_, lead.length + unpack.length, ?_⟩
  · show transfer (.invoke .direct form (r :: args) target) s = []
    have hMove : ∀ dst src,
        Instruction.invoke .direct form (r :: args) target ≠ .move .object dst src := by simp
    rw [transfer_of_ne s hMove, hOn]
    rfl
  · exact hDiscreet.append (length_trail _ _)
      ((discreet_of_ignores hUnpack).append (length_trail _ _) hLast)
  · rw [initCalls_append (length_trail _ _), initCalls_append (length_trail _ _), hCalls,
      initCalls_of_ignores hUnpack]
    have hOne : initCalls [.invoke .direct form (r :: args) target]
        (trail s [.invoke .direct form (r :: args) target]) = [⟨0, target⟩] := by
      simp [initCalls, trail, before, hOn]
    rw [hOne]
    simp [Nat.add_comm]

/-! ## The block, piece by piece -/

/-- The code for the interceptor up to the test of its answer. -/
def opening (signature : Signature) (id : Nat) (intercept : Label) : List Instruction :=
  .label intercept :: (ownContext signature ++
    [.const (.v 2) (Int32.ofNat id),
      .invoke .interface .fixed [.v 0, .v 2, .v 1] Interceptor.invokeUnInit,
      .instanceGet .plain (.v 3) (.v 1) Interceptor.initFlag,
      .binaryLit .and (.v 4) (.v 3) Interceptor.interceptedBit])

/-- Making a context ignores the receiver. -/
theorem ownContext_ignores (signature : Signature) :
    ∀ i ∈ ownContext signature, Ignores [.p 0] i := by
  intro i hi
  simp only [ownContext, makeContext, List.mem_cons] at hi
  rcases hi with rfl | rfl | hi
  · exact .of [] ⟨rfl, rfl⟩ (by simp) rfl (by decide)
  · exact .of [.v 1] ⟨rfl, rfl⟩ (by simp) rfl (by decide)
  · split at hi
    · cases hi
    · simp only [List.mem_cons] at hi
      rcases hi with rfl | rfl | rfl | hi
      · exact .of [.v 2] ⟨rfl, rfl⟩ (by simp) rfl (by decide)
      · exact .of [.v 2, .v 2] ⟨rfl, rfl⟩ (by simp) rfl (by decide)
      · exact .of [.v 2, .v 1] ⟨rfl, rfl⟩ (by simp) rfl (by decide)
      · refine storeAll_ignores (by decide) (by decide) (by decide) ?_ i hi
        rintro ⟨r, type⟩ hMem wide
        refine avoids_of_above fun x hx _ => ?_
        obtain rfl := List.mem_singleton.mp hx
        exact Nat.lt_of_lt_of_le Nat.zero_lt_one (le_index_of_mem_layout hMem)

/-- All code up to the choice of the constructor ignores the receiver. -/
theorem opening_ignores (signature : Signature) (id : Nat) (intercept : Label) :
    ∀ i ∈ opening signature id intercept, Ignores [.p 0] i := by
  intro i hi
  simp only [opening, List.mem_cons, List.mem_append, List.not_mem_nil, or_false] at hi
  rcases hi with rfl | hi | rfl | rfl | rfl | rfl
  · exact .of [] ⟨rfl, rfl⟩ (by simp) rfl (by decide)
  · exact ownContext_ignores signature i hi
  · exact .of [.v 2] ⟨rfl, rfl⟩ (by simp) rfl (by decide)
  · exact .of [.v 0, .v 2, .v 1] ⟨rfl, rfl⟩ (by simp) rfl (by decide)
  · exact .of [.v 3, .v 1] ⟨rfl, rfl⟩ (by simp) rfl (by decide)
  · exact .of [.v 4, .v 3] ⟨rfl, rfl⟩ (by simp) rfl (by decide)

/-- The states before the code that initializes the receiver. -/
def initStates (delegated : MethodRef) : Option MethodRef → List State
  | none => trail [.p 0] (initCall delegated)
  | some buddy =>
      [some [.p 0], some [.p 0]] ++ trail [.p 0] (initCall delegated) ++
        [some [], some [.p 0]] ++ trail [.p 0] (initCall buddy) ++ [some []]

/-- There is a state for each instruction. -/
theorem length_initStates (delegated : MethodRef) (next : Nat) (buddy : Option MethodRef) :
    (initStates delegated buddy).length = (initCode delegated next buddy).length := by
  cases buddy <;> simp [initStates, initCode, chooseInit]

/-- Once initialized, the receiver goes to the interceptor without being seen. -/
theorem settle_runInitBody {code front : List Instruction} (hCode : code = front ++ runInitBody)
    (seen : List State) (hSeen : seen.length = front.length) (pending : List Nat) :
    settle code ⟨seen ++ [some [], none, none], front.length :: pending⟩ =
      settle code ⟨seen ++ [some [], some [], some []], pending⟩ := by
  have hLine : ∀ i ∈ runInitBody.take 2, Straight i := by decide
  have hRun := settle_straight (List.cons_ne_nil .returnVoid []) [] pending
    (runInitBody.take 2) front seen [] hCode hSeen hLine
  refine hRun.trans (settle_end (i := .returnVoid) (s := []) ?_ ?_ rfl rfl)
  · simp [runInitBody, trail, after, ← hSeen]
    rfl
  · simp [hCode, runInitBody]

private theorem settle_callInit {code front : List Instruction} {target : MethodRef}
    (hCode : code = front ++ (initCall target ++ runInitBody)) (hInit : target.name.isInit = true)
    (seen : List State) (hSeen : seen.length = front.length) (pending : List Nat) :
    settle code ⟨seen ++ some [.p 0] :: List.replicate ((initCall target).length + 2) none,
        front.length :: pending⟩ =
      settle code ⟨seen ++ (trail [.p 0] (initCall target) ++ [some [], some [], some []]),
        pending⟩ := by
  have hCode' : code = (front ++ initCall target) ++ runInitBody := by simp [hCode]
  have hCall := settle_straight (List.cons_ne_nil _ _) [none, none] pending (initCall target) front
    seen [.p 0] hCode hSeen (initCall_straight target)
  have hRun := settle_runInitBody hCode' (seen ++ trail [.p 0] (initCall target))
    (by simp [hSeen]) pending
  rw [(initCall_analyzed hInit).1] at hCall
  have hUnseen : List.replicate ((initCall target).length + 2) (none : State) =
      List.replicate (initCall target).length none ++ [none, none] := by
    rw [← List.replicate_append_replicate]
    rfl
  rw [hUnseen]
  simp only [List.append_assoc, List.length_append] at hRun
  exact hCall.trans hRun

/-- With a buddy constructor the call of it is one of two ways; the delegated call is the other. -/
theorem settle_chooseInit {code front : List Instruction} {delegated buddy : MethodRef}
    {callBuddy initBody : Label}
    (hCode : code = front ++
      (chooseInit (initCall delegated) (initCall buddy) callBuddy initBody ++ runInitBody))
    (hPlaced : (Code.placed code).Nodup) (hInit : delegated.name.isInit = true)
    (hInit' : buddy.name.isInit = true) (seen : List State)
    (hSeen : seen.length = front.length) (pending : List Nat) :
    settle code ⟨seen ++ some [.p 0] :: List.replicate
        ((chooseInit (initCall delegated) (initCall buddy) callBuddy initBody).length + 2) none,
        front.length :: pending⟩ =
      settle code ⟨seen ++ (initStates delegated (some buddy) ++ [some [], some [], some []]),
        pending⟩ := by
  have hAfter := (initCall_analyzed hInit).1
  have hAfter' := (initCall_analyzed hInit').1
  have hUnseen : List.replicate
        ((chooseInit (initCall delegated) (initCall buddy) callBuddy initBody).length + 2)
        (none : State) =
      List.replicate 1 none ++ none :: (List.replicate (initCall delegated).length none ++
        none :: (List.replicate ((initCall buddy).length + 2) none ++ [none, none])) := by
    refine (List.eq_replicate_iff.mpr ⟨?_, ?_⟩).symm
    · simp only [chooseInit, List.length_append, List.length_replicate, List.length_cons,
        List.length_nil]
      omega
    · simp only [List.mem_append, List.mem_cons, List.mem_replicate, List.not_mem_nil]
      grind
  simp only [chooseInit, List.append_assoc, List.cons_append, List.nil_append] at hCode
  have hTest := settle_straight (List.cons_ne_nil _ _)
    (none :: (List.replicate (initCall delegated).length none ++
        none :: (List.replicate ((initCall buddy).length + 2) none ++ [none, none]))) pending
    [.binaryLit .and (.v 4) (.v 3) Interceptor.buddyBit] front seen [.p 0] hCode hSeen (by decide)
  have hForked : code = (front ++ [.binaryLit .and (.v 4) (.v 3) Interceptor.buddyBit]) ++
      .branchZero .ne (.v 4) callBuddy :: (initCall delegated ++ .goto initBody ::
        .label callBuddy :: (initCall buddy ++ .label initBody :: runInitBody)) := by
    simp [hCode]
  have hSettled : ∀ (seen' : List State) (pending' : List Nat),
      seen'.length + runInitBody.length = code.length →
      settle code ⟨seen' ++ some (after [.p 0] (initCall buddy)) :: [none, none],
          seen'.length :: pending'⟩ =
        settle code ⟨seen' ++ [some [], some [], some []], pending'⟩ := by
    intro seen' pending' hLength
    have hToBody : code = (front ++ .binaryLit .and (.v 4) (.v 3) Interceptor.buddyBit ::
        .branchZero .ne (.v 4) callBuddy :: (initCall delegated ++ .goto initBody ::
          .label callBuddy :: (initCall buddy ++ [.label initBody]))) ++ runInitBody := by
      simp [hCode]
    rw [hToBody, List.length_append, Nat.add_right_cancel_iff] at hLength
    rw [hAfter', hLength]
    exact settle_runInitBody hToBody seen' hLength pending'
  have hWays := settle_diamond hForked hPlaced (List.cons_ne_nil _ _)
    (initCall_straight delegated) (initCall_straight buddy) (seen ++ [some [.p 0]]) [none, none]
    [some [], some [], some []] (by simp [hSeen]) [.p 0] pending (by simp [hAfter]) hSettled
  rw [hUnseen]
  refine hTest.trans ?_
  simp only [initStates, hAfter, hAfter', List.append_assoc, List.cons_append, List.nil_append,
    List.length_append, List.length_singleton] at hWays ⊢
  exact hWays

/-- The code that initializes the receiver is visited to its end. -/
theorem settle_initCode {code front : List Instruction} {delegated : MethodRef} {next : Nat}
    {buddy : Option MethodRef}
    (hCode : code = front ++ (initCode delegated next buddy ++ runInitBody))
    (hPlaced : (Code.placed code).Nodup) (hInit : delegated.name.isInit = true)
    (hInit' : ∀ target, buddy = some target → target.name.isInit = true) (seen : List State)
    (hSeen : seen.length = front.length) (pending : List Nat) :
    settle code ⟨seen ++ some [.p 0] ::
        List.replicate ((initCode delegated next buddy).length + 2) none,
        front.length :: pending⟩ =
      settle code ⟨seen ++ (initStates delegated buddy ++ [some [], some [], some []]),
        pending⟩ := by
  cases buddy with
  | none => exact settle_callInit hCode hInit seen hSeen pending
  | some target =>
      exact settle_chooseInit hCode hPlaced hInit (hInit' target rfl) seen hSeen pending

end Intercept

end HotPatch
