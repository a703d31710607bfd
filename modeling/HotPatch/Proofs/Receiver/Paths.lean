import Mathlib.Data.List.Basic
import HotPatch.Intercept.Delegation
import HotPatch.Proofs.Receiver.Fixpoint

/-!
# The delegated call, path by path

On one path the registers that hold the receiver are known exactly
(`Travels`).  The analysis joins them over all paths, and a call empties the
joined set also for a path on which the register it names holds something
else.  From there on the receiver of that path is out of sight.

So the one call that is found need not be the only one that a path makes on
its receiver.  What exactly is missing is `QuietAfterMiss`: a path that passes
the call found without the receiver in the register called must not initialize
it elsewhere later on.
-/

namespace HotPatch.Receiver

/-- Control goes from one position to another, the receiver along with it. -/
inductive Travels (code : List Instruction) (k : Nat) (holds : Register → Prop) :
    Nat → (Register → Prop) → Prop where
  | stay : Travels code k holds k holds
  | onward {t u : Nat} {held : Register → Prop} {i : Instruction} :
      Travels code k holds t held → code[t]? = some i → Code.Follows code t u →
      Travels code k holds u (along i held)

/-- What a method starts with: `p0` alone holds the receiver. -/
def inP0 (r : Register) : Prop := r = .p 0

/-- On all paths from the entry the receiver is initialized at `p`, if at all. -/
def OnlyInitAt (code : List Instruction) (p : Nat) : Prop :=
  ∀ k holds i, Travels code 0 inP0 k holds → code[k]? = some i → Initializes i holds → k = p

/-- A path from the entry comes to the constructor call at `p` with something else than the
receiver in the register called. -/
def Misses (code : List Instruction) (p : Nat) (holds : Register → Prop) : Prop :=
  Travels code 0 inP0 p holds ∧
    ∃ i r method, code[p]? = some i ∧ initCall? i = some (r, method) ∧ ¬ holds r

/-- A path that has passed `p` without the receiver in the register called does not initialize
it at any other place later on. -/
def QuietAfterMiss (code : List Instruction) (p : Nat) : Prop :=
  ∀ missed, Misses code p missed → ∀ k holds i, Travels code p missed k holds →
    code[k]? = some i → Initializes i holds → k = p

theorem Travels.trans {code : List Instruction} {k t u : Nat} {holds held kept : Register → Prop}
    (h : Travels code k holds t held) (h' : Travels code t held u kept) :
    Travels code k holds u kept := by
  induction h' with
  | stay => exact h
  | onward _ hAt hFollows ih => exact ih.onward hAt hFollows

/-- Where no jump leads back, a path never goes back. -/
theorem Travels.le {code : List Instruction} (hForward : ∀ k t, Code.Follows code k t → k ≤ t)
    {k t : Nat} {holds held : Register → Prop} (h : Travels code k holds t held) : k ≤ t := by
  induction h with
  | stay => exact Nat.le_refl k
  | onward _ _ hFollows ih => exact Nat.le_trans ih (hForward _ _ hFollows)

/-- Where the analysis sees a constructor call on the receiver, it lists one. -/
theorem position_of_initializes {code : List Instruction} {found : List State} {call : InitCall}
    (hCalls : initCalls code found = [call]) {k : Nat} {s : RegisterSet} {i : Instruction}
    (hState : found[k]? = some (some s)) (hAt : code[k]? = some i)
    (hInit : Initializes i (· ∈ s)) : k = call.position := by
  obtain ⟨method, hOn⟩ := Option.isSome_iff_exists.mp (initOn?_isSome_iff.mpr hInit)
  have hMem : ⟨k, method⟩ ∈ initCalls code found := mem_initCalls.mpr ⟨s, i, hState, hAt, hOn⟩
  rw [hCalls, List.mem_singleton] at hMem
  rw [← hMem]

/-- What the analysis knows of a path: it has the receiver in sight, or lost it at the call. -/
theorem Travels.inSight {code : List Instruction} {found : List State} {call : InitCall}
    (hFound : states code = .ok found) (hCalls : initCalls code found = [call]) {k : Nat}
    {holds : Register → Prop} (h : Travels code 0 inP0 k holds) :
    (∃ s : RegisterSet, found[k]? = some (some s) ∧ ∀ x, holds x → x ∈ s) ∨
      ∃ missed, Misses code call.position missed ∧
        Travels code call.position missed k holds := by
  obtain ⟨hSound, hEntry⟩ := states_sound hFound
  induction h with
  | stay =>
      have hMem : call ∈ initCalls code found := hCalls ▸ List.mem_singleton_self call
      obtain ⟨_, _, _, hAt, _⟩ := mem_initCalls.mp hMem
      have hLt : call.position < code.length := (List.getElem?_eq_some_iff.mp hAt).1
      obtain ⟨s, hs, hp0⟩ := hEntry (by omega)
      exact .inl ⟨s, hs, fun x hx => hx ▸ hp0⟩
  | @onward t u held i hTravels hAt hFollows ih =>
      rcases ih with ⟨s, hs, hSub⟩ | ⟨missed, hMisses, hSince⟩
      · by_cases hMiss : Initializes i (· ∈ s) ∧ ¬ Initializes i held
        · -- The call is on the receiver of some path, but not of this one.
          obtain ⟨hInit, hNot⟩ := hMiss
          obtain rfl := position_of_initializes hCalls hs hAt hInit
          obtain ⟨r, method, hCall, _⟩ := hInit
          have hMisses : Misses code call.position held :=
            ⟨hTravels, i, r, method, hAt, hCall, fun hr => hNot ⟨r, method, hCall, hr⟩⟩
          have hStep : Travels code call.position held call.position held := .stay
          exact .inr ⟨held, hMisses, hStep.onward hAt hFollows⟩
        · -- Otherwise the instruction loses no more in the joined set than on this path.
          have hInit : Initializes i (· ∈ s) → Initializes i held := fun hMore =>
            Classical.byContradiction fun hNot => hMiss ⟨hMore, hNot⟩
          obtain ⟨next, hNext, hPassed⟩ := (hSound.passed hs hAt).resolve_left (by simp)
          obtain ⟨s', hs', hSub'⟩ := hPassed u ((mem_successors hAt hNext u).mpr hFollows)
          refine .inl ⟨s', hs', fun x hx => hSub' x (mem_transfer.mpr ?_)⟩
          exact along_mono hSub hInit hx
      · exact .inr ⟨missed, hMisses, hSince.onward hAt hFollows⟩

end HotPatch.Receiver

namespace HotPatch.Delegation

open Receiver

/-- The one call listed leads to the class or its superclass. -/
theorem find_eq_ok {superclass : Option ClassName} {m : Method} {b : Body} {call : InitCall}
    (h : find superclass m b = .ok call) :
    leadsHome m.owner superclass call.method.owner = true ∧
      ∃ found, states b.instructions = .ok found ∧ initCalls b.instructions found = [call] := by
  unfold find at h
  split at h
  · cases h
  · next states call' hAnalyze =>
      split at h
      · next hHome =>
          cases h
          unfold analyze at hAnalyze
          cases hStates : Receiver.states b.instructions with
          | error e => rw [hStates] at hAnalyze; cases hAnalyze
          | ok found =>
              rw [hStates] at hAnalyze
              obtain ⟨rfl, hCalls⟩ := Prod.mk.inj (Except.ok.inj hAnalyze)
              exact ⟨hHome, found, rfl, hCalls⟩
      · cases h
  · cases h

/-- **The delegated call is the only one on the receiver, but for paths that miss it.**  When one
call is found, it is the only place where any path initializes its receiver if and only if no path
that comes through this place with something else in the register called initializes the receiver
later on. -/
theorem find_onlyInitAt_iff (superclass : Option ClassName) (m : Method) (b : Body)
    (call : InitCall) (h : find superclass m b = .ok call) :
    OnlyInitAt b.instructions call.position ↔ QuietAfterMiss b.instructions call.position := by
  obtain ⟨_, found, hFound, hCalls⟩ := find_eq_ok h
  constructor
  · intro hOnly missed hMisses k holds i hTravels hAt hInit
    exact hOnly k holds i (hMisses.1.trans hTravels) hAt hInit
  · intro hQuiet k holds i hTravels hAt hInit
    rcases hTravels.inSight hFound hCalls with ⟨s, hs, hSub⟩ | ⟨missed, hMisses, hSince⟩
    · obtain ⟨r, method, hCall, hr⟩ := hInit
      exact position_of_initializes hCalls hs hAt ⟨r, method, hCall, hSub r hr⟩
    · exact hQuiet missed hMisses k holds i hSince hAt hInit

/-- Initializes a helper object first, then the receiver through a copy of it. -/
def helperBody : Body :=
  let helper : MethodRef := ⟨.of "a/Helper", ⟨"<init>"⟩, ⟨[], none⟩⟩
  let base : MethodRef := ⟨.of "a/Base", ⟨"<init>"⟩, ⟨[], none⟩⟩
  ⟨2, 1, [.newInstance (.v 0) (.of "a/Helper"), .invoke .direct .fixed [.v 0] helper,
    .move .object (.v 1) (.p 0), .invoke .direct .fixed [.v 1] base, .returnVoid], 0⟩

def mainConstructor (b : Body) : Method where
  owner := .of "a/Main"
  name := ⟨"<init>"⟩
  signature := ⟨[.base .int], none⟩
  access := {}
  body := some b

/-- A helper is made on the way, and its constructor does not count. -/
theorem find_onlyInitAt_iff_helper :
    ∃ call, find (some (.of "a/Base")) (mainConstructor helperBody) helperBody = .ok call ∧
      call.position = 3 ∧ OnlyInitAt helperBody.instructions 3 := by
  have hFind : find (some (.of "a/Base")) (mainConstructor helperBody) helperBody =
      .ok ⟨3, ⟨.of "a/Base", ⟨"<init>"⟩, ⟨[], none⟩⟩⟩ := by decide +kernel
  refine ⟨_, hFind, rfl, (find_onlyInitAt_iff _ _ _ _ hFind).mpr ?_⟩
  have hForward : ∀ k t, Code.Follows helperBody.instructions k t → k ≤ t := by
    intro k t hFollows
    cases hFollows with
    | next => exact Nat.le_succ k
    | jump hAt hTarget _ =>
        have hNone : ∀ i ∈ helperBody.instructions, i.targets = [] := by decide
        rw [hNone _ (List.mem_of_getElem? hAt)] at hTarget
        cases hTarget
  intro missed _ k holds i hTravels hAt hInit
  have hLe : 3 ≤ k := hTravels.le hForward
  obtain ⟨r, method, hCall, _⟩ := hInit
  have hLt : k < 5 := (List.getElem?_eq_some_iff.mp hAt).1
  obtain rfl | rfl : k = 3 ∨ k = 4 := by omega
  · rfl
  · obtain rfl := Option.some.inj hAt
    cases hCall

/-- Where the paths meet, the register called holds the receiver on one and a new object on the
other. -/
def straddlingBody : Body :=
  let base : MethodRef := ⟨.of "a/Base", ⟨"<init>"⟩, ⟨[], none⟩⟩
  ⟨2, 2, [.branchZero .eq (.p 1) ⟨0⟩, .newInstance (.v 1) (.of "a/Helper"), .goto ⟨1⟩,
    .label ⟨0⟩, .move .object (.v 1) (.p 0), .label ⟨1⟩,
    .invoke .direct .fixed [.v 1] base, .invoke .direct .fixed [.p 0] base, .returnVoid], 2⟩

/-- **A path can be lost.**  One call is found, but the path with the new object makes another one
on its receiver. -/
theorem find_loses_path :
    (∃ call, find (some (.of "a/Base")) (mainConstructor straddlingBody) straddlingBody = .ok call ∧
        call.position = 6) ∧
      ¬ OnlyInitAt straddlingBody.instructions 6 := by
  refine ⟨⟨⟨6, ⟨.of "a/Base", ⟨"<init>"⟩, ⟨[], none⟩⟩⟩, by decide +kernel, rfl⟩, fun hOnly => ?_⟩
  have h0 : Travels straddlingBody.instructions 0 inP0 0 inP0 := .stay
  have h1 := h0.onward rfl (.next rfl rfl (by decide))
  have h2 := h1.onward rfl (.next rfl rfl (by decide))
  have h5 := h2.onward rfl (.jump rfl (List.mem_singleton_self _) rfl)
  have h6 := h5.onward rfl (.next rfl rfl (by decide))
  have h7 := h6.onward rfl (.next rfl rfl (by decide))
  have hInit := hOnly 7 _ _ h7 rfl
  simp [Initializes, initCall?, along, inP0, Instruction.written?, Register.slots,
    Register.narrow, Register.withWide, Register.v, Register.p, MemberName.isInit,
    MemberName.init] at hInit

end HotPatch.Delegation
