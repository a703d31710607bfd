import Mathlib.Data.List.Forall2
import HotPatch.Genesis.Hierarchy
import HotPatch.Proofs.Receiver.Paths
import HotPatch.Proofs.Receiver.Unowned

/-!
# Calls to the superclass, when it changes

A class that moves from one superclass to another takes its calls to the
superclass with it: the super calls of its methods, and in constructors the
calls that initialize the receiver.  All other calls stay, also those to
constructors of the old superclass that make a new object.

The analysis of the receiver does not look at the class of a target, so it
finds the same calls before and after (`callsUp_iff`), and a constructor that
had one delegated call still has it, at the same place.
-/

namespace HotPatch.Genesis

open Receiver

/-- The code of a method calls up at a position: by a super call or, in a constructor, by a call
that initializes the receiver. -/
def CallsUp (m : Method) (code : List Instruction) (k : Nat) (target : MethodRef) : Prop :=
  (∃ form args, code[k]? = some (.invoke .super form args target)) ∨
    m.isConstructor = true ∧ ∃ found, analyze code = .ok found ∧ ⟨k, target⟩ ∈ found.2

/-- A body that has moved with its class: the calls up that named the old superclass name the new
one, and nothing else is different. -/
structure MovedBody (old new : ClassName) (m : Method) (b b' : Body) : Prop where
  sizes : b' = { b with instructions := b'.instructions }
  length : b'.instructions.length = b.instructions.length
  renamed : ∀ {k kind form args target}, CallsUp m b.instructions k target →
    target.owner = old → b.instructions[k]? = some (.invoke kind form args target) →
    b'.instructions[k]? = some (.invoke kind form args (target.withOwner new))
  same : ∀ {k}, (∀ target, CallsUp m b.instructions k target → target.owner ≠ old) →
    b'.instructions[k]? = b.instructions[k]?
  /-- No call up is left behind. -/
  gone : ∀ {k target}, CallsUp m b'.instructions k target → target.owner ≠ old
  /-- A delegated call is still accepted, where it was. -/
  delegates : ∀ {call}, m.isConstructor = true → Delegation.find (some old) m b = .ok call →
    ∃ call', Delegation.find (some new) m b' = .ok call' ∧ call'.position = call.position ∧
      call'.method.name = call.method.name ∧ call'.method.signature = call.method.signature

/-- A method that has moved with its class. -/
structure MovedMethod (old new : ClassName) (m m' : Method) : Prop where
  frame : m' = { m with body := m'.body }
  body : ∀ {b}, m.body = some b → ∃ b', m'.body = some b' ∧ MovedBody old new m b b'
  none : m.body = none → m'.body = none

section

variable {old new : ClassName} {inits : List Nat} {code : List Instruction} {m : Method}

/-! ## Instructions -/

/-- The target of a call up, after the move. -/
def movedTarget (old new : ClassName) (target : MethodRef) : MethodRef :=
  if target.owner = old then target.withOwner new else target

private theorem retarget_invoke (old new : ClassName) (kind : InvokeKind) (form : InvokeForm)
    (args : RegisterList) (target : MethodRef) :
    retarget old new (.invoke kind form args target) =
      .invoke kind form args (movedTarget old new target) := by
  rw [retarget, movedTarget]
  split <;> rfl

private theorem name_movedTarget (old new : ClassName) (target : MethodRef) :
    (movedTarget old new target).name = target.name := by
  rw [movedTarget]
  split <;> rfl

private theorem signature_movedTarget (old new : ClassName) (target : MethodRef) :
    (movedTarget old new target).signature = target.signature := by
  rw [movedTarget]
  split <;> rfl

private theorem owner_movedTarget_ne {old new : ClassName} (hNe : new ≠ old) (target : MethodRef) :
    (movedTarget old new target).owner ≠ old := by
  rw [movedTarget]
  split
  · exact hNe
  · next hOwner => exact hOwner

/-- What led to the class or to its old superclass leads to the class or to its new one. -/
theorem leadsHome_movedTarget {owner old : ClassName} (new : ClassName) {target : MethodRef}
    (h : Delegation.leadsHome owner (some old) target.owner = true) :
    Delegation.leadsHome owner (some new) (movedTarget old new target).owner = true := by
  simp only [Delegation.leadsHome, Bool.or_eq_true, beq_iff_eq, Option.some.injEq] at h ⊢
  rw [movedTarget]
  split
  · exact .inr rfl
  · next hOwner => exact .inl (h.resolve_right fun hEq => hOwner hEq.symm)

private theorem unowned_retarget (old new : ClassName) (i : Instruction) :
    (retarget old new i).unowned = i.unowned := by
  cases i with
  | invoke kind form args method =>
      rw [retarget]
      split <;> rfl
  | _ => rfl

private theorem getElem?_retargetCode (old new : ClassName) (inits : List Nat)
    (code : List Instruction) (k : Nat) :
    (retargetCode old new inits code)[k]? =
      (code[k]?).map fun i => if isSuperCall inits k i then retarget old new i else i := by
  rw [retargetCode, List.getElem?_map, List.getElem?_zipIdx, Option.map_map]
  simp [Function.comp_def]

private theorem length_retargetCode (old new : ClassName) (inits : List Nat)
    (code : List Instruction) :
    (retargetCode old new inits code).length = code.length := by
  simp [retargetCode]

/-- Only classes of targets are changed. -/
theorem unowned_retargetCode (old new : ClassName) (inits : List Nat) (code : List Instruction) :
    (retargetCode old new inits code).map Instruction.unowned = code.map Instruction.unowned := by
  apply List.ext_getElem?
  intro k
  rw [List.getElem?_map, List.getElem?_map, getElem?_retargetCode, Option.map_map]
  congr 1
  funext i
  rw [Function.comp_apply]
  split
  · exact unowned_retarget old new i
  · rfl

/-! ## Calls on the receiver -/

/-- Analysis is the states before each instruction and the calls they show. -/
theorem analyze_eq_ok {found : List State × List InitCall} :
    analyze code = .ok found ↔
      states code = .ok found.1 ∧ found.2 = initCalls code found.1 := by
  obtain ⟨states, calls⟩ := found
  rw [analyze]
  cases Receiver.states code with
  | error e => simp [Except.map]
  | ok found =>
      simp only [Except.map, Except.ok.injEq, Prod.mk.injEq]
      constructor
      · rintro ⟨rfl, rfl⟩
        exact ⟨rfl, rfl⟩
      · rintro ⟨rfl, rfl⟩
        exact ⟨rfl, rfl⟩

/-- A call that initializes the receiver is one of the instructions. -/
theorem getElem?_of_mem_initCalls {found : List State} {k : Nat} {target : MethodRef}
    (h : ⟨k, target⟩ ∈ initCalls code found) :
    ∃ form args, code[k]? = some (.invoke .direct form args target) := by
  obtain ⟨s, i, _, hAt, hInit⟩ := mem_initCalls.mp h
  unfold initOn? at hInit
  split at hInit
  · next r method hCall =>
      split at hInit
      · cases hInit
        obtain ⟨form, x, args, rfl, _⟩ := initCall?_eq_some hCall
        exact ⟨form, x :: args, hAt⟩
      · cases hInit
  · cases hInit

/-- A call up is a call. -/
theorem CallsUp.invoke {k : Nat} {target : MethodRef} (h : CallsUp m code k target) :
    ∃ kind form args, code[k]? = some (.invoke kind form args target) := by
  rcases h with ⟨form, args, hAt⟩ | ⟨_, found, hFound, hMem⟩
  · exact ⟨.super, form, args, hAt⟩
  · rw [(analyze_eq_ok.mp hFound).2] at hMem
    obtain ⟨form, args, hAt⟩ := getElem?_of_mem_initCalls hMem
    exact ⟨.direct, form, args, hAt⟩

/-- The positions that are retargeted are those of the calls up. -/
theorem callsUp_iff {b : Body} (hInits : initPositions m b = .ok inits) {k : Nat}
    {kind : InvokeKind} {form : InvokeForm} {args : RegisterList} {target : MethodRef}
    (hAt : b.instructions[k]? = some (.invoke kind form args target)) :
    CallsUp m b.instructions k target ↔
      isSuperCall inits k (.invoke kind form args target) = true := by
  simp only [isSuperCall, Bool.or_eq_true, beq_iff_eq, List.contains_iff_mem]
  rw [CallsUp, hAt]
  refine or_congr ⟨?_, ?_⟩ ?_
  · rintro ⟨_, _, hEq⟩
    cases hEq
    rfl
  · rintro rfl
    exact ⟨form, args, rfl⟩
  · unfold initPositions at hInits
    split at hInits
    · next hConstructor =>
        cases hFound : analyze b.instructions with
        | error e => rw [hFound] at hInits; cases hInits
        | ok found =>
            rw [hFound] at hInits
            obtain rfl := Except.ok.inj hInits
            simp only [hConstructor, true_and, Except.ok.injEq, exists_eq_left', List.mem_map]
            constructor
            · intro hMem
              exact ⟨_, hMem, rfl⟩
            · rintro ⟨⟨k', target'⟩, hMem, rfl⟩
              have hCalls := hMem
              rw [(analyze_eq_ok.mp hFound).2] at hCalls
              obtain ⟨_, _, hAt'⟩ := getElem?_of_mem_initCalls hCalls
              cases hAt.symm.trans hAt'
              exact hMem
    · next hOther =>
        obtain rfl := Except.ok.inj hInits
        simp [hOther]

/-- The receiver is initialized at the same positions of code that differs in the classes of
targets only. -/
theorem initPositions_of_unowned {b b' : Body}
    (h : b'.instructions.map Instruction.unowned = b.instructions.map Instruction.unowned) :
    initPositions m b' = initPositions m b := by
  unfold initPositions
  split
  · rw [analyze, analyze, states_of_unowned h]
    cases states b.instructions with
    | error e => rfl
    | ok found =>
        simp only [Except.map, Except.ok.injEq]
        exact map_position_of_unowned h found
  · rfl

end

/-! ## Bodies and methods -/

section

variable {old new : ClassName} {m : Method} {b : Body} {inits : List Nat}

/-- A body with its calls up retargeted. -/
def retargetBody (old new : ClassName) (inits : List Nat) (b : Body) : Body :=
  { b with instructions := retargetCode old new inits b.instructions }

private theorem find_of_initCalls {superclass : Option ClassName} {found : List State}
    {call : InitCall} (hStates : states b.instructions = .ok found)
    (hCalls : initCalls b.instructions found = [call])
    (hHome : Delegation.leadsHome m.owner superclass call.method.owner = true) :
    Delegation.find superclass m b = .ok call := by
  simp [Delegation.find, analyze, hStates, Except.map, hCalls, hHome]

/-- What becomes of a call up. -/
theorem getElem?_retargetBody (old new : ClassName) (hInits : initPositions m b = .ok inits)
    {k : Nat}
    {kind : InvokeKind} {form : InvokeForm} {args : RegisterList} {target : MethodRef}
    (hUp : CallsUp m b.instructions k target)
    (hAt : b.instructions[k]? = some (.invoke kind form args target)) :
    (retargetBody old new inits b).instructions[k]? =
      some (.invoke kind form args (movedTarget old new target)) := by
  rw [retargetBody, getElem?_retargetCode, hAt, Option.map_some,
    if_pos ((callsUp_iff hInits hAt).mp hUp), retarget_invoke]

/-- The delegated call of a constructor is a call up. -/
theorem callsUp_of_find {superclass : Option ClassName} {call : InitCall}
    (hConstructor : m.isConstructor = true) (h : Delegation.find superclass m b = .ok call) :
    CallsUp m b.instructions call.position call.method := by
  obtain ⟨_, found, hStates, hCalls⟩ := Delegation.find_eq_ok h
  refine .inr ⟨hConstructor, (found, [call]), analyze_eq_ok.mpr ⟨hStates, hCalls.symm⟩, ?_⟩
  exact List.mem_singleton_self _

/-- The delegated call of a constructor is found again, whichever class it leads to. -/
theorem find_retargetBody {call : InitCall} (hInits : initPositions m b = .ok inits)
    (hConstructor : m.isConstructor = true)
    (h : Delegation.find (some old) m b = .ok call) :
    ∃ call', Delegation.find (some new) m (retargetBody old new inits b) = .ok call' ∧
      call'.position = call.position ∧ call'.method.name = call.method.name ∧
      call'.method.signature = call.method.signature := by
  have hUp := callsUp_of_find hConstructor h
  obtain ⟨hHome, found, hStates, hCalls⟩ := Delegation.find_eq_ok h
  have hUnowned := unowned_retargetCode old new inits b.instructions
  have hPositions := map_position_of_unowned hUnowned found
  rw [hCalls, List.map_singleton, List.map_eq_singleton_iff] at hPositions
  obtain ⟨⟨k, target'⟩, hCalls', hSame⟩ := hPositions
  have hMem : ⟨k, target'⟩ ∈ initCalls (retargetCode old new inits b.instructions) found := by
    rw [hCalls']
    exact List.mem_singleton_self _
  obtain ⟨k', target⟩ := call
  cases hSame
  obtain ⟨kind, form, args, hAt⟩ := hUp.invoke
  obtain ⟨form', args', hAt'⟩ := getElem?_of_mem_initCalls hMem
  cases (getElem?_retargetBody old new hInits hUp hAt).symm.trans hAt'
  refine ⟨_, find_of_initCalls ?_ hCalls' (leadsHome_movedTarget new hHome), rfl,
    name_movedTarget old new target, signature_movedTarget old new target⟩
  exact (states_of_unowned hUnowned).trans hStates

private theorem movedBody_retargetBody (hNe : new ≠ old) (hInits : initPositions m b = .ok inits) :
    MovedBody old new m b (retargetBody old new inits b) := by
  have hUnowned : (retargetBody old new inits b).instructions.map Instruction.unowned =
      b.instructions.map Instruction.unowned := unowned_retargetCode old new inits b.instructions
  refine ⟨rfl, length_retargetCode old new inits b.instructions, ?_, ?_, ?_, ?_⟩
  · intro k kind form args target hUp hOwner hAt
    rw [getElem?_retargetBody old new hInits hUp hAt, movedTarget, if_pos hOwner]
  · intro k hOther
    rw [retargetBody, getElem?_retargetCode]
    cases hAt : b.instructions[k]? with
    | none => rfl
    | some i =>
        rw [Option.map_some, Option.some.injEq]
        split
        · next hUp =>
            cases i with
            | invoke kind form args target =>
                have hOwner := hOther target ((callsUp_iff hInits hAt).mpr hUp)
                rw [retarget_invoke, movedTarget, if_neg hOwner]
            | _ => cases hUp
        · rfl
  · intro k target hUp hOwner
    obtain ⟨kind, form, args, hNow⟩ := hUp.invoke
    have hInits' : initPositions m (retargetBody old new inits b) = .ok inits :=
      (initPositions_of_unowned hUnowned).trans hInits
    have hCall := (callsUp_iff hInits' hNow).mp hUp
    rw [retargetBody, getElem?_retargetCode] at hNow
    obtain ⟨i, hAt, hEq⟩ := Option.map_eq_some_iff.mp hNow
    split at hEq
    · next hWas =>
        cases i with
        | invoke kind' form' args' target' =>
            rw [retarget_invoke] at hEq
            cases hEq
            exact owner_movedTarget_ne hNe target' hOwner
        | _ => cases hWas
    · next hNot =>
        subst hEq
        exact hNot hCall
  · intro call hConstructor hFind
    exact find_retargetBody hInits hConstructor hFind

private theorem movedMethod_of_retargetMethod (hNe : new ≠ old) {m' : Method}
    (h : retargetMethod old new m = .ok m') : MovedMethod old new m m' := by
  unfold retargetMethod at h
  split at h
  · next hNone =>
      cases h
      refine ⟨rfl, fun hBody => ?_, fun _ => hNone⟩
      rw [hNone] at hBody
      cases hBody
  · next b hSome =>
      split at h
      · cases h
      · next inits hInits =>
          cases h
          refine ⟨rfl, fun {b'} hBody => ?_, fun hNone => ?_⟩
          · obtain rfl := Option.some.inj (hSome.symm.trans hBody)
            exact ⟨_, rfl, movedBody_retargetBody hNe hInits⟩
          · rw [hSome] at hNone
            cases hNone

/-- A method with a call up to a class. -/
def CallsUpTo (above : ClassName) (m : Method) : Prop :=
  ∃ b k target, m.body = some b ∧ CallsUp m b.instructions k target ∧ target.owner = above

/-- A method that stays as it is has moved exactly if it does not call up to the old class. -/
theorem movedMethod_self_iff : MovedMethod old new m m ↔ ¬ CallsUpTo old m := by
  constructor
  · rintro h ⟨b, k, target, hBody, hUp, hOwner⟩
    obtain ⟨b', hBody', hMoved⟩ := h.body hBody
    obtain rfl := Option.some.inj (hBody.symm.trans hBody')
    exact hMoved.gone hUp hOwner
  · intro hNone
    refine ⟨rfl, fun {b} hBody => ⟨b, hBody, ?_⟩, id⟩
    have hOther : ∀ {k target}, CallsUp m b.instructions k target → target.owner ≠ old :=
      fun hUp hOwner => hNone ⟨b, _, _, hBody, hUp, hOwner⟩
    refine ⟨rfl, rfl, fun hUp hOwner => (hOther hUp hOwner).elim, fun _ => rfl, hOther, ?_⟩
    intro call hConstructor hFind
    have hNot := hOther (callsUp_of_find hConstructor hFind)
    obtain ⟨hHome, found, hStates, hCalls⟩ := Delegation.find_eq_ok hFind
    have hHome' := leadsHome_movedTarget new hHome
    rw [movedTarget, if_neg hNot] at hHome'
    exact ⟨call, find_of_initCalls hStates hCalls hHome', rfl, rfl, rfl⟩

/-- The method is no constructor, or its body can be analyzed. -/
def analyzes (m : Method) : Bool := m.body.all fun b => (initPositions m b).isOk

private theorem isOk_retargetMethod (old new : ClassName) (m : Method) :
    (retargetMethod old new m).isOk = analyzes m := by
  unfold retargetMethod analyzes
  cases m.body with
  | none => rfl
  | some b =>
      simp only [Option.all_some]
      cases initPositions m b <;> rfl

/-- Up to the first constructor that cannot be analyzed every method has moved; the others have if
they do not call up to the old class. -/
theorem forall₂_retargetMethods_iff (hNe : new ≠ old) {methods : List Method} :
    List.Forall₂ (MovedMethod old new) methods (retargetMethods old new methods).2 ↔
      ∀ m ∈ methods.dropWhile analyzes, ¬ CallsUpTo old m := by
  induction methods with
  | nil => simp [retargetMethods]
  | cons m rest ih =>
      have hOk := isOk_retargetMethod old new m
      rw [retargetMethods, List.dropWhile_cons]
      cases hm : retargetMethod old new m with
      | error e =>
          have hNo : ¬ analyzes m = true := by
            rw [← hOk, hm]
            exact Bool.false_ne_true
          rw [if_neg hNo]
          simp only [List.forall₂_same, movedMethod_self_iff]
      | ok m' =>
          have hYes : analyzes m = true := by
            rw [← hOk, hm]
            rfl
          rw [if_pos hYes, ← ih, List.forall₂_cons]
          exact and_iff_right (movedMethod_of_retargetMethod hNe hm)

/-- When retargeting succeeds, every method has moved. -/
theorem forall₂_retargetMethods (hNe : new ≠ old) {methods : List Method} :
    (retargetMethods old new methods).1 = .ok () →
      List.Forall₂ (MovedMethod old new) methods (retargetMethods old new methods).2 := by
  induction methods with
  | nil =>
      intro _
      exact .nil
  | cons m rest ih =>
      intro h
      rw [retargetMethods] at h ⊢
      split at h
      · cases h
      · next m' hm =>
          exact .cons (movedMethod_of_retargetMethod hNe hm) (ih h)

end

end HotPatch.Genesis
