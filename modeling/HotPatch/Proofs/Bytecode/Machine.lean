import HotPatch.Proofs.Bytecode.ControlFlow

/-!
# Running code

What instructions do to values and to the world is left open.  A `Machine`
says, for an instruction, the values of the register slots it reads and the
state of everything that methods share (heap, static fields, calls), which
outcomes are possible: what an observer sees, the new shared state, the
values for the slots it writes, and where control goes.  An outcome may be
one of several or none at all, and a method may end at any instruction, so
exceptions, foreign calls and other threads are all within reach.

Three things are fixed: labels do nothing, control only goes where the
instruction says it may go, and a test for "not null" passes over null.

The behaviours of code are its complete runs: those that end, those that get
stuck, and those that go on for ever, each with all that was seen.
-/

namespace HotPatch

namespace Instruction

/-- The register operands whose values are used; a written one stands first and is not. -/
def reads (i : Instruction) : List Register :=
  match i.written? with
  | some _ => i.registers.tail
  | none => i.registers

def readSlots (i : Instruction) : List Register := i.reads.flatMap Register.slots

def writtenSlots (i : Instruction) : List Register :=
  match i.written? with
  | some r => r.slots
  | none => []

end Instruction

/-! ## Steps, runs and simulations -/

section Transitions

variable {S T E : Type}

/-- Finitely many steps, with what they show in order. -/
inductive Reaches (step : S → List E → S → Prop) : S → List E → S → Prop where
  | refl (s : S) : Reaches step s [] s
  | next {s t u : S} {first rest : List E} :
      step s first t → Reaches step t rest u → Reaches step s (first ++ rest) u

/-- Steps without end, with what each one shows. -/
def Endless (step : S → List E → S → Prop) (s : S) (effects : Nat → List E) : Prop :=
  ∃ run : Nat → S, run 0 = s ∧ ∀ n, step (run n) (effects n) (run (n + 1))

/-- Every step on the left is matched on the right by one that shows the same. -/
def Simulates (related : S → T → Prop) (left : S → List E → S → Prop)
    (right : T → List E → T → Prop) : Prop :=
  ∀ {s s' : S} {t : T} {effects : List E}, related s t → left s effects s' →
    ∃ t', right t effects t' ∧ related s' t'

variable {related : S → T → Prop} {left : S → List E → S → Prop}
  {right : T → List E → T → Prop}

/-- Finite runs are matched, effect by effect. -/
theorem Reaches.simulate (hSim : Simulates related left right) {s s' : S} {effects : List E}
    (hRun : Reaches left s effects s') :
    ∀ {t : T}, related s t → ∃ t', Reaches right t effects t' ∧ related s' t' := by
  induction hRun with
  | refl s =>
      intro t hRel
      exact ⟨t, .refl t, hRel⟩
  | next hStep _ ih =>
      intro t hRel
      obtain ⟨t₁, hStep', hRel₁⟩ := hSim hRel hStep
      obtain ⟨t', hRun', hRel'⟩ := ih hRel₁
      exact ⟨t', .next hStep' hRun', hRel'⟩

/-- Endless runs are matched by endless runs with the same effects. -/
theorem Endless.simulate (hSim : Simulates related left right) {s : S} {t : T}
    {effects : Nat → List E} (hRel : related s t) (hRun : Endless left s effects) :
    Endless right t effects := by
  obtain ⟨run, rfl, hSteps⟩ := hRun
  -- The matching states are chosen one after the other, each with its relation to the left run.
  have hNext : ∀ (n : Nat) (u : { u : T // related (run n) u }),
      ∃ u' : { u : T // related (run (n + 1)) u }, right u.1 (effects n) u'.1 := by
    intro n u
    obtain ⟨u', hStep, hRel'⟩ := hSim u.2 (hSteps n)
    exact ⟨⟨u', hRel'⟩, hStep⟩
  let chosen : ∀ n, { u : T // related (run n) u } := fun n =>
    Nat.rec ⟨t, hRel⟩ (fun n u => Classical.choose (hNext n u)) n
  exact ⟨fun n => (chosen n).1, rfl, fun n => Classical.choose_spec (hNext n (chosen n))⟩

/-- The only step from `s` shows `first` and leads to `t`. -/
structure Forced (step : S → List E → S → Prop) (s : S) (first : List E) (t : S) : Prop where
  can : step s first t
  must : ∀ {effects : List E} {u : S}, step s effects u → effects = first ∧ u = t

end Transitions

/-! ## Machines -/

/-- Where control goes after an instruction; `stop` ends the method. -/
inductive Control (R : Type) where
  | next
  | jump (target : Label)
  | stop (result : R)

/-- What one execution of an instruction comes to. -/
structure Outcome (V H E R : Type) where
  /-- What an observer sees. -/
  effects : List E
  /-- The shared state afterwards. -/
  heap : H
  /-- Values for the slots that the instruction writes. -/
  written : Register → V
  control : Control R

/-- Nothing seen, nothing changed, on to the next instruction. -/
structure Outcome.Silent {V H E R : Type} (out : Outcome V H E R) (heap : H) : Prop where
  effects : out.effects = []
  heap : out.heap = heap
  control : out.control = .next

/-- The meaning of instructions, over values `V`, shared states `H`, visible effects `E` and
results `R` of methods. -/
structure Machine (V H E R : Type) where
  null : V
  /-- The outcomes of an instruction, given the values of its `readSlots`. -/
  does : Instruction → List V → H → Outcome V H E R → Prop
  next_falls : ∀ {i vs h out}, does i vs h out → out.control = .next → i.fallsThrough = true
  jump_target : ∀ {i vs h out l}, does i vs h out → out.control = .jump l → l ∈ i.targets
  label_can : ∀ l h, ∃ out, does (.label l) [] h out
  label_silent : ∀ {l h out}, does (.label l) [] h out → out.Silent h
  null_can : ∀ r l h, ∃ out, does (.branchZero .ne r l) [null] h out
  null_silent : ∀ {r l h out}, does (.branchZero .ne r l) [null] h out → out.Silent h

/-- The next position, unless the method ends. -/
def Control.position? {R : Type} (code : List Instruction) (k : Nat) :
    Control R → Option Nat
  | .next => some (k + 1)
  | .jump l => Code.position? code l
  | .stop _ => none

/-- Registers after an instruction. -/
def Outcome.write {V H E R : Type} (out : Outcome V H E R) (i : Instruction)
    (registers : Register → V) : Register → V :=
  fun slot => if slot ∈ i.writtenSlots then out.written slot else registers slot

/-- A method under way, or ended. -/
inductive Config (V H R : Type) where
  | running (position : Nat) (registers : Register → V) (heap : H)
  | ended (result : R) (heap : H)

/-- A complete run, as an observer sees it. -/
inductive Observation (H E R : Type) where
  | ends (effects : List E) (result : R) (heap : H)
  /-- No outcome is possible any more. -/
  | blocks (effects : List E)
  /-- What each of infinitely many steps shows. -/
  | endless (effects : Nat → List E)

/-- The same with one more step in front. -/
def Observation.after {H E R : Type} (first : List E) : Observation H E R → Observation H E R
  | .ends effects result heap => .ends (first ++ effects) result heap
  | .blocks effects => .blocks (first ++ effects)
  | .endless effects => .endless fun
      | 0 => first
      | n + 1 => effects n

namespace Machine

variable {V H E R : Type} (M : Machine V H E R)

/-- One instruction of the code at work. -/
inductive Step (code : List Instruction) :
    Config V H R → List E → Config V H R → Prop where
  | goesOn {k t : Nat} {registers : Register → V} {heap : H} {i : Instruction}
      {out : Outcome V H E R} :
      code[k]? = some i → M.does i (i.readSlots.map registers) heap out →
      out.control.position? code k = some t →
      Step code (.running k registers heap) out.effects
        (.running t (out.write i registers) out.heap)
  | stops {k : Nat} {registers : Register → V} {heap : H} {i : Instruction}
      {out : Outcome V H E R} {result : R} :
      code[k]? = some i → M.does i (i.readSlots.map registers) heap out →
      out.control = .stop result →
      Step code (.running k registers heap) out.effects (.ended result out.heap)

/-- The complete runs of code from a configuration. -/
inductive Behaves (code : List Instruction) (c : Config V H R) :
    Observation H E R → Prop where
  | ends {effects : List E} {result : R} {heap : H} :
      Reaches (M.Step code) c effects (.ended result heap) →
      Behaves code c (.ends effects result heap)
  | blocks {effects : List E} {k : Nat} {registers : Register → V} {heap : H} :
      Reaches (M.Step code) c effects (.running k registers heap) →
      (∀ more d, ¬ M.Step code (.running k registers heap) more d) →
      Behaves code c (.blocks effects)
  | endless {effects : Nat → List E} :
      Endless (M.Step code) c effects → Behaves code c (.endless effects)

/-- Reading the static field `slot` in the shared state `heap` gives null, and does nothing more
than to show `shown`. -/
structure HoldsNull (slot : FieldRef) (heap : H) (shown : List E) : Prop where
  can : ∀ r : Register, ∃ out, M.does (.staticGet .object r slot) [] heap out
  must : ∀ {r out}, M.does (.staticGet .object r slot) [] heap out →
    out.effects = shown ∧ out.heap = heap ∧ out.control = .next ∧
      out.written r.narrow = M.null

variable {M}

/-- A run that has ended makes no step. -/
theorem step_ended {code : List Instruction} {result : R} {heap : H} {effects : List E}
    {d : Config V H R} : ¬ M.Step code (.ended result heap) effects d := by
  intro h
  cases h

/-- A forced first step is in front of every behaviour. -/
theorem behaves_forced {code : List Instruction} {c d : Config V H R} {first : List E}
    (hForced : Forced (M.Step code) c first d) {obs : Observation H E R} :
    M.Behaves code c obs ↔ ∃ rest, M.Behaves code d rest ∧ obs = rest.after first := by
  constructor
  · intro hBehaves
    cases hBehaves with
    | ends hRun =>
        cases hRun with
        | refl => exact (step_ended hForced.can).elim
        | next hStep hRest =>
            obtain ⟨rfl, rfl⟩ := hForced.must hStep
            exact ⟨_, .ends hRest, rfl⟩
    | blocks hRun hStuck =>
        cases hRun with
        | refl => exact (hStuck _ _ hForced.can).elim
        | next hStep hRest =>
            obtain ⟨rfl, rfl⟩ := hForced.must hStep
            exact ⟨_, .blocks hRest hStuck, rfl⟩
    | endless hRun =>
        obtain ⟨run, rfl, hSteps⟩ := hRun
        obtain ⟨hFirst, hNext⟩ := hForced.must (hSteps 0)
        refine ⟨.endless fun n => _, .endless ⟨fun n => run (n + 1), hNext,
          fun n => hSteps (n + 1)⟩, ?_⟩
        simp only [Observation.after, Observation.endless.injEq]
        funext n
        cases n with
        | zero => exact hFirst
        | succ n => rfl
  · rintro ⟨rest, hBehaves, rfl⟩
    cases hBehaves with
    | ends hRun => exact .ends (.next hForced.can hRun)
    | blocks hRun hStuck => exact .blocks (.next hForced.can hRun) hStuck
    | endless hRun =>
        obtain ⟨run, rfl, hSteps⟩ := hRun
        refine .endless ⟨fun | 0 => c | n + 1 => run n, rfl, fun n => ?_⟩
        cases n with
        | zero => exact hForced.can
        | succ n => exact hSteps n

/-- Both under way, or both ended alike. -/
inductive SameStatus : Config V H R → Config V H R → Prop where
  | running (k k' : Nat) (registers registers' : Register → V) (heap heap' : H) :
      SameStatus (.running k registers heap) (.running k' registers' heap')
  | ended (result : R) (heap : H) : SameStatus (.ended result heap) (.ended result heap)

/-- Behaviours carry over along a simulation that is one in both directions. -/
theorem Behaves.simulate {code code' : List Instruction}
    {related : Config V H R → Config V H R → Prop}
    (hForth : Simulates related (M.Step code) (M.Step code'))
    (hBack : Simulates (fun d c => related c d) (M.Step code') (M.Step code))
    (hStatus : ∀ {c d}, related c d → SameStatus c d) {c d : Config V H R}
    (hRel : related c d) {obs : Observation H E R} (hBehaves : M.Behaves code c obs) :
    M.Behaves code' d obs := by
  cases hBehaves with
  | ends hRun =>
      obtain ⟨d', hRun', hRel'⟩ := hRun.simulate hForth hRel
      cases hStatus hRel'
      exact .ends hRun'
  | blocks hRun hStuck =>
      obtain ⟨d', hRun', hRel'⟩ := hRun.simulate hForth hRel
      cases hStatus hRel'
      refine .blocks hRun' fun more e hStep => ?_
      obtain ⟨c', hStep', _⟩ := hBack hRel' hStep
      exact hStuck _ _ hStep'
  | endless hRun => exact .endless (hRun.simulate hForth hRel)

end Machine

end HotPatch
