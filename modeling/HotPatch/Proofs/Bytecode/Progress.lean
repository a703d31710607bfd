import HotPatch.Proofs.Bytecode.Machine

/-!
# Where runs lead

`Leads` is total correctness for runs of code: from a configuration every run
comes to a goal after finitely many steps, whatever outcomes the machine
picks.  Two more things are said of the way there, which positions it
executes and which calls it makes.

Most code that is put around a body is straight: control runs through it from
front to back.  `Goes` is the same judgement for such a line, without the
code around it and without positions; `Goes.leads` puts a line back in its
place.
-/

namespace HotPatch

/-- A call as the callee sees it. -/
structure Call (V H : Type) where
  kind : InvokeKind
  form : InvokeForm
  target : MethodRef
  /-- The values of all argument slots, in order. -/
  values : List V
  /-- The shared state at the call, and when it is over. -/
  before : H
  after : H

def Config.heap {V H R : Type} : Config V H R → H
  | .running _ _ heap => heap
  | .ended _ heap => heap

namespace Instruction

/-- The calls an instruction makes: one for an invoke, none for any other. -/
def calls {V H : Type} (registers : Register → V) (before after : H) :
    Instruction → List (Call V H)
  | .invoke kind form args target =>
      [⟨kind, form, target, (args.flatMap Register.slots).map registers, before, after⟩]
  | _ => []

/-- All but invokes. -/
def makesNoCall : Instruction → Bool
  | .invoke _ _ _ _ => false
  | _ => true

/-- An instruction that makes no call has none to report. -/
theorem calls_eq_nil {V H : Type} {i : Instruction} (h : i.makesNoCall = true)
    (registers : Register → V) (before after : H) : i.calls registers before after = [] := by
  cases i <;> first | rfl | cases h

/-- Instructions that write a register make no calls. -/
theorem makesNoCall_of_written {i : Instruction} {r : Register} (h : i.written? = some r) :
    i.makesNoCall = true := by
  cases i <;> first | rfl | cases h

end Instruction

namespace Machine

variable {V H E R : Type} (M : Machine V H E R)

/-- An instruction has an outcome, and each of its outcomes is as required. -/
structure Must (i : Instruction) (values : List V) (heap : H)
    (required : Outcome V H E R → Prop) : Prop where
  can : ∃ out, M.does i values heap out
  must : ∀ {out}, M.does i values heap out → required out

/-- Every run comes to the goal, with the calls made on the way.  Before that it executes only
positions `within`, and neither gets stuck nor ends. -/
inductive Leads (code : List Instruction) (within : Nat → Prop) :
    Config V H R → (List (Call V H) → Config V H R → Prop) → Prop where
  | done {c : Config V H R} {goal : List (Call V H) → Config V H R → Prop} :
      goal [] c → Leads code within c goal
  | step {k : Nat} {registers : Register → V} {heap : H} {i : Instruction}
      {goal : List (Call V H) → Config V H R → Prop} :
      within k → code[k]? = some i →
      (∃ effects d, M.Step code (.running k registers heap) effects d) →
      (∀ effects d, M.Step code (.running k registers heap) effects d →
        Leads code within d fun calls => goal (i.calls registers heap d.heap ++ calls)) →
      Leads code within (.running k registers heap) goal

/-- The machine makes the call, and it leaves the state behind that it says. -/
def Makes (call : Call V H) : Prop :=
  ∃ args out, M.does (.invoke call.kind call.form args call.target) call.values call.before out ∧
    out.heap = call.after

/-- Control runs through the line, with the calls made, to registers and a shared state as
required. -/
def Goes : List Instruction → (Register → V) → H →
    (List (Call V H) → (Register → V) → H → Prop) → Prop
  | [], registers, heap, required => required [] registers heap
  | i :: rest, registers, heap, required =>
      M.Must i (i.readSlots.map registers) heap fun out =>
        out.control = .next ∧ Goes rest (out.write i registers) out.heap fun calls =>
          required (i.calls registers heap out.heap ++ calls)

variable {M}

/-! ## Runs -/

section Leads

variable {code : List Instruction} {within : Nat → Prop} {c : Config V H R}
  {goal : List (Call V H) → Config V H R → Prop}

/-- Runs that come to a middle are taken on from there, with the calls of both parts. -/
theorem Leads.trans {mid : List (Call V H) → Config V H R → Prop}
    (h : M.Leads code within c mid)
    (hMid : ∀ calls d, mid calls d →
      M.Leads code within d fun more => goal (calls ++ more)) : M.Leads code within c goal := by
  induction h generalizing goal with
  | done hMid' => exact hMid [] _ hMid'
  | step hWithin hAt hCan _ ih =>
      refine .step hWithin hAt hCan fun effects d hStep => ih effects d hStep ?_
      intro calls e hGoal
      have hRest := hMid _ e hGoal
      simp only [List.append_assoc] at hRest
      exact hRest

/-- More positions may be executed. -/
theorem Leads.widen {more : Nat → Prop} (h : M.Leads code within c goal)
    (hMore : ∀ k, within k → more k) : M.Leads code more c goal := by
  induction h with
  | done hGoal => exact .done hGoal
  | step hWithin hAt hCan _ ih => exact .step (hMore _ hWithin) hAt hCan ih

/-- Every call of a step is one that the machine makes. -/
theorem Step.makes {k : Nat} {registers : Register → V} {heap : H} {i : Instruction}
    {effects : List E} {d : Config V H R} (h : M.Step code (.running k registers heap) effects d)
    (hAt : code[k]? = some i) : ∀ call ∈ i.calls registers heap d.heap, M.Makes call := by
  intro call hCall
  cases i with
  | invoke kind form args target =>
      obtain rfl := List.mem_singleton.mp hCall
      cases h with
      | goesOn hAt' hDoes _ =>
          obtain rfl := Option.some.inj (hAt.symm.trans hAt')
          exact ⟨args, _, hDoes, rfl⟩
      | stops hAt' hDoes _ =>
          obtain rfl := Option.some.inj (hAt.symm.trans hAt')
          exact ⟨args, _, hDoes, rfl⟩
  | _ => cases hCall

/-- The calls on the way are calls that the machine makes. -/
theorem Leads.makes (h : M.Leads code within c goal) :
    M.Leads code within c fun calls d => goal calls d ∧ ∀ call ∈ calls, M.Makes call := by
  induction h with
  | done hGoal => exact .done ⟨hGoal, List.forall_mem_nil _⟩
  | step hWithin hAt hCan _ ih =>
      refine .step hWithin hAt hCan fun effects d hStep => (ih effects d hStep).trans ?_
      rintro calls e ⟨hGoal, hMade⟩
      refine .done ⟨by rwa [List.append_nil], fun call hCall => ?_⟩
      rw [List.append_nil] at hCall
      rcases List.mem_append.mp hCall with hFirst | hLater
      · exact hStep.makes hAt call hFirst
      · exact hMade call hLater

/-- One instruction, by what its outcomes must be. -/
theorem Leads.of_must {k : Nat} {i : Instruction} {registers : Register → V} {heap : H}
    {required : Outcome V H E R → Prop} (hWithin : within k) (hAt : code[k]? = some i)
    (hMust : M.Must i (i.readSlots.map registers) heap required)
    (hNext : ∀ out, required out →
      (∃ t, out.control.position? code k = some t ∧
        M.Leads code within (.running t (out.write i registers) out.heap) fun calls =>
          goal (i.calls registers heap out.heap ++ calls)) ∨
      ∃ result, out.control = .stop result ∧
        goal (i.calls registers heap out.heap) (.ended result out.heap)) :
    M.Leads code within (.running k registers heap) goal := by
  refine .step hWithin hAt ?_ ?_
  · obtain ⟨out, hDoes⟩ := hMust.can
    rcases hNext out (hMust.must hDoes) with ⟨t, hTo, _⟩ | ⟨result, hStop, _⟩
    · exact ⟨_, _, .goesOn hAt hDoes hTo⟩
    · exact ⟨_, _, .stops hAt hDoes hStop⟩
  · intro effects d hStep
    cases hStep with
    | goesOn hAt' hDoes hTo =>
        obtain rfl := Option.some.inj (hAt.symm.trans hAt')
        rcases hNext _ (hMust.must hDoes) with ⟨t, hTo', hLeads⟩ | ⟨result, hStop, _⟩
        · obtain rfl := Option.some.inj (hTo'.symm.trans hTo)
          exact hLeads
        · rw [hStop] at hTo
          cases hTo
    | stops hAt' hDoes hStop =>
        obtain rfl := Option.some.inj (hAt.symm.trans hAt')
        rcases hNext _ (hMust.must hDoes) with ⟨t, hTo, _⟩ | ⟨result, hStop', hGoal⟩
        · rw [hStop] at hTo
          cases hTo
        · obtain rfl := Control.stop.inj (hStop'.symm.trans hStop)
          exact .done (by rwa [List.append_nil])

end Leads

/-! ## Straight lines -/

section Goes

variable {registers : Register → V} {heap : H}
  {required : List (Call V H) → (Register → V) → H → Prop}

/-- What is required of a line may be less. -/
theorem Goes.mono {line : List Instruction}
    {weaker : List (Call V H) → (Register → V) → H → Prop}
    (h : M.Goes line registers heap required)
    (hWeaker : ∀ calls registers' heap', required calls registers' heap' →
      weaker calls registers' heap') : M.Goes line registers heap weaker := by
  induction line generalizing registers heap required weaker with
  | nil => exact hWeaker _ _ _ h
  | cons i rest ih =>
      refine ⟨h.can, fun hDoes => ?_⟩
      obtain ⟨hControl, hRest⟩ := h.must hDoes
      exact ⟨hControl, ih hRest fun calls _ _ => hWeaker _ _ _⟩

/-- Lines are run one after the other. -/
theorem Goes.append {front back : List Instruction}
    (h : M.Goes front registers heap fun calls registers' heap' =>
      M.Goes back registers' heap' fun more => required (calls ++ more)) :
    M.Goes (front ++ back) registers heap required := by
  induction front generalizing registers heap required with
  | nil => exact h
  | cons i rest ih =>
      refine ⟨h.can, fun hDoes => ?_⟩
      obtain ⟨hControl, hRest⟩ := h.must hDoes
      refine ⟨hControl, ih (hRest.mono fun calls registers' heap' hBack => ?_)⟩
      simpa only [List.append_assoc] using hBack

/-- The instruction right behind a line. -/
theorem getElem?_behind {code front line back : List Instruction} {i : Instruction} {k : Nat}
    (hCode : code = front ++ (line ++ i :: back)) (hStart : front.length = k) :
    code[k + line.length]? = some i := by
  subst hCode hStart
  rw [← List.append_assoc, ← List.length_append, List.getElem?_append_right (Nat.le_refl _),
    Nat.sub_self]
  rfl

/-- A line as part of code: control comes out behind it. -/
theorem Goes.leads {code front line back : List Instruction} {within : Nat → Prop} {k : Nat}
    {goal : List (Call V H) → Config V H R → Prop} (hCode : code = front ++ (line ++ back))
    (hStart : front.length = k) (hWithin : ∀ t, k ≤ t → t < k + line.length → within t)
    (h : M.Goes line registers heap required)
    (hGoal : ∀ calls registers' heap', required calls registers' heap' →
      M.Leads code within (.running (k + line.length) registers' heap') fun more =>
        goal (calls ++ more)) :
    M.Leads code within (.running k registers heap) goal := by
  induction line generalizing front k registers heap required goal with
  | nil => exact hGoal [] registers heap h
  | cons i rest ih =>
      have hAt : code[k]? = some i := by simp [hCode, ← hStart]
      refine .of_must (hWithin k (Nat.le_refl k) (by simp)) hAt h fun out hOut =>
        .inl ⟨k + 1, ?_, ?_⟩
      · rw [hOut.1]
        rfl
      · have hCode' : code = (front ++ [i]) ++ (rest ++ back) := by simp [hCode]
        refine ih hCode' (by simp [hStart]) ?_ hOut.2 ?_
        · intro t hLe hLt
          exact hWithin t (Nat.le_of_succ_le hLe) (by simp only [List.length_cons]; omega)
        · intro calls registers' heap' hRequired
          have hRest := hGoal _ registers' heap' hRequired
          rw [List.length_cons, Nat.add_comm rest.length, ← Nat.add_assoc] at hRest
          simpa only [List.append_assoc] using hRest

end Goes

end Machine

end HotPatch
