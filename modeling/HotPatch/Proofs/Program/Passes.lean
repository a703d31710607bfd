import HotPatch.Fault

/-!
# Passes

A pass that succeeds is taken apart into its steps: each has succeeded, and
the state goes from one to the next.  What each step leaves alone, the pass
leaves alone (`Keeps`).  A pass that stops at a fault keeps what it has done;
what every step keeps up whatever its outcome, the pass keeps up (`Guards`).
-/

namespace HotPatch.Pass

variable {σ α β : Type} {state final : σ}

@[simp] theorem on_pure (a : α) : (pure a : Pass σ α).on state = (.ok a, state) := rfl

@[simp] theorem on_get : (get : Pass σ σ).on state = (.ok state, state) := rfl

@[simp] theorem on_set (new : σ) : (set new : Pass σ PUnit).on state = (.ok ⟨⟩, new) := rfl

@[simp] theorem on_modify (change : σ → σ) :
    (modify change : Pass σ PUnit).on state = (.ok ⟨⟩, change state) := rfl

@[simp] theorem on_throw (e : Fault) : (throw e : Pass σ α).on state = (.error e, state) := rfl

/-- A pass goes on with the state it has come to, and stops at the first fault. -/
theorem on_bind (pass : Pass σ α) (next : α → Pass σ β) :
    (pass >>= next).on state =
      match pass.on state with
      | (.ok a, middle) => (next a).on middle
      | (.error e, middle) => (.error e, middle) := by
  unfold Pass.on ExceptT.run StateT.run
  simp only [bind, ExceptT.bind, ExceptT.mk, StateT.bind, ExceptT.bindCont]
  cases pass state with
  | mk answer middle => cases answer <;> rfl

/-- The first step of a pass that succeeds has succeeded, and so has the rest from there on. -/
theorem on_bind_eq_ok {pass : Pass σ α} {next : α → Pass σ β} {b : β} :
    (pass >>= next).on state = (.ok b, final) ↔
      ∃ a middle, pass.on state = (.ok a, middle) ∧ (next a).on middle = (.ok b, final) := by
  rw [on_bind]
  cases hFirst : pass.on state with
  | mk answer middle =>
      cases answer with
      | error e => simp
      | ok a =>
          constructor
          · intro h
            exact ⟨a, middle, rfl, h⟩
          · rintro ⟨_, _, hEq, h⟩
            cases hEq
            exact h

/-- A pass that is known to succeed has an answer. -/
theorem exists_on_eq_ok {pass : Pass σ α} (h : (pass.on state).1.isOk = true) :
    ∃ a, pass.on state = (.ok a, (pass.on state).2) := by
  cases hOn : pass.on state with
  | mk answer final =>
      rw [hOn] at h
      cases answer with
      | error e => cases h
      | ok a => exact ⟨a, rfl⟩

theorem on_get_bind (next : σ → Pass σ β) :
    ((get : Pass σ σ) >>= next).on state = (next state).on state := by
  rw [on_bind, on_get]

/-- An atomic pass is done, or nothing is. -/
theorem on_atomic {ε : Type} (wrap : ε → Fault) (change : σ → Except ε σ) :
    (atomic wrap change).on state =
      match change state with
      | .ok new => (.ok (), new)
      | .error e => (.error (wrap e), state) := by
  rw [atomic, on_get_bind]
  cases change state <;> rfl

theorem on_atomic_eq_ok {ε : Type} {wrap : ε → Fault} {change : σ → Except ε σ} :
    (atomic wrap change).on state = (.ok (), final) ↔ change state = .ok final := by
  rw [on_atomic]
  cases change state <;> simp

/-! ## What a pass leaves alone -/

/-- When the pass succeeds, the view of the state is what it was. -/
def Keeps (view : σ → β) (pass : Pass σ α) : Prop :=
  ∀ state a final, pass.on state = (.ok a, final) → view final = view state

variable {γ : Type} {view : σ → γ}

theorem keeps_atomic {ε : Type} {wrap : ε → Fault} {change : σ → Except ε σ}
    (hChange : ∀ state new, change state = .ok new → view new = view state) :
    Keeps view (atomic wrap change) := by
  intro state a final h
  exact hChange state final (on_atomic_eq_ok.mp h)

/-! ## Whatever the outcome -/

/-- The state that two steps leave, the first of which may stop at a fault. -/
theorem on_bind_snd {holds : σ → Prop} {pass : Pass σ α} {next : α → Pass σ β}
    (hFirst : holds (pass.on state).2)
    (hNext : ∀ a middle, pass.on state = (.ok a, middle) → holds middle →
      holds ((next a).on middle).2) : holds ((pass >>= next).on state).2 := by
  rw [on_bind]
  cases hOn : pass.on state with
  | mk answer middle =>
      rw [hOn] at hFirst
      cases answer with
      | error e => exact hFirst
      | ok a => exact hNext a middle hOn hFirst

/-- What a change leaves alone if it succeeds, it leaves alone. -/
theorem view_on_atomic {ε : Type} {wrap : ε → Fault} {change : σ → Except ε σ}
    (h : ∀ new, change state = .ok new → view new = view state) :
    view ((atomic wrap change).on state).2 = view state := by
  rw [on_atomic]
  cases hNew : change state with
  | error e => rfl
  | ok new => exact h new hNew

/-- A change that succeeds only where it changes nothing. -/
theorem on_atomic_snd {ε : Type} {wrap : ε → Fault} {change : σ → Except ε σ}
    (h : ∀ new, change state = .ok new → new = state) :
    ((atomic wrap change).on state).2 = state := by
  have hSame : id ((atomic wrap change).on state).2 = id state := view_on_atomic h
  exact hSame

/-- Whatever the outcome of the pass, the property holds of the state if it did before. -/
def Guards (holds : σ → Prop) (pass : Pass σ α) : Prop :=
  ∀ state, holds state → holds (pass.on state).2

variable {holds : σ → Prop}

theorem guards_pure (a : α) : Guards holds (pure a : Pass σ α) := fun _ h => h

theorem guards_get : Guards holds (get : Pass σ σ) := fun _ h => h

theorem guards_throw (e : Fault) : Guards holds (throw e : Pass σ α) := fun _ h => h

/-- What two passes guard, they guard in a row. -/
theorem guards_bind {pass : Pass σ α} {next : α → Pass σ β} (hFirst : Guards holds pass)
    (hNext : ∀ a, Guards holds (next a)) : Guards holds (pass >>= next) :=
  fun state h => on_bind_snd (hFirst state h) fun a middle _ hMiddle => hNext a middle hMiddle

theorem guards_modify {change : σ → σ} (hChange : ∀ state, holds state → holds (change state)) :
    Guards holds (modify change : Pass σ PUnit) := hChange

/-- An atomic pass guards what its change keeps. -/
theorem guards_atomic {ε : Type} {wrap : ε → Fault} {change : σ → Except ε σ}
    (hChange : ∀ state new, holds state → change state = .ok new → holds new) :
    Guards holds (atomic wrap change) := by
  intro state h
  rw [on_atomic]
  cases hNew : change state with
  | error e => exact h
  | ok new => exact hChange state new h hNew

/-! ## Looking before writing -/

/-- The pass leaves the state alone, whatever its outcome. -/
def Reads (pass : Pass σ α) : Prop := ∀ state, (pass.on state).2 = state

/-- The pass leaves the state alone if it stops at a fault. -/
def Commits (pass : Pass σ α) : Prop :=
  ∀ state e final, pass.on state = (.error e, final) → final = state

/-- The pass does not stop at a fault. -/
def Completes (pass : Pass σ α) : Prop := ∀ state, ∃ a, (pass.on state).1 = .ok a

theorem reads_pure (a : α) : Reads (pure a : Pass σ α) := fun _ => rfl

theorem reads_throw (e : Fault) : Reads (throw e : Pass σ α) := fun _ => rfl

theorem Reads.bind {pass : Pass σ α} {next : α → Pass σ β} (hFirst : Reads pass)
    (hNext : ∀ a, Reads (next a)) : Reads (pass >>= next) := by
  intro state
  have hSame := hFirst state
  rw [on_bind]
  cases hOn : pass.on state with
  | mk answer middle =>
      rw [hOn] at hSame
      cases answer with
      | error e => exact hSame
      | ok a => exact (hNext a middle).trans hSame

/-- A pass that only reads leaves nothing half done. -/
theorem Reads.commits {pass : Pass σ α} (h : Reads pass) : Commits pass := by
  intro state e final hOn
  rw [← h state, hOn]

theorem completes_pure (a : α) : Completes (pure a : Pass σ α) := fun _ => ⟨a, rfl⟩

theorem completes_modify (change : σ → σ) : Completes (modify change : Pass σ PUnit) :=
  fun _ => ⟨⟨⟩, rfl⟩

/-- A pass that never fails leaves nothing half done. -/
theorem Completes.commits {pass : Pass σ α} (h : Completes pass) : Commits pass := by
  intro state e final hOn
  obtain ⟨a, ha⟩ := h state
  rw [hOn] at ha
  cases ha

theorem Completes.bind {pass : Pass σ α} {next : α → Pass σ β} (hFirst : Completes pass)
    (hNext : ∀ a, Completes (next a)) : Completes (pass >>= next) := by
  intro state
  obtain ⟨a, ha⟩ := hFirst state
  rw [on_bind]
  cases hOn : pass.on state with
  | mk answer middle =>
      rw [hOn] at ha
      cases ha
      exact hNext a middle

/-- Whatever stops a pass that first looks leaves the state alone if the rest does so. -/
theorem Reads.bind_commits {pass : Pass σ α} {next : α → Pass σ β} (hFirst : Reads pass)
    (hNext : ∀ a, Commits (next a)) : Commits (pass >>= next) := by
  intro state e final hOn
  rw [on_bind] at hOn
  have hSame := hFirst state
  cases hLook : pass.on state with
  | mk answer middle =>
      rw [hLook] at hOn hSame
      cases answer with
      | error e' =>
          cases hOn
          exact hSame
      | ok a => exact (hNext a middle e final hOn).trans hSame

/-- A view that a pass keeps up whatever its outcome. -/
theorem keeps_of_guards {pass : Pass σ α}
    (h : ∀ seen, Guards (fun state => view state = seen) pass) : Keeps view pass := by
  intro state a final hOn
  have hSame := h (view state) state rfl
  rw [hOn] at hSame
  exact hSame

end HotPatch.Pass
