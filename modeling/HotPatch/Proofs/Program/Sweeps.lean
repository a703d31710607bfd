import HotPatch.Instrument
import HotPatch.Proofs.Program.Outline
import HotPatch.Proofs.Program.Passes

/-!
# Sweeps over the classes of a program

A sweep that succeeds has run its pass in every class it selects, and has left
all others alone (`Swept`).  As no pass renames a class, what a sweep does to
the class of a name is read off the class itself (`find?_sweep`).  All passes
that come behind the insertion select among the classes that are not disabled.
-/

namespace HotPatch

open ClassGraph

/-! ## Classes and graphs -/

section

variable {α β : Type} {select : ClassDef → Bool} {pass : ClassDef → Pass ClassDef α}

/-- What a sweep makes of a class. -/
def Swept (select : ClassDef → Bool) (pass : ClassDef → Pass ClassDef α) (c c' : ClassDef) : Prop :=
  if select c then ∃ a, (pass c).on c = (.ok a, c') else c' = c

/-- What a pass keeps of each class is kept by the sweep. -/
theorem Swept.keeps {view : ClassDef → β} (hKeeps : ∀ c, Pass.Keeps view (pass c))
    {c c' : ClassDef} (h : Swept select pass c c') : view c' = view c := by
  unfold Swept at h
  split at h
  · obtain ⟨a, hOn⟩ := h
    exact hKeeps c c a c' hOn
  · rw [h]

/-- The classes before and after a sweep, with the answers of those it selects. -/
inductive Answered (select : ClassDef → Bool) (pass : ClassDef → Pass ClassDef α) :
    List ClassDef → List α → List ClassDef → Prop where
  | done : Answered select pass [] [] []
  | run {c c' : ClassDef} {a : α} {classes classes' : List ClassDef} {answers : List α} :
      select c = true → (pass c).on c = (.ok a, c') →
      Answered select pass classes answers classes' →
      Answered select pass (c :: classes) (a :: answers) (c' :: classes')
  | skip {c : ClassDef} {classes classes' : List ClassDef} {answers : List α} :
      select c = false → Answered select pass classes answers classes' →
      Answered select pass (c :: classes) answers (c :: classes')

/-- Classes that were answered for were swept. -/
theorem Answered.swept {classes classes' : List ClassDef} {answers : List α}
    (h : Answered select pass classes answers classes') :
    List.Forall₂ (Swept select pass) classes classes' := by
  induction h with
  | done => exact .nil
  | run hSelect hOn _ ih =>
      refine .cons ?_ ih
      rw [Swept, if_pos hSelect]
      exact ⟨_, hOn⟩
  | skip hSelect _ ih =>
      refine .cons ?_ ih
      rw [Swept, hSelect, if_neg Bool.false_ne_true]

private theorem sweepClasses_eq_ok {classes classes' : List ClassDef} :
    ∀ {answers : List α}, sweepClasses select pass classes = (.ok answers, classes') →
      Answered select pass classes answers classes' := by
  induction classes generalizing classes' with
  | nil =>
      intro answers h
      cases h
      exact .done
  | cons c rest ih =>
      intro answers h
      rw [sweepClasses] at h
      cases hOthers : sweepClasses select pass rest with
      | mk others rest' =>
          rw [hOthers] at h
          split at h
          · next hSelect =>
              cases hOn : (pass c).on c with
              | mk answer c' =>
                  rw [hOn] at h
                  cases answer with
                  | error e => cases h
                  | ok a =>
                      cases others with
                      | error e => cases h
                      | ok more =>
                          cases h
                          exact .run hSelect hOn (ih hOthers)
          · next hSelect =>
              cases h
              exact .skip (Bool.not_eq_true _ ▸ hSelect) (ih hOthers)

/-- A sweep puts back the classes as its passes leave them, whatever the outcome. -/
theorem on_sweep (g : ClassGraph) :
    (sweep select pass).on g =
      ((sweepClasses select pass g.classes).1, ⟨(sweepClasses select pass g.classes).2⟩) := by
  unfold sweep
  rw [Pass.on_get_bind]
  cases sweepClasses select pass g.classes with
  | mk outcome classes => cases outcome <;> rfl

/-- A sweep answers for each class that it selects, in order. -/
theorem sweep_answered {g g' : ClassGraph} {answers : List α}
    (h : (sweep select pass).on g = (.ok answers, g')) :
    Answered select pass g.classes answers g'.classes := by
  rw [on_sweep] at h
  obtain ⟨hAnswers, rfl⟩ := Prod.mk.inj h
  exact sweepClasses_eq_ok (Prod.ext hAnswers rfl)

theorem sweep_eq_ok {g g' : ClassGraph} {answers : List α}
    (h : (sweep select pass).on g = (.ok answers, g')) :
    List.Forall₂ (Swept select pass) g.classes g'.classes :=
  (sweep_answered h).swept

/-- Where classes correspond one by one and keep their names, so do the classes of a name. -/
theorem find?_of_forall₂ {rel : ClassDef → ClassDef → Prop}
    (hName : ∀ c c', rel c c' → c'.name = c.name) {classes classes' : List ClassDef}
    (h : List.Forall₂ rel classes classes') (n : ClassName) :
    Option.Rel rel (classes.find? (·.name == n)) (classes'.find? (·.name == n)) := by
  induction h with
  | nil => exact .none
  | @cons c c' _ _ hFirst _ ih =>
      rw [List.find?_cons, List.find?_cons, hName c c' hFirst]
      split
      · exact .some hFirst
      · exact ih

/-- **What a sweep makes of the class of a name.** -/
theorem find?_sweep (hName : ∀ c, Pass.Keeps ClassDef.name (pass c)) {g g' : ClassGraph}
    {answers : List α} (h : (sweep select pass).on g = (.ok answers, g')) (n : ClassName) :
    Option.Rel (Swept select pass) (g.find? n) (g'.find? n) :=
  find?_of_forall₂ (fun _ _ hSwept => hSwept.keeps hName) (sweep_eq_ok h) n

/-- What a sweep makes of the class of a name, with what it answers for it. -/
theorem Answered.exists_find? (hName : ∀ c, Pass.Keeps ClassDef.name (pass c))
    {classes classes' : List ClassDef} {answers : List α}
    (h : Answered select pass classes answers classes') {n : ClassName} {c : ClassDef} :
    classes.find? (·.name == n) = some c →
      ∃ c', classes'.find? (·.name == n) = some c' ∧
        (select c = false ∧ c' = c ∨
          select c = true ∧ ∃ a ∈ answers, (pass c).on c = (.ok a, c')) := by
  induction h with
  | done =>
      intro hFind
      cases hFind
  | @run d d' a _ _ _ hSelect hOn _ ih =>
      intro hFind
      have hSame : d'.name = d.name := hName d d a d' hOn
      rw [List.find?_cons] at hFind ⊢
      rw [hSame]
      split at hFind
      · cases hFind
        exact ⟨d', rfl, .inr ⟨hSelect, a, List.mem_cons_self, hOn⟩⟩
      · obtain ⟨c', hFind', hWhich⟩ := ih hFind
        refine ⟨c', hFind', hWhich.imp_right ?_⟩
        rintro ⟨hSelect', a', ha', hOn'⟩
        exact ⟨hSelect', a', List.mem_cons_of_mem a ha', hOn'⟩
  | skip hSelect _ ih =>
      intro hFind
      rw [List.find?_cons] at hFind ⊢
      split at hFind
      · cases hFind
        exact ⟨_, rfl, .inl ⟨hSelect, rfl⟩⟩
      · exact ih hFind

/-- The classes that a sweep selects, if it selects them still, and its answers in their order. -/
theorem Answered.forall₂
    (hSelect : ∀ c a c', select c = true → (pass c).on c = (.ok a, c') → select c' = true)
    {classes classes' : List ClassDef} {answers : List α}
    (h : Answered select pass classes answers classes') :
    List.Forall₂ (fun c' a => ∃ c ∈ classes, select c = true ∧ (pass c).on c = (.ok a, c'))
      (classes'.filter select) answers := by
  induction h with
  | done => exact .nil
  | @run c c' a _ _ _ hIs hOn _ ih =>
      rw [List.filter_cons_of_pos (hSelect c a c' hIs hOn)]
      refine .cons ⟨c, List.mem_cons_self, hIs, hOn⟩ (ih.imp ?_)
      rintro _ _ ⟨d, hd, hWhich⟩
      exact ⟨d, List.mem_cons_of_mem c hd, hWhich⟩
  | @skip c _ _ _ hNot _ ih =>
      rw [List.filter_cons_of_neg (by rw [hNot]; exact Bool.false_ne_true)]
      refine ih.imp ?_
      rintro _ _ ⟨d, hd, hWhich⟩
      exact ⟨d, List.mem_cons_of_mem c hd, hWhich⟩

/-- Every class is still there, swept or left alone. -/
theorem exists_swept (hName : ∀ c, Pass.Keeps ClassDef.name (pass c)) {g g' : ClassGraph}
    {answers : List α} (h : (sweep select pass).on g = (.ok answers, g')) {n : ClassName}
    {c : ClassDef} (hFind : g.find? n = some c) :
    ∃ c', g'.find? n = some c' ∧ Swept select pass c c' := by
  have hRel := find?_sweep hName h n
  rw [hFind] at hRel
  generalize g'.find? n = found at hRel
  cases hRel with
  | some hSwept => exact ⟨_, rfl, hSwept⟩

/-- What the class of a name was before a sweep. -/
theorem exists_of_swept (hName : ∀ c, Pass.Keeps ClassDef.name (pass c)) {g g' : ClassGraph}
    {answers : List α} (h : (sweep select pass).on g = (.ok answers, g')) {n : ClassName}
    {c' : ClassDef} (hFind' : g'.find? n = some c') :
    ∃ c, g.find? n = some c ∧ Swept select pass c c' := by
  have hRel := find?_sweep hName h n
  rw [hFind'] at hRel
  generalize g.find? n = found at hRel
  cases hRel with
  | some hSwept => exact ⟨_, rfl, hSwept⟩

/-- A class that the sweep does not select stays as it is. -/
theorem find?_sweep_of_not (hName : ∀ c, Pass.Keeps ClassDef.name (pass c)) {g g' : ClassGraph}
    {answers : List α} (h : (sweep select pass).on g = (.ok answers, g')) {n : ClassName}
    {c : ClassDef} (hFind : g.find? n = some c) (hNot : select c = false) :
    g'.find? n = some c := by
  obtain ⟨c', hFind', hSwept⟩ := exists_swept hName h hFind
  rw [Swept, hNot, if_neg Bool.false_ne_true] at hSwept
  rw [hFind', hSwept]

/-- The graphs before and after a sweep agree in what its pass leaves alone. -/
theorem agree_of_sweep {view : ClassDef → β} (hName : ∀ c, Pass.Keeps ClassDef.name (pass c))
    (hKeeps : ∀ c, Pass.Keeps view (pass c)) {g g' : ClassGraph} {answers : List α}
    (h : (sweep select pass).on g = (.ok answers, g')) : Agree view g g' := by
  refine ⟨(sweep_eq_ok h).length_eq.symm, fun n => ?_⟩
  have hRel := find?_sweep hName h n
  generalize g.find? n = before, g'.find? n = after at hRel
  cases hRel with
  | some hSwept => exact congrArg some (hSwept.keeps hKeeps)
  | none => rfl

/-- Whatever the outcome of a sweep, a class is as its pass leaves it or as it was. -/
theorem forall₂_sweepClasses (classes : List ClassDef) :
    List.Forall₂ (fun c c' => c' = c ∨ select c = true ∧ c' = ((pass c).on c).2) classes
      (sweepClasses select pass classes).2 := by
  induction classes with
  | nil => exact .nil
  | cons c rest ih =>
      have hRest : List.Forall₂ (fun c c' => c' = c ∨ select c = true ∧ c' = ((pass c).on c).2)
          rest rest := List.forall₂_same.mpr fun _ _ => .inl rfl
      rw [sweepClasses]
      split
      · next hSelect =>
          cases hOn : (pass c).on c with
          | mk answer c' =>
              cases answer with
              | error e => exact .cons (.inr ⟨hSelect, by rw [hOn]⟩) hRest
              | ok a => exact .cons (.inr ⟨hSelect, by rw [hOn]⟩) ih
      · exact .cons (.inl rfl) ih

private theorem classes_sweep (g : ClassGraph) :
    ((sweep select pass).on g).2.classes = (sweepClasses select pass g.classes).2 := by
  rw [on_sweep]

/-- What a sweep of any outcome makes of the class of a name. -/
theorem rel_sweep (hName : ∀ c, ((pass c).on c).2.name = c.name) (g : ClassGraph) (n : ClassName) :
    Option.Rel (fun c c' => c' = c ∨ select c = true ∧ c' = ((pass c).on c).2)
      (g.find? n) (((sweep select pass).on g).2.find? n) := by
  have hSwept := @forall₂_sweepClasses α select pass g.classes
  rw [← classes_sweep] at hSwept
  refine find?_of_forall₂ (fun c c' hWhich => ?_) hSwept n
  rcases hWhich with rfl | ⟨_, rfl⟩
  · rfl
  · exact hName c

/-- The graphs before and after a sweep of any outcome agree in what its pass leaves alone in the
classes that can be found. -/
theorem agree_sweep {view : ClassDef → β} (hName : ∀ c, ((pass c).on c).2.name = c.name)
    {g : ClassGraph} (hView : ∀ n c, g.find? n = some c → select c = true →
      view ((pass c).on c).2 = view c) : Agree view g ((sweep select pass).on g).2 := by
  have hLength : ((sweep select pass).on g).2.classes.length = g.classes.length := by
    rw [classes_sweep]
    exact (@forall₂_sweepClasses α select pass g.classes).length_eq.symm
  refine ⟨hLength, fun n => ?_⟩
  have hRel := @rel_sweep α select pass hName g n
  cases hFind : g.find? n with
  | none =>
      rw [hFind] at hRel
      generalize ((sweep select pass).on g).2.find? n = found at hRel
      cases hRel
      rfl
  | some c =>
      rw [hFind] at hRel
      generalize ((sweep select pass).on g).2.find? n = found at hRel
      cases hRel with
      | some hWhich =>
          rcases hWhich with rfl | ⟨hSelect, rfl⟩
          · rfl
          · exact congrArg some (hView n c hFind hSelect)

end

/-! ## The passes -/

/-- A field is declared behind those that are there, on a class that is still open. -/
theorem addField_eq_ok {c c' : ClassDef} {f : Field} (h : c.addField f = .ok c') :
    c' = c ∨ c.findField? f.name = none ∧ c.closed = false ∧
      c' = { c with fields := c.fields ++ [{ f with owner := c.name }] } := by
  unfold ClassDef.addField at h
  split at h
  · cases h
    exact .inl rfl
  · next hNone =>
      unfold ClassDef.guarded at h
      split at h
      · cases h
      · next hOpen =>
          cases h
          exact .inr ⟨hNone, Bool.not_eq_true _ ▸ hOpen, rfl⟩

theorem name_addField {c c' : ClassDef} {f : Field} (h : c.addField f = .ok c') :
    c'.name = c.name := by
  rcases addField_eq_ok h with rfl | ⟨_, _, rfl⟩ <;> rfl

section

variable {β : Type} {view : ClassDef → β} {g g' : ClassGraph} {count : Nat}

/-- Static initializers leave alone what declaring a method leaves alone. -/
theorem Manifest.agree_addStaticInitializers
    (hView : ∀ c c' owner, c.addMethod (emptyStaticInitializer owner) = .ok c' → view c' = view c)
    (h : Manifest.addStaticInitializers.on g = (.ok count, g')) : Agree view g g' := by
  obtain ⟨_, _, hSweep, hReturn⟩ := Pass.on_bind_eq_ok.mp h
  cases hReturn
  exact agree_of_sweep (fun _ => Pass.keeps_atomic fun _ _ hAdd => name_addMethod hAdd)
    (fun _ => Pass.keeps_atomic fun c c' hAdd => hView c c' _ hAdd) hSweep

/-- Slots leave all but the fields alone. -/
theorem Slots.agree_addEach {field : ClassName → Field}
    (hView : ∀ (c : ClassDef) fields, view { c with fields } = view c)
    (h : (Slots.addEach field).on g = (.ok count, g')) : Agree view g g' := by
  obtain ⟨_, _, hSweep, hReturn⟩ := Pass.on_bind_eq_ok.mp h
  cases hReturn
  refine agree_of_sweep (fun _ => Pass.keeps_atomic fun _ _ hAdd => name_addField hAdd)
    (fun _ => Pass.keeps_atomic fun c c' hAdd => ?_) hSweep
  rcases addField_eq_ok hAdd with rfl | ⟨_, _, rfl⟩
  · rfl
  · exact hView c _

end

/-- Disabled classes get no static initializer. -/
theorem Manifest.find?_addStaticInitializers {g g' : ClassGraph} {count : Nat}
    (h : Manifest.addStaticInitializers.on g = (.ok count, g')) {n : ClassName} {c : ClassDef}
    (hFind : g.find? n = some c) (hDisabled : c.disabled = true) : g'.find? n = some c := by
  obtain ⟨_, _, hSweep, hReturn⟩ := Pass.on_bind_eq_ok.mp h
  cases hReturn
  refine find?_sweep_of_not (fun _ => ?_) hSweep hFind ?_
  · apply Pass.keeps_atomic
    intro _ _ hAdd
    exact name_addMethod hAdd
  · simp [lacksStaticInitializer, hDisabled]

/-- Disabled classes get no field. -/
theorem Slots.find?_addEach {field : ClassName → Field} {g g' : ClassGraph} {count : Nat}
    (h : (Slots.addEach field).on g = (.ok count, g')) {n : ClassName} {c : ClassDef}
    (hFind : g.find? n = some c) (hDisabled : c.disabled = true) : g'.find? n = some c := by
  obtain ⟨_, _, hSweep, hReturn⟩ := Pass.on_bind_eq_ok.mp h
  cases hReturn
  refine find?_sweep_of_not (fun _ => ?_) hSweep hFind ?_
  · apply Pass.keeps_atomic
    intro _ _ hAdd
    exact name_addField hAdd
  · simp [selects, hDisabled]

/-- Widening changes access flags, in a class that is still open. -/
theorem Widening.widenClass_eq_ok {makePublic : Bool} {c c' : ClassDef}
    (h : widenClass makePublic c = .ok c') :
    firstEdit? makePublic c = none ∧ c' = c ∨
      firstEdit? makePublic c ≠ none ∧ c.closed = false ∧ c' = { c with
        access := widenAccess c.access
        methods := c.methods.map (widenMethod makePublic)
        fields := c.fields.map widenField } := by
  unfold widenClass at h
  split at h
  · cases h
  · split at h
    · next hNone =>
        cases h
        exact .inl ⟨hNone, rfl⟩
    · next edit hEdit =>
        split at h
        · cases h
        · next hOpen =>
            cases h
            exact .inr ⟨by rw [hEdit]; exact Option.some_ne_none edit,
              Bool.not_eq_true _ ▸ hOpen, rfl⟩

/-- There is nothing to widen if the class, its methods and its fields are as wide as they get. -/
theorem Widening.firstEdit?_eq_none {makePublic : Bool} {c : ClassDef} :
    firstEdit? makePublic c = none ↔
      widenAccess c.access = c.access ∧ (∀ m ∈ c.methods, applies makePublic m = false) ∧
        ∀ f ∈ c.fields, f.access.widened = f.access := by
  unfold firstEdit?
  split
  · next hEdit =>
      exact ⟨fun h => (Option.some_ne_none _ h).elim, fun h => (hEdit h.1).elim⟩
  · next hAccess =>
      rw [ne_eq, not_not] at hAccess
      split
      · next m hm =>
          refine ⟨fun h => (Option.some_ne_none _ h).elim, fun h => ?_⟩
          have hApplies := List.find?_some hm
          rw [h.2.1 m (List.mem_of_find?_eq_some hm)] at hApplies
          cases hApplies
      · next hMethods =>
          rw [List.find?_eq_none] at hMethods
          have hNone : ∀ m ∈ c.methods, applies makePublic m = false :=
            fun m hm => Bool.not_eq_true _ ▸ hMethods m hm
          split
          · next f hf =>
              refine ⟨fun h => (Option.some_ne_none _ h).elim, fun h => ?_⟩
              have hWidens := List.find?_some hf
              rw [h.2.2 f (List.mem_of_find?_eq_some hf)] at hWidens
              simp at hWidens
          · next hFields =>
              rw [List.find?_eq_none] at hFields
              refine ⟨fun _ => ⟨hAccess, hNone, fun f hf => ?_⟩, fun _ => rfl⟩
              simpa using hFields f hf

theorem Widening.name_widenClass {makePublic : Bool} {c c' : ClassDef}
    (h : widenClass makePublic c = .ok c') : c'.name = c.name := by
  rcases widenClass_eq_ok h with ⟨_, rfl⟩ | ⟨_, _, rfl⟩ <;> rfl

theorem Widening.keepsName_widenClass (makePublic : Bool) :
    Pass.Keeps ClassDef.name (Pass.atomic id (widenClass makePublic)) :=
  Pass.keeps_atomic fun _ _ => name_widenClass

/-- What widening leaves alone in a class, it leaves alone in all of them. -/
theorem Widening.agree_of_widen {β : Type} {view : ClassDef → β} {makePublic : Bool}
    (hView : ∀ c c', widenClass makePublic c = .ok c' → view c' = view c) {g g' : ClassGraph}
    (h : (widen makePublic).on g = (.ok (), g')) : Agree view g g' := by
  obtain ⟨_, _, hSweep, hReturn⟩ := Pass.on_bind_eq_ok.mp h
  cases hReturn
  exact agree_of_sweep (fun _ => keepsName_widenClass makePublic)
    (fun _ => Pass.keeps_atomic hView) hSweep

/-- What widening makes of the methods of a class, whether or not it has to change anything. -/
theorem Widening.methods_widenClass {makePublic : Bool} {c c' : ClassDef}
    (h : widenClass makePublic c = .ok c') :
    c'.methods = c.methods.map (widenMethod makePublic) := by
  rcases widenClass_eq_ok h with ⟨hNone, rfl⟩ | ⟨_, _, rfl⟩
  · obtain ⟨_, hMethods, _⟩ := firstEdit?_eq_none.mp hNone
    refine (List.map_id' _).symm.trans (List.map_congr_left fun m hm => ?_)
    rw [widenMethod, hMethods m hm, if_neg Bool.false_ne_true]
  · rfl

namespace Numbering

private theorem name_assignId {c c' : ClassDef} {name : MemberName} {signature : Signature}
    {id : Nat} (h : c.assignId name signature id = .ok c') : c'.name = c.name := by
  unfold ClassDef.assignId at h
  split at h
  · cases h
  · cases h
    rfl

section

variable {holds : ClassDef → Prop}

private theorem guards_assignFrom
    (hId : ∀ {c c' : ClassDef} {name : MemberName} {signature : Signature} {id : Nat},
      holds c → c.assignId name signature id = .ok c' → holds c') {methods : List Method} :
    ∀ next, Pass.Guards holds (assignFrom next methods) := by
  induction methods with
  | nil =>
      intro next
      exact Pass.guards_pure ()
  | cons m rest ih =>
      intro next
      refine Pass.guards_bind (Pass.guards_atomic fun _ _ hHolds hAssign => ?_) fun _ =>
        ih (next + 1)
      exact hId hHolds hAssign

/-- What closing a class and giving a number keep is kept by numbering, wherever it stops. -/
theorem guards_assign (hClose : ∀ c : ClassDef, holds c → holds c.close)
    (hId : ∀ {c c' : ClassDef} {name : MemberName} {signature : Signature} {id : Nat},
      holds c → c.assignId name signature id = .ok c' → holds c') :
    Pass.Guards holds assign := by
  refine Pass.guards_bind (Pass.guards_modify hClose) fun _ => ?_
  refine Pass.guards_bind Pass.guards_get fun c => ?_
  exact Pass.guards_bind (guards_assignFrom hId 0) fun _ => Pass.guards_pure _

end

private theorem guardsName_assign (n : ClassName) :
    Pass.Guards (fun c : ClassDef => c.name = n) assign :=
  guards_assign (fun _ hName => hName) fun hName hAssign => (name_assignId hAssign).trans hName

/-- The order of methods in a form that can be evaluated. -/
theorem ordered_eq : ordered = fun c =>
    (c.methods.filter (retains c)).insertionSort fun m n =>
      Text.byteLePair (key m) (key n) = true := by
  funext c
  refine mergeSort_eq_insertionSort ?_ ?_ _
  · intro _ _ _ hab hbc
    exact Text.byteLePair_trans hab hbc
  · intro _ _
    exact Text.byteLePair_total _ _

end Numbering

namespace Instrument

private theorem guardsName_interceptAll (s : Settings) (superclass : Option ClassDef)
    (n : ClassName) {methods : List Method} :
    ∀ id, Pass.Guards (fun c : ClassDef => c.name = n) (interceptAll s superclass methods id) := by
  induction methods with
  | nil =>
      intro id
      exact Pass.guards_pure []
  | cons m rest ih =>
      intro id
      have hRest : ∀ report : MethodReport, Pass.Guards (fun c : ClassDef => c.name = n) (do
          return report :: (← interceptAll s superclass rest (id + 1))) := by
        intro report
        exact Pass.guards_bind (ih (id + 1)) fun _ => Pass.guards_pure _
      unfold interceptAll
      split
      · exact Pass.guards_throw _
      · exact hRest _
      · exact Pass.guards_bind (Pass.guards_modify fun _ hName => hName) fun _ => hRest _

/-- No outcome of instrumentation renames a class. -/
theorem guardsName_instrumentClass (s : Settings) (superclass : Option ClassDef) (n : ClassName) :
    Pass.Guards (fun c : ClassDef => c.name = n) (instrumentClass s superclass) := by
  refine Pass.guards_bind (Numbering.guardsName_assign n) fun _ => ?_
  refine Pass.guards_bind (guardsName_interceptAll s superclass n 0) fun _ => ?_
  exact Pass.guards_bind Pass.guards_get fun _ => Pass.guards_pure _

theorem keepsName_instrumentClass (s : Settings) (superclass : Option ClassDef) :
    Pass.Keeps ClassDef.name (instrumentClass s superclass) :=
  Pass.keeps_of_guards (guardsName_instrumentClass s superclass)

/-- Disabled classes are not instrumented. -/
theorem find?_instrumentClasses {s : Settings} {g g' : ClassGraph} {reports : List ClassReport}
    (h : (instrumentClasses s).on g = (.ok reports, g')) {n : ClassName} {c : ClassDef}
    (hFind : g.find? n = some c) (hDisabled : c.disabled = true) : g'.find? n = some c := by
  unfold instrumentClasses at h
  rw [Pass.on_get_bind] at h
  refine find?_sweep_of_not (fun _ => keepsName_instrumentClass s _) h hFind ?_
  simp [Slots.selects, hDisabled]

end Instrument

end HotPatch
