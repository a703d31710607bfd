import HotPatch.Proofs.Genesis.SecondInsertion
import HotPatch.Proofs.Instrument.Frame

/-!
# Runs that find nothing to do

A class is spent if it is closed with all its methods numbered, or is left
alone with access flags as wide as they get.  No pass changes more than marks
and roles in spent classes: it finds what it would add, or the closed class
refuses it, and numbering stops at the first number that is there already.
So a run changes nothing else in a program of spent classes, whatever its
outcome, as long as the insertion has nothing to restructure (`run_rests`).
-/

namespace HotPatch

open ClassGraph

/-! ## What runs do not mark -/

/-- A method without the marks that runs set. -/
def Method.essence (m : Method) : Method := { m with disabled := false, role := .plain }

/-- A class without the marks that runs set. -/
def ClassDef.essence (c : ClassDef) : ClassDef :=
  { c with
    disabled := false, vendorPush := false, marks := {}
    methods := c.methods.map Method.essence }

namespace ClassDef

variable {c c' : ClassDef}

private theorem essence_roleless (c : ClassDef) : c.roleless.essence = c.essence := by
  have hMethods : (c.methods.map Method.withoutRole).map Method.essence =
      c.methods.map Method.essence := by
    rw [List.map_map]
    rfl
  exact congrArg (fun methods => ({ c.essence with methods } : ClassDef)) hMethods

theorem name_of_essence (h : c'.essence = c.essence) : c'.name = c.name := by
  have hName : c'.essence.name = c.essence.name := congrArg ClassDef.name h
  exact hName

/-- Marks do not matter to the number of a method. -/
theorem number_of_essence (h : c'.essence = c.essence) (name : MemberName)
    (signature : Signature) :
    (c'.findMethod? name signature).bind (·.id) = (c.findMethod? name signature).bind (·.id) := by
  have hNumber : ∀ d : ClassDef, (d.findMethod? name signature).bind (·.id) =
      (d.essence.findMethod? name signature).bind (·.id) := by
    intro d
    have hFind : d.essence.findMethod? name signature =
        (d.findMethod? name signature).map Method.essence := List.find?_map
    rw [hFind]
    cases d.findMethod? name signature <;> rfl
  rw [hNumber c', hNumber c, h]

/-- A method under other marks. -/
theorem exists_of_essence (h : c'.essence = c.essence) {m' : Method} (hm' : m' ∈ c'.methods) :
    ∃ m ∈ c.methods, m.essence = m'.essence := by
  have hMethods : c'.methods.map Method.essence = c.methods.map Method.essence :=
    congrArg ClassDef.methods h
  have hMem : m'.essence ∈ c.methods.map Method.essence :=
    hMethods ▸ List.mem_map_of_mem hm'
  exact List.mem_map.mp hMem

end ClassDef

/-- Marks do not matter to what widening changes. -/
theorem Widening.firstEdit?_of_essence {makePublic : Bool} {c c' : ClassDef}
    (hSame : c'.essence = c.essence) (h : firstEdit? makePublic c = none) :
    firstEdit? makePublic c' = none := by
  have hAccess : c'.essence.access = c.essence.access := congrArg ClassDef.access hSame
  have hFields : c'.essence.fields = c.essence.fields := congrArg ClassDef.fields hSame
  obtain ⟨hClass, hMethods, hOthers⟩ := firstEdit?_eq_none.mp h
  refine firstEdit?_eq_none.mpr ⟨?_, fun m' hm' => ?_, fun f hf => hOthers f (hFields ▸ hf)⟩
  · rw [show c'.access = c.access from hAccess, hClass]
  · obtain ⟨m, hm, hEq⟩ := ClassDef.exists_of_essence hSame hm'
    have hApplies := congrArg (applies makePublic) hEq
    exact hApplies.symm.trans (hMethods m hm)

namespace Instrument

open HotPatch.Numbering

/-! ## Spent classes -/

/-- There is nothing left to do for a run in the class. -/
structure Spent (makePublic : Bool) (c : ClassDef) : Prop where
  closed : Slots.selects c = true → c.closed = true
  numbered : Slots.selects c = true → ∀ m ∈ c.methods, retains c m = true →
    (c.findMethod? m.name m.signature).bind (·.id) ≠ none
  wide : Widening.selects c = true → c.closed = false →
    Widening.firstEdit? makePublic c = none

namespace Spent

variable {makePublic : Bool} {c c' : ClassDef}

/-- Marks leave a class spent, if none is taken back. -/
theorem congr (h : Spent makePublic c) (hSame : c'.essence = c.essence)
    (hDisabled : c.disabled = true → c'.disabled = true)
    (hVendor : c.vendorPush = true → c'.vendorPush = true) : Spent makePublic c' := by
  have hKind : c'.essence.isProgram = c.essence.isProgram := congrArg ClassDef.isProgram hSame
  have hClosed : c'.essence.closed = c.essence.closed := congrArg ClassDef.closed hSame
  have hSlots : Slots.selects c' = true → Slots.selects c = true := by
    rw [Slots.selects, Slots.selects, Bool.and_eq_true, Bool.and_eq_true]
    rintro ⟨hProgram, hEnabled⟩
    refine ⟨hKind.symm.trans hProgram, ?_⟩
    cases hWas : c.disabled with
    | false => rfl
    | true => rw [hDisabled hWas] at hEnabled; exact hEnabled
  have hWiden : Widening.selects c' = true → Widening.selects c = true := by
    rw [Widening.selects, Widening.selects, Bool.and_eq_true, Bool.and_eq_true]
    rintro ⟨hProgram, hOther⟩
    refine ⟨hKind.symm.trans hProgram, ?_⟩
    cases hWas : c.vendorPush with
    | false => rfl
    | true => rw [hVendor hWas] at hOther; exact hOther
  refine ⟨fun hSelect => hClosed.trans (h.closed (hSlots hSelect)),
    fun hSelect m' hm' hRetains => ?_, fun hSelect hOpen => ?_⟩
  · obtain ⟨m, hm, hEq⟩ := ClassDef.exists_of_essence hSame hm'
    have hName : m.essence.name = m'.essence.name := congrArg Method.name hEq
    have hSignature : m.essence.signature = m'.essence.signature := congrArg Method.signature hEq
    have hFlags : retains c.essence m.essence = retains c'.essence m'.essence := by rw [hSame, hEq]
    have hNumber := h.numbered (hSlots hSelect) m hm (hFlags.trans hRetains)
    rw [ClassDef.number_of_essence hSame]
    exact hSignature ▸ hName ▸ hNumber
  · exact Widening.firstEdit?_of_essence hSame (h.wide (hWiden hSelect) (hClosed.symm.trans hOpen))

/-- Widening changes a spent class as little as it changes a closed one. -/
theorem widenClass (h : Spent makePublic c) (hSelect : Widening.selects c = true)
    (hNew : Widening.widenClass makePublic c = .ok c') : c' = c := by
  rcases Widening.widenClass_eq_ok hNew with ⟨_, hSame⟩ | ⟨hEdit, hOpen, _⟩
  · exact hSame
  · exact (hEdit (h.wide hSelect hOpen)).elim

end Spent

/-- What a closed class has already can be asked for, and nothing else is added. -/
theorem addMethod_of_closed {c c' : ClassDef} {m : Method} (hClosed : c.closed = true)
    (h : c.addMethod m = .ok c') : c' = c := by
  unfold ClassDef.addMethod at h
  split at h
  · cases h
    rfl
  · rw [ClassDef.guarded, if_pos hClosed] at h
    cases h

private theorem addField_of_closed {c c' : ClassDef} {f : Field} (hClosed : c.closed = true)
    (h : c.addField f = .ok c') : c' = c := by
  rcases addField_eq_ok h with rfl | ⟨_, hOpen, _⟩
  · rfl
  · rw [hClosed] at hOpen
    cases hOpen

/-- Numbering stops at the first method of a spent class, if there is any. -/
theorem Spent.assign {makePublic : Bool} {c : ClassDef} (h : Spent makePublic c)
    (hSelect : Slots.selects c = true) :
    assign.on c = (.ok [], c) ∨ ∃ e, assign.on c = (.error e, c) := by
  have hClose : c.close = c := by
    have hClosed := h.closed hSelect
    rw [ClassDef.close, ← hClosed]
  unfold Numbering.assign
  rw [Pass.on_bind, Pass.on_modify]
  simp only [hClose, Pass.on_get_bind]
  cases hOrder : ordered c with
  | nil => exact .inl rfl
  | cons m rest =>
      right
      obtain ⟨hMem, hRetains⟩ := mem_ordered.mp (hOrder ▸ List.mem_cons_self : m ∈ ordered c)
      obtain ⟨id, hId⟩ := Option.ne_none_iff_exists'.mp (h.numbered hSelect m hMem hRetains)
      have hAssign : c.assignId m.name m.signature 0 =
          .error (.closed c.name (.methodId m.name)) := by
        rw [ClassDef.assignId, hId]
      refine ⟨.graph (.closed c.name (.methodId m.name)), ?_⟩
      rw [Pass.on_bind, assignFrom, Pass.on_bind, Pass.on_atomic]
      simp only [hAssign]

/-- A class that is spent is instrumented to itself. -/
theorem Spent.instrumentClass {makePublic : Bool} {c : ClassDef} (h : Spent makePublic c)
    (hSelect : Slots.selects c = true) (s : Settings) (superclass : Option ClassDef) :
    ((instrumentClass s superclass).on c).2 = c := by
  unfold Instrument.instrumentClass
  rw [Pass.on_bind]
  rcases h.assign hSelect with hAssign | ⟨e, hAssign⟩
  · simp only [hAssign]
    rfl
  · simp only [hAssign]

/-! ## Passes -/

/-- The class has got marks that need no more than the settings, and has lost none. -/
structure Labelled (c c' : ClassDef) : Prop where
  essence : c'.essence = c.essence
  marks : c'.marks = c.marks
  disabled : c.disabled = true → c'.disabled = true
  vendorPush : c.vendorPush = true → c'.vendorPush = true

namespace Labelled

theorem markClass (g : ClassGraph) (filter : Filter) (c : ClassDef) :
    Labelled c (Selection.markClass g filter c) := by
  unfold Selection.markClass
  split
  · exact ⟨rfl, rfl, id, id⟩
  · split
    · exact ⟨rfl, rfl, fun _ => rfl, id⟩
    · refine ⟨?_, rfl, id, id⟩
      have hMethods : (c.methods.map fun m =>
          if Selection.methodDisabled filter c m then { m with disabled := true } else m).map
            Method.essence = c.methods.map Method.essence := by
        rw [List.map_map]
        refine List.map_congr_left fun m _ => ?_
        rw [Function.comp_apply]
        split <;> rfl
      exact congrArg (fun methods => ({ c.essence with methods } : ClassDef)) hMethods

theorem prepared (s : Settings) (g : ClassGraph) (c : ClassDef) :
    Labelled c (prepared s g c) := by
  obtain ⟨marked, hPrepared⟩ : ∃ marked, Instrument.prepared s g c =
      Selection.markClass marked s.filter
        (if s.skipVendorPush ∧ Selection.isVendorPush c then { c with vendorPush := true }
        else c) := ⟨_, rfl⟩
  rw [hPrepared]
  split
  · have h := markClass marked s.filter { c with vendorPush := true }
    exact ⟨h.essence, h.marks, h.disabled, fun _ => h.vendorPush rfl⟩
  · exact markClass marked s.filter c

end Labelled

/-- The second program is the first one but for marks and roles, and all of its classes are
spent. -/
structure Rests (makePublic : Bool) (g g' : ClassGraph) : Prop where
  same : Agree ClassDef.essence g g'
  spent : ∀ n c, g'.find? n = some c → Spent makePublic c

namespace Rests

variable {makePublic : Bool} {g g' g'' : ClassGraph}

/-- Passes that neither enable a class nor change more than marks and roles. -/
theorem trans (h : Rests makePublic g g')
    (hSame : Agree (fun c => (c.essence, c.disabled, c.vendorPush)) g' g'') :
    Rests makePublic g g'' := by
  refine ⟨h.same.trans (hSame.restrict Prod.fst fun _ => rfl), fun n c'' hFind'' => ?_⟩
  obtain ⟨c', hFind', hEq⟩ := hSame.symm.find hFind''
  have hDisabled : c'.disabled = c''.disabled := congrArg (fun v => v.2.1) hEq
  have hVendor : c'.vendorPush = c''.vendorPush := congrArg (fun v => v.2.2) hEq
  exact (h.spent n c' hFind').congr (congrArg Prod.fst hEq.symm) (hDisabled ▸ ·) (hVendor ▸ ·)

private theorem trans_id (h : Rests makePublic g g') (hSame : Agree id g' g'') :
    Rests makePublic g g'' :=
  h.trans (hSame.restrict (fun c => (c.essence, c.disabled, c.vendorPush)) fun _ => rfl)

theorem prepare (h : Rests makePublic g g') (s : Settings) :
    Rests makePublic g (prepare s g') := by
  rw [prepare_eq]
  have hName : ∀ c, (prepared s g' c).name = c.name := fun c =>
    ClassDef.name_of_essence (Labelled.prepared s g' c).essence
  refine ⟨h.same.trans (.mapClasses hName (fun c => (Labelled.prepared s g' c).essence) g'), ?_⟩
  intro n c' hFind'
  rw [find?_mapClasses g' hName] at hFind'
  obtain ⟨c, hFind, rfl⟩ := Option.map_eq_some_iff.mp hFind'
  have hLabelled := Labelled.prepared s g' c
  exact (h.spent n c hFind).congr hLabelled.essence hLabelled.disabled hLabelled.vendorPush

/-- A sweep of any outcome, whose pass changes nothing in spent classes. -/
theorem agree_sweep {α : Type} (h : Rests makePublic g g') {select : ClassDef → Bool}
    {pass : ClassDef → Pass ClassDef α} (hName : ∀ c, ((pass c).on c).2.name = c.name)
    (hPass : ∀ c, Spent makePublic c → select c = true → ((pass c).on c).2 = c) :
    Agree id g' ((sweep select pass).on g').2 :=
  HotPatch.agree_sweep hName fun n c hFind hSelect => hPass c (h.spent n c hFind) hSelect

private theorem agree_widen (h : Rests makePublic g g') :
    Agree id g' ((Widening.widen makePublic).on g').2 := by
  refine Pass.on_bind_snd (h.agree_sweep (fun c => ?_) fun c hSpent hSelect => ?_) fun _ _ _ h => h
  · exact Pass.view_on_atomic fun _ => Widening.name_widenClass
  · exact Pass.on_atomic_snd fun _ hNew => hSpent.widenClass hSelect hNew

theorem mark (h : Rests makePublic g g') (m : Manifest) : Rests makePublic g (m.mark g').2 :=
  h.trans ((m.remarked_mark g').restrict (fun c => (c.essence, c.disabled, c.vendorPush))
    fun _ => rfl)

/-- Inserting genesis classes moves nothing in a settled graph. -/
theorem build (h : Rests makePublic g g') (hSettles : Genesis.Settles g') :
    Rests makePublic g (Genesis.build.on g').2 := by
  refine h.trans ((Genesis.agree_build hSettles).restrict
    (fun c => (c.essence, c.disabled, c.vendorPush)) fun c => ?_)
  rw [ClassDef.essence_roleless]
  rfl

theorem addStaticInitializers (h : Rests makePublic g g') :
    Rests makePublic g (Manifest.addStaticInitializers.on g').2 := by
  refine h.trans_id (Pass.on_bind_snd (h.agree_sweep (fun c => ?_) fun c hSpent hLacks => ?_)
    fun _ _ _ h => h)
  · exact Pass.view_on_atomic fun _ hAdd => name_addMethod hAdd
  · refine Pass.on_atomic_snd fun _ hAdd => addMethod_of_closed (hSpent.closed ?_) hAdd
    simp only [Manifest.lacksStaticInitializer, Bool.and_eq_true] at hLacks
    rw [Slots.selects, hLacks.1.1.1, hLacks.1.2]
    rfl

theorem addEach (h : Rests makePublic g g') (field : ClassName → Field) :
    Rests makePublic g ((Slots.addEach field).on g').2 := by
  refine h.trans_id (Pass.on_bind_snd (h.agree_sweep (fun c => ?_) fun c hSpent hSelect => ?_)
    fun _ _ _ h => h)
  · exact Pass.view_on_atomic fun _ hAdd => name_addField hAdd
  · exact Pass.on_atomic_snd fun _ hAdd => addField_of_closed (hSpent.closed hSelect) hAdd

private theorem agree_instrumentClasses (h : Rests makePublic g g') (s : Settings) :
    Agree id g' ((instrumentClasses s).on g').2 := by
  unfold instrumentClasses
  rw [Pass.on_get_bind]
  refine h.agree_sweep (fun c => ?_) fun c hSpent hSelect => hSpent.instrumentClass hSelect s _
  exact guardsName_instrumentClass s _ c.name c rfl

/-- What full mode does, if the insertion has nothing to restructure. -/
theorem completeHierarchy (h : Rests makePublic g g') (hSettles : Genesis.Settles g') :
    Rests makePublic g (completeHierarchy.on g').2 := by
  refine Pass.on_bind_snd (h.build hSettles) fun _ _ _ hBuilt => ?_
  refine Pass.on_bind_snd hBuilt.addStaticInitializers fun _ _ _ hInit => ?_
  exact Pass.on_bind_snd (hInit.addEach _) fun _ _ _ hHolders => hHolders

/-- All that comes before methods are numbered, whatever its outcome. -/
theorem equip {s : Settings} (h : Rests s.makePublic g g')
    (hSettles : s.isFull = true → ∀ p, Agree id (Instrument.prepare s g') p →
      Genesis.Settles (s.manifest.mark p).2) : Rests s.makePublic g ((equip s).on g').2 := by
  have hPrepared := h.prepare s
  have hWidened := hPrepared.agree_widen
  refine Pass.on_bind_snd hPrepared fun _ _ hPrepare _ => ?_
  cases hPrepare
  refine Pass.on_bind_snd (hPrepared.trans_id hWidened) fun _ p hWiden hRests => ?_
  rw [hWiden] at hWidened
  refine Pass.on_bind_snd (hRests.mark s.manifest) fun _ _ hMark hMarked => ?_
  cases hMark
  refine Pass.on_bind_snd ?_ fun _ _ _ hCompleted => ?_
  · unfold complete
    split
    · next hFull => exact hMarked.completeHierarchy (hSettles hFull p hWidened)
    · exact hMarked
  · exact Pass.on_bind_snd (hCompleted.addEach _) fun _ _ _ hSlots => hSlots

end Rests

/-- **A run over spent classes changes no more than marks and roles**, whatever its outcome, if
the insertion has nothing to restructure; and it succeeds only if there is no method to number. -/
theorem run_rests {s : Settings} {g : ClassGraph}
    (hSpent : ∀ n c, g.find? n = some c → Spent s.makePublic c)
    (hSettles : s.isFull = true → ∀ p, Agree id (prepare s g) p →
      Genesis.Settles (s.manifest.mark p).2) :
    Rests s.makePublic g ((run s).on g).2 ∧
      ∀ report g', (run s).on g = (.ok report, g') → ∀ n c, g'.find? n = some c →
        Slots.selects c = true → ∀ m ∈ c.methods, retains c m = false := by
  have hRests : Rests s.makePublic g g := ⟨.refl g, hSpent⟩
  have hEquipped := hRests.equip hSettles
  refine ⟨?_, fun report g' hRun n c hFind hSelect m hm => ?_⟩
  · rw [run_eq]
    refine Pass.on_bind_snd hEquipped fun _ middle _ hMiddle => ?_
    have hClasses := hMiddle.trans_id (hMiddle.agree_instrumentClasses s)
    exact Pass.on_bind_snd hClasses fun _ _ _ hEnd => hEnd
  · obtain ⟨equipped, hEquip, hClasses⟩ := run_ok_iff.mp hRun
    rw [hEquip] at hEquipped
    have hSame := hEquipped.agree_instrumentClasses s
    rw [hClasses] at hSame
    obtain ⟨_, hd, rfl⟩ := hSame.symm.find hFind
    obtain ⟨_, _, ⟨hNot, _⟩ | ⟨_, _, _, hDone⟩⟩ := exists_instrumented hClasses hd
    · exact absurd (hNot.symm.trans hSelect) Bool.false_ne_true
    · by_contra hRetains
      rw [Bool.not_eq_false] at hRetains
      exact (hEquipped.spent n _ hd).numbered hSelect m hm hRetains
        (hDone.unnumbered m (mem_ordered.mpr ⟨hm, hRetains⟩))

end Instrument

end HotPatch
