import HotPatch.Proofs.Genesis.Changes
import HotPatch.Proofs.Instrument.Frame
import HotPatch.Proofs.Instrument.Reporting
import HotPatch.Proofs.Intercept.SlotReferences

/-!
# The fields behind the slots

Intercepted code names the slot of its class as a static field of a certain
type.  A run declares that field, but declaring is by name: a class that has a
field of the name keeps the one it has.  So a class of the report ends up with
the slot exactly if it had room for it before the run, and the references that
interception adds go to a field that is there exactly then
(`run_declares_slots_iff`).  Genesis classes always have room.
-/

namespace HotPatch

open ClassGraph Genesis

/-! ## What a class declares under a name -/

/-- A field, but for its owner and for the access flags other than the static one. -/
def Field.form (f : Field) : MemberName × ValueType × Bool := (f.name, f.type, f.isStatic)

namespace ClassDef

/-- Type of the field that a class declares under a name, and whether it is static. -/
def declared? (c : ClassDef) (name : MemberName) : Option (ValueType × Bool) :=
  (c.findField? name).map fun f => (f.type, f.isStatic)

/-- A reference to a static or an instance field of the class goes to a field that is there. -/
def Declares (c : ClassDef) (ref : FieldRef) (isStatic : Bool) : Prop :=
  c.declared? ref.name = some (ref.type, isStatic)

instance (c : ClassDef) (ref : FieldRef) (isStatic : Bool) : Decidable (c.Declares ref isStatic) :=
  inferInstanceAs (Decidable (_ = _))

/-- What slots depend on: the fields of a class, and whether it gets slots. -/
def ground (c : ClassDef) : List (MemberName × ValueType × Bool) × Bool :=
  (c.fields.map Field.form, Slots.selects c)

private theorem declared?_eq (c : ClassDef) (name : MemberName) :
    c.declared? name = (c.ground.1.find? (·.1 == name)).map Prod.snd := by
  rw [declared?, findField?, ground, List.find?_map, Option.map_map]
  rfl

private theorem declared?_of_ground {c c' : ClassDef} (h : c'.ground = c.ground)
    (name : MemberName) :
    c'.declared? name = c.declared? name := by
  rw [declared?_eq, declared?_eq, h]

private theorem selects_of_ground {c c' : ClassDef} (h : c'.ground = c.ground) :
    Slots.selects c' = Slots.selects c :=
  congrArg Prod.snd h

/-- A field is declared, unless there is one of its name. -/
theorem declared?_addField {c c' : ClassDef} {f : Field} (h : c.addField f = .ok c')
    (name : MemberName) :
    c'.declared? name =
      (c.declared? name).or (if name = f.name then some (f.type, f.isStatic) else none) := by
  unfold addField at h
  split at h
  · next old hOld =>
      cases h
      split
      · next hName =>
          rw [declared?, hName, hOld]
          rfl
      · exact Option.or_none.symm
  · next hNone =>
      unfold guarded at h
      split at h
      · cases h
      · cases h
        rw [declared?, declared?, findField?, findField?, List.find?_append, Option.map_or]
        congr 1
        by_cases hName : name = f.name
        · simp [hName, Field.isStatic]
        · simp [hName, Ne.symm hName]

end ClassDef

/-- A program has room for a slot: the class declares nothing under its name, or the slot itself. -/
def ClassGraph.HasRoom (g : ClassGraph) (ref : FieldRef) (isStatic : Bool) : Prop :=
  ∀ c, g.find? ref.owner = some c → c.declared? ref.name = none ∨ c.Declares ref isStatic

/-! ## The insertion -/

namespace Genesis

/-- The classes are what slots depend on as before, and all others are genesis classes with
nothing but the field for a counterpart. -/
def Raised (g g' : ClassGraph) : Prop :=
  ∀ n, (g'.find? n).map ClassDef.ground = (g.find? n).map ClassDef.ground ∨
    g.find? n = none ∧ ∃ bottom, n = genesisName bottom ∧
      (g'.find? n).map ClassDef.ground =
        some ([(Interceptor.buddyField, .rootObject, false)], true)

theorem Raised.refl (g : ClassGraph) : Raised g g := fun _ => .inl rfl

theorem Raised.trans {g g' g'' : ClassGraph} (h : Raised g g') (h' : Raised g' g'') :
    Raised g g'' := by
  intro n
  rcases h' n with hSame' | ⟨hNone', hNew'⟩
  · rcases h n with hSame | ⟨hNone, bottom, hName, hNew⟩
    · exact .inl (hSame'.trans hSame)
    · exact .inr ⟨hNone, bottom, hName, hSame'.trans hNew⟩
  · rcases h n with hSame | ⟨hNone, _, _, hNew⟩
    · rw [hNone', Option.map_none, eq_comm, Option.map_eq_none_iff] at hSame
      exact .inr ⟨hSame, hNew'⟩
    · rw [hNone'] at hNew
      cases hNew

/-- Changes that leave alone what slots depend on raise nothing. -/
theorem Raised.modify {g : ClassGraph} {name : ClassName} {change : ClassDef → ClassDef}
    (hName : ∀ c, (change c).name = c.name) (hGround : ∀ c, (change c).ground = c.ground) :
    Raised g (g.modify name change) := fun n =>
  .inl ((Agree.modify (fun c hc => (hName c).trans hc) fun c _ => hGround c).classes n)

private theorem map_ground_eq_outline (g : ClassGraph) (n : ClassName) :
    (g.find? n).map ClassDef.ground = (g.outline? n).map ClassDef.ground := by
  rw [outline?, Option.map_map]
  rfl

private theorem Change.raised {g g' : ClassGraph} (h : Change g g') : Raised g g' := by
  cases h with
  | role name signature role => apply Raised.modify <;> intro c <;> rfl
  | mark name component => apply Raised.modify <;> intro c <;> rfl
  | method h =>
      intro n
      left
      rw [map_ground_eq_outline, map_ground_eq_outline, outline?_addMethod h]
  | @made _ _ component bottom c hClass hAdd =>
      have hOutline := outline_genesisClass hClass
      have hGround : c.outline.ground = (bareClass component bottom.name).outline.ground :=
        congrArg ClassDef.ground hOutline
      obtain ⟨hNew, _, _, hFind⟩ := find?_addClass hAdd
      intro n
      rw [hFind]
      split
      · next hn =>
          subst hn
          exact .inr ⟨hNew, bottom.name, congrArg ClassDef.name hOutline, congrArg some hGround⟩
      · left
        rw [Option.map_map]
        rfl
  | moved h =>
      intro n
      left
      rw [(find?_reparent h).2.2.2, Option.map_map]
      rfl
  | retargeted bottom genesis _ => apply Raised.modify <;> intro c <;> rfl

private theorem raised_of_build {g g' : ClassGraph} {created : List ClassName}
    (h : build.on g = (.ok created, g')) : Raised g g' := by
  have hAfter : Raised g (build.on g).2 :=
    Change.guards_build (fun hChange hRaised => hRaised.trans hChange.raised) g (.refl g)
  rw [h] at hAfter
  exact hAfter

private theorem Change.nodup_names {g g' : ClassGraph} (h : Change g g') (hNames : g.names.Nodup) :
    g'.names.Nodup := by
  have hModify : ∀ {name : ClassName} {change : ClassDef → ClassDef},
      (∀ c, (change c).name = c.name) → (g.modify name change).names.Nodup := by
    intro name change hSame
    rwa [names_modify fun c hc => (hSame c).trans hc]
  cases h with
  | role name signature role =>
      apply hModify
      intro c
      rfl
  | mark name component =>
      apply hModify
      intro c
      rfl
  | method h =>
      rwa [(editedAt_of_edit (fun _ _ => ClassDef.edited_of_addMethod) h).names]
  | made _ hAdd =>
      obtain ⟨hNew, _, hMore, _⟩ := find?_addClass hAdd
      rw [hMore, List.nodup_append]
      refine ⟨hNames, List.nodup_singleton _, fun a ha b hb hEq => ?_⟩
      rw [hEq, List.mem_singleton.mp hb, mem_names_iff, hNew] at ha
      cases ha
  | moved h => rwa [(find?_reparent h).2.2.1]
  | retargeted bottom genesis _ =>
      apply hModify
      intro c
      rfl

private theorem nodup_names_build {g g' : ClassGraph} {created : List ClassName}
    (h : build.on g = (.ok created, g')) (hNames : g.names.Nodup) : g'.names.Nodup := by
  have hAfter := Change.guards_build Change.nodup_names g hNames
  rw [h] at hAfter
  exact hAfter

end Genesis

/-! ## Pass by pass -/

namespace Slots

/-- What a class declares once a slot has been added wherever it gets one. -/
theorem exists_of_addEach {field : ClassName → Field} {g g' : ClassGraph} {count : Nat}
    (h : (addEach field).on g = (.ok count, g')) {n : ClassName} {c' : ClassDef}
    (hFind' : g'.find? n = some c') (hSelect : selects c' = true) :
    ∃ c, g.find? n = some c ∧ selects c = true ∧
      c'.declared? (field n).name = (c.declared? (field n).name).or
        (some ((field n).type, (field n).isStatic)) ∧
      ∀ name, name ≠ (field n).name → c'.declared? name = c.declared? name := by
  have hAgree : Agree selects g g' := agree_addEach (fun _ _ => rfl) h
  obtain ⟨_, _, hSweep, hReturn⟩ := Pass.on_bind_eq_ok.mp h
  cases hReturn
  obtain ⟨c, hFind, hSwept⟩ := exists_of_swept
    (fun _ => Pass.keeps_atomic fun _ _ hAdd => name_addField hAdd) hSweep hFind'
  have hSame := hAgree.classes n
  rw [hFind, hFind', Option.map_some, Option.map_some, Option.some.injEq, hSelect] at hSame
  rw [Swept, if_pos hSame.symm] at hSwept
  obtain ⟨_, hOn⟩ := hSwept
  obtain rfl := name_of_find? hFind
  have hAdded := ClassDef.declared?_addField (Pass.on_atomic_eq_ok.mp hOn)
  refine ⟨c, hFind, hSame.symm, ?_, fun name hName => ?_⟩
  · rw [hAdded, if_pos rfl]
  · rw [hAdded, if_neg hName, Option.or_none]

end Slots

namespace Instrument

section

variable {s : Settings} {g g' g₂ widened : ClassGraph} {n : ClassName}

private theorem ground_widenClass {makePublic : Bool} {c c' : ClassDef}
    (h : Widening.widenClass makePublic c = .ok c') : c'.ground = c.ground := by
  rcases Widening.widenClass_eq_ok h with ⟨_, rfl⟩ | ⟨_, _, rfl⟩
  · rfl
  · unfold ClassDef.ground
    rw [List.map_map]
    rfl

private theorem agree_ground_mark {makePublic : Bool} (m : Manifest)
    (h : (Widening.widen makePublic).on g = (.ok (), widened)) :
    Agree ClassDef.ground g (m.mark widened).2 := by
  have hWide : Agree ClassDef.ground g widened :=
    Widening.agree_of_widen (fun _ _ => ground_widenClass) h
  exact hWide.trans ((Manifest.remarked_mark m widened).restrict ClassDef.ground fun _ => rfl)

private theorem fields_prepared (s : Settings) (g : ClassGraph) (c : ClassDef) :
    (prepared s g c).fields = c.fields := by
  have hMark : ∀ marked (d : ClassDef),
      (Selection.markClass marked s.filter d).fields = d.fields := by
    intro marked d
    unfold Selection.markClass
    split
    · rfl
    · split <;> rfl
  rw [prepared, hMark]
  split <;> rfl

/-- A class of the interceptor library gets no slots. -/
theorem startsWith_of_selects_markClass {filter : Filter} {c : ClassDef}
    (h : Slots.selects (Selection.markClass g filter c) = true) :
    c.name.startsWith Interceptor.libraryPackage = false := by
  unfold Selection.markClass at h
  split at h
  · next hLibrary =>
      rw [Bool.not_eq_true'] at hLibrary
      rw [Slots.selects, hLibrary] at h
      cases h
  · split at h
    · simp [Slots.selects] at h
    · next hEnabled =>
        rw [Selection.classDisabled] at hEnabled
        simp only [Bool.or_eq_true, not_or, Bool.not_eq_true] at hEnabled
        exact hEnabled.1.1.1.1.1

private theorem startsWith_of_selects_prepared {c : ClassDef}
    (h : Slots.selects (prepared s g c) = true) :
    c.name.startsWith Interceptor.libraryPackage = false := by
  have hName := startsWith_of_selects_markClass h
  split at hName <;> exact hName

private theorem find?_prepare_eq (s : Settings) (g : ClassGraph) (n : ClassName) :
    (prepare s g).find? n = (g.find? n).map (prepared s g) := by
  rw [prepare_eq]
  exact find?_mapClasses g (fun c => ClassDef.name_of_mold (readied_prepared s g c).mold) n

/-- No genesis class goes by the name of the class with the slot of the process. -/
theorem genesisName_ne_clinitStorage (bottom : ClassName) :
    genesisName bottom ≠ Interceptor.clinitStorage := by
  intro h
  have hLast : ((bottom.text ++ suffix).toList.getLast? : Option Char) = some 'e' :=
    congrArg (fun n : ClassName => n.text.toList.getLast?) h
  have hSuffix : suffix.toList.getLast? = some 's' := by decide
  rw [String.toList_append, List.getLast?_append, hSuffix] at hLast
  revert hLast
  simp

/-- **A class of before that is to get slots** declares what it declared in the beginning; a class
that was not there declares nothing of the name of a slot. -/
theorem declared?_before_slots
    (hWiden : (Widening.widen s.makePublic).on (prepare s g) = (.ok (), widened))
    (hRaised : Raised (s.manifest.mark widened).2 g₂) {c₂ : ClassDef}
    (hFind₂ : g₂.find? n = some c₂) (hSelect : Slots.selects c₂ = true) :
    n ≠ Interceptor.clinitStorage ∧ ∀ name, name ≠ Interceptor.buddyField →
      c₂.declared? name = (g.find? n).bind (·.declared? name) := by
  have hAgree := (agree_ground_mark s.manifest hWiden).classes n
  rw [find?_prepare_eq, Option.map_map] at hAgree
  rcases hRaised n with hSame | ⟨hNone, bottom, rfl, hNew⟩
  · rw [hFind₂, hAgree] at hSame
    obtain ⟨c, hFind, hGround⟩ := Option.map_eq_some_iff.mp hSame.symm
    refine ⟨?_, fun name _ => ?_⟩
    · rintro rfl
      have hOutside := startsWith_of_selects_prepared
        ((ClassDef.selects_of_ground hGround).trans hSelect)
      rw [name_of_find? hFind] at hOutside
      revert hOutside
      decide
    · rw [hFind, Option.bind_some, ← ClassDef.declared?_of_ground hGround]
      unfold ClassDef.declared? ClassDef.findField?
      rw [fields_prepared]
  · refine ⟨genesisName_ne_clinitStorage bottom, fun name hName => ?_⟩
    rw [hNone, Option.map_none, eq_comm, Option.map_eq_none_iff] at hAgree
    rw [hFind₂, Option.map_some, Option.some.injEq] at hNew
    rw [hAgree, Option.bind_none, ClassDef.declared?_eq, hNew]
    simp [Ne.symm hName]

private theorem agree_ground_addStaticInitializers {count : Nat}
    (h : Manifest.addStaticInitializers.on g = (.ok count, g')) :
    Agree ClassDef.ground g g' := by
  refine Manifest.agree_addStaticInitializers (fun c c' _ hAdd => ?_) h
  have hSame : c'.outline.ground = c.outline.ground :=
    congrArg ClassDef.ground (outline_addMethod hAdd)
  exact hSame

private theorem slot_names_ne (n : ClassName) :
    (Interceptor.holderSlot n).name ≠ (Interceptor.slot n).name ∧
      (Interceptor.slot n).name ≠ Interceptor.buddyField ∧
      (Interceptor.holderSlot n).name ≠ Interceptor.buddyField := by
  show (⟨"$fh"⟩ : MemberName) ≠ ⟨"$ic"⟩ ∧ (⟨"$ic"⟩ : MemberName) ≠ ⟨"$buddyObj"⟩ ∧
    (⟨"$fh"⟩ : MemberName) ≠ ⟨"$buddyObj"⟩
  decide

/-- **The slots of a class that gets them, when they have been added**: what the class declared
under their names in the beginning, or else the slot. -/
theorem declared?_of_equip {created : List ClassName} (h : (equip s).on g = (.ok created, g'))
    {c' : ClassDef} (hFind' : g'.find? n = some c') (hSelect : Slots.selects c' = true) :
    n ≠ Interceptor.clinitStorage ∧
      c'.declared? (Interceptor.slot n).name =
        ((g.find? n).bind (·.declared? (Interceptor.slot n).name)).or
          (some ((Interceptor.slot n).type, true)) ∧
      (s.isFull = true → c'.declared? (Interceptor.holderSlot n).name =
        ((g.find? n).bind (·.declared? (Interceptor.holderSlot n).name)).or
          (some ((Interceptor.holderSlot n).type, false))) := by
  obtain ⟨widened, completed, _, hWiden, hComplete, hSlots⟩ := equip_eq_ok h
  obtain ⟨c₁, hFind₁, hSelect₁, hSlot, hRest⟩ := Slots.exists_of_addEach hSlots hFind' hSelect
  obtain ⟨hHolderOther, hSlotBuddy, hHolderBuddy⟩ := slot_names_ne n
  cases hFull : s.isFull with
  | false =>
      obtain ⟨_, rfl⟩ := complete_of_light hFull hComplete
      obtain ⟨hStorage, hBefore⟩ := declared?_before_slots hWiden (.refl _) hFind₁ hSelect₁
      refine ⟨hStorage, ?_, fun hNot => ?_⟩
      · rw [← hBefore _ hSlotBuddy]
        exact hSlot
      · cases hNot
  | true =>
      obtain ⟨built, initialized, _, _, hBuild, hInit, hHolders⟩ := complete_of_full hFull hComplete
      obtain ⟨c₂, hFind₂, hSelect₂, hHolder, hRest'⟩ :=
        Slots.exists_of_addEach hHolders hFind₁ hSelect₁
      have hRaised : Raised (s.manifest.mark widened).2 initialized := by
        refine (raised_of_build hBuild).trans fun k => .inl ?_
        exact (agree_ground_addStaticInitializers hInit).classes k
      obtain ⟨hStorage, hBefore⟩ := declared?_before_slots hWiden hRaised hFind₂ hSelect₂
      refine ⟨hStorage, ?_, fun _ => ?_⟩
      · rw [← hBefore _ hSlotBuddy, ← hRest' _ hHolderOther.symm]
        exact hSlot
      · rw [hRest _ hHolderOther, ← hBefore _ hHolderBuddy]
        exact hHolder

/-- A class that declares a slot where it has room for it. -/
theorem declares_iff_hasRoom {ref : FieldRef} {isStatic : Bool} {c' : ClassDef}
    (h : c'.declared? ref.name = ((g.find? ref.owner).bind (·.declared? ref.name)).or
      (some (ref.type, isStatic))) :
    c'.Declares ref isStatic ↔ g.HasRoom ref isStatic := by
  unfold ClassDef.Declares HasRoom
  rw [h]
  cases hFind : g.find? ref.owner with
  | none => simp
  | some c =>
      cases hDeclared : c.declared? ref.name <;> simp [ClassDef.Declares, hDeclared]

/-! ## The names of classes -/

private theorem names_of_forall₂ {rel : ClassDef → ClassDef → Prop}
    (hName : ∀ c c', rel c c' → c'.name = c.name) (h : List.Forall₂ rel g.classes g'.classes) :
    g'.names = g.names := by
  unfold names
  generalize g.classes = classes, g'.classes = classes' at h
  induction h with
  | nil => rfl
  | cons hFirst _ ih => rw [List.map_cons, List.map_cons, hName _ _ hFirst, ih]

private theorem names_of_sweep {α : Type} {select : ClassDef → Bool}
    {pass : ClassDef → Pass ClassDef α}
    (hName : ∀ c, Pass.Keeps ClassDef.name (pass c)) {answers : List α}
    (h : (sweep select pass).on g = (.ok answers, g')) : g'.names = g.names :=
  names_of_forall₂ (fun _ _ hSwept => hSwept.keeps hName) (sweep_eq_ok h)

private theorem names_addEach {field : ClassName → Field} {count : Nat}
    (h : (Slots.addEach field).on g = (.ok count, g')) : g'.names = g.names := by
  obtain ⟨_, _, hSweep, hReturn⟩ := Pass.on_bind_eq_ok.mp h
  cases hReturn
  exact names_of_sweep (fun _ => Pass.keeps_atomic fun _ _ hAdd => name_addField hAdd) hSweep

private theorem names_addStaticInitializers {count : Nat}
    (h : Manifest.addStaticInitializers.on g = (.ok count, g')) : g'.names = g.names := by
  obtain ⟨_, _, hSweep, hReturn⟩ := Pass.on_bind_eq_ok.mp h
  cases hReturn
  exact names_of_sweep (fun _ => Pass.keeps_atomic fun _ _ hAdd => name_addMethod hAdd) hSweep

/-- Where no two classes go by one name, none do once all slots are there. -/
theorem nodup_names_equip {created : List ClassName} (h : (equip s).on g = (.ok created, g'))
    (hNames : g.names.Nodup) : g'.names.Nodup := by
  obtain ⟨widened, completed, _, hWiden, hComplete, hSlots⟩ := equip_eq_ok h
  have hMarked : (s.manifest.mark widened).2.names = g.names :=
    names_of_forall₂ (fun _ _ hReadied => ClassDef.name_of_mold hReadied.mold)
      (readied_of_widen hWiden)
  rw [← hMarked] at hNames
  rw [names_addEach hSlots]
  cases hFull : s.isFull with
  | false =>
      obtain ⟨_, rfl⟩ := complete_of_light hFull hComplete
      exact hNames
  | true =>
      obtain ⟨built, initialized, _, _, hBuild, hInit, hHolders⟩ := complete_of_full hFull hComplete
      rw [names_addEach hHolders, names_addStaticInitializers hInit]
      exact nodup_names_build hBuild hNames

/-! ## The slots and the references to them -/

/-- What interception adds to the slots that a method names. -/
theorem Listed.exists_slotRefs {m m' : Method} {e : MethodReport} (h : Listed m m' e) :
    ∃ before after, m'.slotRefs = before ++ m.slotRefs ++ after ∧
      (e.instrumented = true → (Interceptor.slot m.owner, true) ∈ before ++ after) ∧
      ∀ p ∈ before ++ after,
        p = (Interceptor.slot m.owner, true) ∨ p = (Interceptor.clinitSlot, true) := by
  cases hIs : e.instrumented with
  | false =>
      refine ⟨[], [], ?_, fun hNot => ?_, fun p hp => ?_⟩
      · rw [Method.slotRefs, Method.slotRefs, (h.untouched hIs).1, List.append_nil]
        rfl
      · cases hNot
      · cases hp
  | true =>
      obtain ⟨hBody, slot, hIntercepted⟩ := h.instrumented.mp hIs
      obtain ⟨before, after, hRefs, hWhich⟩ := hIntercepted.exists_slotRefs hBody
      refine ⟨before, after, hRefs, fun _ => ?_, fun p hp => ?_⟩
      · rcases hWhich with hEq | hEq <;> simp [hEq]
      · rcases hWhich with hEq | hEq
        · rw [hEq, List.mem_singleton] at hp
          exact .inl hp
        · rw [hEq, List.mem_cons, List.mem_singleton] at hp
          exact hp.symm

/-- A class of the report before and after interception, and the program before the run.  Where
the program had room for the slots of the class they are there, and nowhere else; and so for the
slot of the class that the code for the interceptor names. -/
structure SlotsByRoom (g : ClassGraph) (isFull : Bool) (c c' : ClassDef) (r : ClassReport) :
    Prop where
  interceptor : c'.Declares (Interceptor.slot r.name) true ↔
    g.HasRoom (Interceptor.slot r.name) true
  holder : isFull = true → (c'.Declares (Interceptor.holderSlot r.name) false ↔
    g.HasRoom (Interceptor.holderSlot r.name) false)
  /-- Of each method in the report, what interception has put in front of the slots it named and
  behind them. -/
  references : List.Forall₂ (fun m e => ∃ m' ∈ c'.methods, Listed m m' e ∧
      ∃ before after, m'.slotRefs = before ++ m.slotRefs ++ after ∧
        (e.instrumented = true → (Interceptor.slot m.owner, true) ∈ before ++ after) ∧
        ∀ p ∈ before ++ after, p.1.owner = r.name →
          (c'.Declares p.1 p.2 ↔ g.HasRoom (Interceptor.slot r.name) true))
    (Numbering.ordered c) r.methods

/-- **A class of the report has its slots exactly if it had room for them.**  For any program in
which no two classes go by one name, and any settings with which a run succeeds: a class of the
report declares the slot that intercepted code names, and in full mode the slot for fields, unless
it declared another field of that name before; then it still declares that field, and the
references that interception adds to its methods do not go to it. -/
theorem run_declares_slots_iff {report : Report} (hNames : g.names.Nodup)
    (hRun : (run s).on g = (.ok report, g')) {r : ClassReport} (hr : r ∈ report.classes) :
    ∃ equipped c c', (equip s).on g = (.ok report.genesisClasses, equipped) ∧
      equipped.find? r.name = some c ∧ g'.find? r.name = some c' ∧
      SlotsByRoom g s.isFull c c' r := by
  obtain ⟨equipped, hEquip, hClasses⟩ := run_ok_iff.mp hRun
  have hApart := nodup_names_equip hEquip hNames
  obtain ⟨c', hc', c, hc, hReported⟩ :=
    exists_left_of_forall₂ (instrumentClasses_reported hClasses) hr
  obtain ⟨hc', hSelect'⟩ := List.mem_filter.mp hc'
  have hApart' : g'.names.Nodup := by
    rwa [names_of_forall₂ (fun _ _ hSwept => hSwept.keeps fun c =>
      keepsName_instrumentClass s (equipped.parent? c)) (instrumentClasses_answered hClasses).swept]
  have hSame : c'.name = c.name ∧ Slots.selects c' = Slots.selects c ∧
      c'.declared? = c.declared? := by
    rw [hReported.frame]
    exact ⟨rfl, rfl, rfl⟩
  obtain ⟨hName, hSelects, hDeclared⟩ := hSame
  have hFind : equipped.find? r.name = some c := by
    rw [hReported.name, hName]
    exact find?_of_mem hApart hc
  have hFind' : g'.find? r.name = some c' := by
    rw [hReported.name]
    exact find?_of_mem hApart' hc'
  obtain ⟨hStorage, hSlot, hHolder⟩ :=
    declared?_of_equip hEquip hFind (hSelects.symm.trans hSelect')
  rw [← hDeclared] at hSlot hHolder
  have hRoom : c'.Declares (Interceptor.slot r.name) true ↔
      g.HasRoom (Interceptor.slot r.name) true := declares_iff_hasRoom hSlot
  refine ⟨equipped, c, c', hEquip, hFind, hFind', hRoom,
    fun hFull => declares_iff_hasRoom (hHolder hFull), ?_⟩
  refine hReported.entries.imp fun m e hEntry => ?_
  obtain ⟨m', hm', hListed⟩ := hEntry
  obtain ⟨before, after, hRefs, hNamed, hWhich⟩ := hListed.exists_slotRefs
  refine ⟨m', hm', hListed, before, after, hRefs, hNamed, fun p hp hOwner => ?_⟩
  rcases hWhich p hp with rfl | rfl
  · have hSelf : m.owner = r.name := hOwner
    rw [hSelf]
    exact hRoom
  · exact absurd hOwner.symm hStorage

end

/-- Both slots of a genesis class are there, and the references to its slot go to it. -/
theorem run_declares_slots_iff_toolScreens :
    ∃ report g' r, (run { mode := .full, manifest := detailOnly }).on toolScreens =
        (.ok report, g') ∧
      toolScreens.names.Nodup ∧ r ∈ report.classes ∧ r.name = genesisName screenName ∧
      ∃ equipped c c', (equip { mode := .full, manifest := detailOnly }).on toolScreens =
          (.ok report.genesisClasses, equipped) ∧
        equipped.find? r.name = some c ∧ g'.find? r.name = some c' ∧
        SlotsByRoom toolScreens true c c' r ∧
        c'.Declares (Interceptor.slot r.name) true ∧
        c'.Declares (Interceptor.holderSlot r.name) false := by
  have hOk : ((run { mode := .full, manifest := detailOnly }).on toolScreens).1.isOk = true ∧
      ∀ report ∈ ((run { mode := .full, manifest := detailOnly }).on toolScreens).1.toOption,
        ∃ r ∈ report.classes, r.name = genesisName screenName := by
    unfold run instrumentClasses instrumentClass Numbering.assign
    rw [Numbering.ordered_eq]
    decide +kernel
  obtain ⟨report, hRun⟩ := Pass.exists_on_eq_ok hOk.1
  obtain ⟨r, hr, hName⟩ := hOk.2 report (by rw [hRun]; rfl)
  have hNames : toolScreens.names.Nodup := by decide +kernel
  have hNone : toolScreens.find? r.name = none := by
    rw [hName]
    decide +kernel
  have hRoom : ∀ ref isStatic, ref.owner = r.name → toolScreens.HasRoom ref isStatic := by
    intro ref isStatic hOwner c hFind
    rw [hOwner, hNone] at hFind
    cases hFind
  obtain ⟨equipped, c, c', hEquip, hFind, hFind', hSlots⟩ := run_declares_slots_iff hNames hRun hr
  exact ⟨report, _, r, hRun, hNames, hr, hName, equipped, c, c', hEquip, hFind, hFind', hSlots,
    hSlots.interceptor.mpr (hRoom _ _ rfl), (hSlots.holder rfl).mpr (hRoom _ _ rfl)⟩

/-- A class with a field of its own under the name of the slot. -/
def takenSlot : ClassGraph := ⟨[
  { name := .of "a/Main", kind := .program, access := { pub := true }
    fields := [{ owner := .of "a/Main", name := Interceptor.slotName, type := .base .int
                 access := { pub := true } }]
    methods := [{ owner := .of "a/Main", name := ⟨"m"⟩, signature := .void []
                  access := { pub := true }, body := some ⟨0, 1, [.returnVoid], 0⟩ }] }]⟩

/-- A class of the report whose slot is not there: its method names a static field for the
interceptor, and the only field of that name is an instance field of another type. -/
theorem run_reports_taken_slot :
    ∃ report g' r c', (run { mode := .light }).on takenSlot = (.ok report, g') ∧
      takenSlot.names.Nodup ∧ r ∈ report.classes ∧ g'.find? r.name = some c' ∧
      c'.declared? Interceptor.slotName = some (.base .int, false) ∧
      ¬ c'.Declares (Interceptor.slot r.name) true ∧
      ∃ m' ∈ c'.methods, m'.slotRefs = [(Interceptor.slot r.name, true)] := by
  have hOk : ((run { mode := .light }).on takenSlot).1.isOk = true ∧
      ∀ report ∈ ((run { mode := .light }).on takenSlot).1.toOption, ∃ r ∈ report.classes,
        ∃ c' ∈ ((run { mode := .light }).on takenSlot).2.find? r.name,
          c'.declared? Interceptor.slotName = some (.base .int, false) ∧
          ¬ c'.Declares (Interceptor.slot r.name) true ∧
          ∃ m' ∈ c'.methods, m'.slotRefs = [(Interceptor.slot r.name, true)] := by
    unfold run instrumentClasses instrumentClass Numbering.assign
    rw [Numbering.ordered_eq]
    decide +kernel
  obtain ⟨report, hRun⟩ := Pass.exists_on_eq_ok hOk.1
  obtain ⟨r, hr, c', hFind', hTaken⟩ := hOk.2 report (by rw [hRun]; rfl)
  exact ⟨report, _, r, c', hRun, by decide, hr, hFind', hTaken⟩

end Instrument

end HotPatch
