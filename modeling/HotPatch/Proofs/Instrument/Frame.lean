import HotPatch.Proofs.Genesis.BuddyChain
import HotPatch.Proofs.Instrument.OneClass
import HotPatch.Proofs.Instrument.Stages

/-!
# The frame of a run

What a run leaves alone, pass by pass.  Marks and wider access leave the code
of all methods alone, and so do slots and static initializers (`Tended`).  The
moves change the classes that calls name, in classes that move.  Only numbers
and interception are left, and what they replace is in the report.

So library classes stay what they are; in light mode a class gets a slot and
nothing else; and code that differs after a run was intercepted, or has moved
with its class (`run_frame`).
-/

namespace HotPatch

/-- Name, signature and code of a method. -/
def Method.code (m : Method) : MemberName × Signature × Option Body := (m.name, m.signature, m.body)

/-- What a class is beside its members, its access flags and its marks. -/
def ClassDef.mold (c : ClassDef) : ClassDef :=
  { c with
    access := {}, methods := [], fields := [], disabled := false, vendorPush := false
    marks := {}, closed := false }

theorem ClassDef.name_of_mold {c c' : ClassDef} (h : c'.mold = c.mold) : c'.name = c.name := by
  have hName : c'.mold.name = c.mold.name := congrArg ClassDef.name h
  exact hName

private theorem ClassDef.kind_of_mold {c c' : ClassDef} (h : c'.mold = c.mold) :
    c'.kind = c.kind := by
  have hKind : c'.mold.kind = c.mold.kind := congrArg ClassDef.kind h
  exact hKind

private theorem ClassDef.superclass_of_mold {c c' : ClassDef} (h : c'.mold = c.mold) :
    c'.superclass = c.superclass := by
  have hSuper : c'.mold.superclass = c.mold.superclass := congrArg ClassDef.superclass h
  exact hSuper

private theorem isLibrary_eq_not_isProgram (c : ClassDef) : c.isLibrary = !c.isProgram := by
  rw [ClassDef.isLibrary, ClassDef.isProgram]
  cases c.kind <;> rfl

/-! ## Before the insertion -/

/-- What marks and wider access leave of a class. -/
structure Readied (c c' : ClassDef) : Prop where
  mold : c'.mold = c.mold
  library : c.isLibrary = true → c'.unmarked = c.unmarked
  methods : c'.methods.map Method.code = c.methods.map Method.code
  fields : c'.fields.map Field.ref = c.fields.map Field.ref

namespace Readied

theorem refl (c : ClassDef) : Readied c c := ⟨rfl, fun _ => rfl, rfl, rfl⟩

theorem isLibrary {c c' : ClassDef} (h : Readied c c') : c'.isLibrary = c.isLibrary := by
  rw [ClassDef.isLibrary, ClassDef.isLibrary, ClassDef.kind_of_mold h.mold]

theorem trans {c c' c'' : ClassDef} (h : Readied c c') (h' : Readied c' c'') : Readied c c'' where
  mold := h'.mold.trans h.mold
  library := fun hLibrary =>
    (h'.library (h.isLibrary.trans hLibrary)).trans (h.library hLibrary)
  methods := h'.methods.trans h.methods
  fields := h'.fields.trans h.fields

/-- A change that only program classes see. -/
theorem of_isProgram {c c' : ClassDef} (hProgram : c.isProgram = true) (hMold : c'.mold = c.mold)
    (hMethods : c'.methods.map Method.code = c.methods.map Method.code)
    (hFields : c'.fields.map Field.ref = c.fields.map Field.ref) : Readied c c' where
  mold := hMold
  library := fun hLibrary => by
    rw [isLibrary_eq_not_isProgram, hProgram] at hLibrary
    cases hLibrary
  methods := hMethods
  fields := hFields

theorem markVendorPush (c : ClassDef) :
    Readied c (if Selection.isVendorPush c then { c with vendorPush := true } else c) := by
  split
  · next hVendor =>
      rw [Selection.isVendorPush, Bool.and_eq_true] at hVendor
      exact of_isProgram hVendor.1 rfl rfl rfl
  · exact refl c

theorem markClass (g : ClassGraph) (filter : Filter) (c : ClassDef) :
    Readied c (Selection.markClass g filter c) := by
  unfold Selection.markClass
  split
  · exact refl c
  · next hProgram =>
      rw [Bool.not_eq_true, Bool.not_eq_false'] at hProgram
      split
      · exact of_isProgram hProgram rfl rfl rfl
      · refine of_isProgram hProgram rfl ?_ rfl
        rw [List.map_map]
        refine List.map_congr_left fun m _ => ?_
        rw [Function.comp_apply]
        split <;> rfl

theorem widenClass {makePublic : Bool} {c c' : ClassDef} (hProgram : c.isProgram = true)
    (h : Widening.widenClass makePublic c = .ok c') : Readied c c' := by
  rcases Widening.widenClass_eq_ok h with ⟨_, rfl⟩ | ⟨_, _, rfl⟩
  · exact refl c'
  · refine of_isProgram hProgram rfl ?_ ?_
    · rw [List.map_map]
      refine List.map_congr_left fun m _ => ?_
      rw [Function.comp_apply, Widening.widenMethod]
      split <;> rfl
    · rw [List.map_map]
      rfl

end Readied

namespace Instrument

open ClassGraph

/-- A class with the marks that need no more than the settings. -/
def prepared (s : Settings) (g : ClassGraph) (c : ClassDef) : ClassDef :=
  let marked := if s.skipVendorPush then (Selection.markVendorPush g).2 else g
  Selection.markClass marked s.filter
    (if s.skipVendorPush ∧ Selection.isVendorPush c then { c with vendorPush := true } else c)

/-- Preparing a graph is preparing its classes. -/
theorem prepare_eq (s : Settings) (g : ClassGraph) :
    prepare s g = g.mapClasses (prepared s g) := by
  unfold prepare prepared
  cases s.skipVendorPush with
  | false =>
      simp only [Bool.false_eq_true, if_false, false_and]
      rfl
  | true =>
      simp only [if_true, true_and]
      rw [Selection.markDisabled, Selection.markVendorPush, mapClasses, mapClasses, mapClasses,
        List.map_map]
      rfl

theorem readied_prepared (s : Settings) (g : ClassGraph) (c : ClassDef) :
    Readied c (prepared s g c) := by
  unfold prepared
  cases s.skipVendorPush with
  | false =>
      simp only [Bool.false_eq_true, if_false, false_and]
      exact .markClass _ _ c
  | true =>
      simp only [if_true, true_and]
      exact (Readied.markVendorPush c).trans (.markClass _ _ _)

/-! ### Class by class -/

private theorem classes_mark (m : Manifest) (g : ClassGraph) :
    (m.mark g).2.classes.map ClassDef.unmarked = g.classes.map ClassDef.unmarked := by
  rw [Manifest.mark_eq_mapClasses, mapClasses, List.map_map]
  rfl

section

variable {s : Settings} {g g' widened : ClassGraph}

/-- The program as it comes to the insertion. -/
theorem readied_of_widen
    (hWiden : (Widening.widen s.makePublic).on (prepare s g) = (.ok (), widened)) :
    List.Forall₂ Readied g.classes (s.manifest.mark widened).2.classes := by
  have hPrepare : List.Forall₂ Readied g.classes (prepare s g).classes := by
    rw [prepare_eq, mapClasses, List.forall₂_map_right_iff, List.forall₂_same]
    exact fun c _ => readied_prepared s g c
  obtain ⟨_, _, hSweep, hReturn⟩ := Pass.on_bind_eq_ok.mp hWiden
  cases hReturn
  have hWidened := (sweep_eq_ok hSweep).imp fun c c' hSwept => by
    show Readied c c'
    unfold Swept at hSwept
    split at hSwept
    · next hSelect =>
        rw [Widening.selects, Bool.and_eq_true] at hSelect
        obtain ⟨_, hOn⟩ := hSwept
        exact .widenClass hSelect.1 (Pass.on_atomic_eq_ok.mp hOn)
    · rw [hSwept]
      exact .refl c
  have hMark := forall₂_of_map_eq (classes_mark s.manifest widened)
  refine (forall₂_trans (forall₂_trans hPrepare hWidened) hMark).imp ?_
  rintro c c' ⟨c₂, ⟨c₁, hFirst, hSecond⟩, hMarks⟩
  refine (hFirst.trans hSecond).trans ?_
  rw [ClassDef.eq_of_unmarked hMarks]
  exact ⟨rfl, fun _ => rfl, rfl, rfl⟩

end

end Instrument

/-! ## Around the moves -/

/-- What all passes leave of a class that neither move nor intercept. -/
structure Tended (c c' : ClassDef) : Prop where
  kind : c'.kind = c.kind
  superclass : c'.superclass = c.superclass
  library : c.isLibrary = true → ∃ subclasses marks, c' = { c with subclasses, marks }
  methods : ∃ more, c'.methods.map Method.code = c.methods.map Method.code ++ more

namespace Tended

theorem refl (c : ClassDef) : Tended c c :=
  ⟨rfl, rfl, fun _ => ⟨_, _, rfl⟩, [], (List.append_nil _).symm⟩

theorem trans {c c' c'' : ClassDef} (h : Tended c c') (h' : Tended c' c'') : Tended c c'' where
  kind := h'.kind.trans h.kind
  superclass := h'.superclass.trans h.superclass
  library := fun hLibrary => by
    obtain ⟨_, _, rfl⟩ := h.library hLibrary
    obtain ⟨subclasses, marks, rfl⟩ := h'.library hLibrary
    exact ⟨subclasses, marks, rfl⟩
  methods := by
    obtain ⟨more, hMore⟩ := h.methods
    obtain ⟨more', hMore'⟩ := h'.methods
    exact ⟨more ++ more', by rw [hMore', hMore, List.append_assoc]⟩

/-- A change that only program classes see. -/
theorem of_isProgram {c c' : ClassDef} (hProgram : c.isProgram = true) (hKind : c'.kind = c.kind)
    (hSuper : c'.superclass = c.superclass)
    (hMethods : ∃ more, c'.methods.map Method.code = c.methods.map Method.code ++ more) :
    Tended c c' where
  kind := hKind
  superclass := hSuper
  library := fun hLibrary => by
    rw [isLibrary_eq_not_isProgram, hProgram] at hLibrary
    cases hLibrary
  methods := hMethods

private theorem of_readied {c c' : ClassDef} (h : Readied c c') : Tended c c' where
  kind := ClassDef.kind_of_mold h.mold
  superclass := ClassDef.superclass_of_mold h.mold
  library := fun hLibrary => ⟨_, _, ClassDef.eq_of_unmarked (h.library hLibrary)⟩
  methods := ⟨[], by rw [h.methods, List.append_nil]⟩

private theorem of_sameRole {c c' : ClassDef} (h : Genesis.SameRole c c') : Tended c c' where
  kind := h.kind
  superclass := h.superclass
  library := fun hLibrary => by
    have hEq : c' = { c with
        methods := c'.methods, superclass := c'.superclass, subclasses := c'.subclasses
        marks := c'.marks } :=
      congrArg (fun d : ClassDef => { d with
        methods := c'.methods, superclass := c'.superclass, subclasses := c'.subclasses
        marks := c'.marks }) h.frame
    rw [h.methods (isOwn_of_isLibrary hLibrary), h.superclass] at hEq
    exact ⟨_, _, hEq⟩
  methods := by
    obtain ⟨more, hMore⟩ := h.grown
    have hCode : Method.code ∘ Method.withoutRole = Method.code := rfl
    have hMap := congrArg (List.map Method.code) hMore
    rw [List.map_append, List.map_map, List.map_map, hCode] at hMap
    exact ⟨_, hMap⟩

theorem addMethod {c c' : ClassDef} {m : Method} (hProgram : c.isProgram = true)
    (h : c.addMethod m = .ok c') : Tended c c' := by
  have hOutline := ClassGraph.outline_addMethod h
  have hKind : c'.outline.kind = c.outline.kind := congrArg ClassDef.kind hOutline
  have hSuper : c'.outline.superclass = c.outline.superclass :=
    congrArg ClassDef.superclass hOutline
  refine of_isProgram hProgram hKind hSuper ?_
  rw [ClassDef.methods_addMethod h, Method.addOnce]
  split
  · exact ⟨[], (List.append_nil _).symm⟩
  · exact ⟨_, List.map_append⟩

theorem addField {c c' : ClassDef} {f : Field} (hProgram : c.isProgram = true)
    (h : c.addField f = .ok c') : Tended c c' := by
  rcases addField_eq_ok h with rfl | ⟨_, _, rfl⟩
  · exact refl c'
  · exact of_isProgram hProgram rfl rfl ⟨[], (List.append_nil _).symm⟩

end Tended

/-- All classes are still there, where and with the code they were. -/
def Tends (g g' : ClassGraph) : Prop :=
  ∀ n c, g.find? n = some c → ∃ c', g'.find? n = some c' ∧ Tended c c'

namespace Tends

variable {g g' g'' : ClassGraph}

theorem refl (g : ClassGraph) : Tends g g := fun _ c hFind => ⟨c, hFind, .refl c⟩

theorem trans (h : Tends g g') (h' : Tends g' g'') : Tends g g'' := by
  intro n c hFind
  obtain ⟨c', hFind', hTended⟩ := h n c hFind
  obtain ⟨c'', hFind'', hTended'⟩ := h' n c' hFind'
  exact ⟨c'', hFind'', hTended.trans hTended'⟩

private theorem of_readied (h : List.Forall₂ Readied g.classes g'.classes) : Tends g g' := by
  intro n c hFind
  have hRel : Option.Rel Readied (g.find? n) (g'.find? n) :=
    find?_of_forall₂ (fun _ _ hReadied => ClassDef.name_of_mold hReadied.mold) h n
  rw [hFind] at hRel
  generalize g'.find? n = found at hRel
  cases hRel with
  | some hReadied => exact ⟨_, rfl, .of_readied hReadied⟩

/-- A sweep tends the graph if it tends each class. -/
theorem sweep {α : Type} {select : ClassDef → Bool} {pass : ClassDef → Pass ClassDef α}
    {answers : List α} (hName : ∀ c, Pass.Keeps ClassDef.name (pass c))
    (hTended : ∀ c a c', select c = true → (pass c).on c = (.ok a, c') → Tended c c')
    (h : (sweep select pass).on g = (.ok answers, g')) : Tends g g' := by
  intro n c hFind
  obtain ⟨c', hFind', hSwept⟩ := exists_swept hName h hFind
  refine ⟨c', hFind', ?_⟩
  unfold Swept at hSwept
  split at hSwept
  · next hSelect =>
      obtain ⟨a, hOn⟩ := hSwept
      exact hTended c a c' hSelect hOn
  · rw [hSwept]
    exact .refl c

/-- Adding static initializers tends the graph. -/
theorem addStaticInitializers {count : Nat}
    (h : Manifest.addStaticInitializers.on g = (.ok count, g')) : Tends g g' := by
  obtain ⟨_, _, hSweep, hReturn⟩ := Pass.on_bind_eq_ok.mp h
  cases hReturn
  refine sweep (fun _ => Pass.keeps_atomic fun _ _ hAdd => ClassGraph.name_addMethod hAdd)
    (fun c _ c' hSelect hOn => ?_) hSweep
  simp only [Manifest.lacksStaticInitializer, Bool.and_eq_true] at hSelect
  exact .addMethod hSelect.1.1.1 (Pass.on_atomic_eq_ok.mp hOn)

theorem addEach {field : ClassName → Field} {count : Nat}
    (h : (Slots.addEach field).on g = (.ok count, g')) : Tends g g' := by
  obtain ⟨_, _, hSweep, hReturn⟩ := Pass.on_bind_eq_ok.mp h
  cases hReturn
  refine sweep (fun _ => Pass.keeps_atomic fun _ _ hAdd => name_addField hAdd)
    (fun c _ c' hSelect hOn => ?_) hSweep
  rw [Slots.selects, Bool.and_eq_true] at hSelect
  exact .addField hSelect.1 (Pass.on_atomic_eq_ok.mp hOn)

end Tends

/-! ## The moves -/

/-- At every place of the first list, the second one has something related to what is there. -/
def Extends {α : Type} (rel : α → α → Prop) (l l' : List α) : Prop :=
  ∀ (k : Nat) (a : α), l[k]? = some a → ∃ b, l'[k]? = some b ∧ rel a b

namespace Extends

variable {α β : Type} {l l' l'' : List α}

theorem trans {rel rel' rel'' : α → α → Prop} (h : Extends rel l l') (h' : Extends rel' l' l'')
    (hTrans : ∀ a b c, rel a b → rel' b c → rel'' a c) : Extends rel'' l l'' := by
  intro k a ha
  obtain ⟨b, hb, hFirst⟩ := h k a ha
  obtain ⟨c, hc, hSecond⟩ := h' k b hb
  exact ⟨c, hc, hTrans a b c hFirst hSecond⟩

private theorem of_map_eq {view : α → β} {more : List β} (h : l'.map view = l.map view ++ more) :
    Extends (fun a b => view b = view a) l l' := by
  intro k a ha
  have hLt : k < (l.map view).length := by
    rw [List.length_map]
    exact (List.getElem?_eq_some_iff.mp ha).1
  have hk := congrArg (·[k]?) h
  simp only [List.getElem?_append_left hLt, List.getElem?_map, ha, Option.map_some] at hk
  exact Option.map_eq_some_iff.mp hk

theorem of_forall₂ {rel : α → α → Prop} (h : List.Forall₂ rel l l') : Extends rel l l' := by
  induction h with
  | nil =>
      intro k a ha
      cases ha
  | @cons a b _ _ hFirst _ ih =>
      intro k x hx
      cases k with
      | zero =>
          cases hx
          exact ⟨b, rfl, hFirst⟩
      | succ k => exact ih k x hx

end Extends

/-- A body without the classes of the methods it calls. -/
def Body.unowned (b : Body) : Body :=
  { b with instructions := b.instructions.map Instruction.unowned }

/-- Methods of one name and signature whose code differs in the classes of calls at most. -/
structure Method.Renamed (m m' : Method) : Prop where
  name : m'.name = m.name
  signature : m'.signature = m.signature
  body : m'.body.map Body.unowned = m.body.map Body.unowned

private theorem Method.Renamed.of_code {m m' : Method} (h : m'.code = m.code) : m.Renamed m' := by
  obtain ⟨hName, hRest⟩ := Prod.mk.inj h
  obtain ⟨hSignature, hBody⟩ := Prod.mk.inj hRest
  exact ⟨hName, hSignature, congrArg (Option.map Body.unowned) hBody⟩

theorem Method.Renamed.trans {m m' m'' : Method} (h : m.Renamed m') (h' : m'.Renamed m'') :
    m.Renamed m'' :=
  ⟨h'.name.trans h.name, h'.signature.trans h.signature, h'.body.trans h.body⟩

namespace Genesis

/-- But for the owners that it names, a body is the same after a move. -/
theorem MovedBody.unowned {old new : ClassName} {m : Method} {b b' : Body}
    (h : MovedBody old new m b b') : b'.unowned = b.unowned := by
  have hCode : b'.instructions.map Instruction.unowned =
      b.instructions.map Instruction.unowned := by
    refine List.ext_getElem? fun k => ?_
    rw [List.getElem?_map, List.getElem?_map]
    by_cases hUp : ∃ target, CallsUp m b.instructions k target ∧ target.owner = old
    · obtain ⟨target, hUp, hOld⟩ := hUp
      obtain ⟨kind, form, args, hAt⟩ := hUp.invoke
      rw [hAt, h.renamed hUp hOld hAt]
      rfl
    · rw [h.same fun target hUp' hOld => hUp ⟨target, hUp', hOld⟩]
  rw [Body.unowned, Body.unowned, h.sizes, hCode]

/-- A method of a class that moves is renamed at most. -/
theorem MovedMethod.renamed {old new : ClassName} {m m' : Method} (h : MovedMethod old new m m') :
    m.Renamed m' := by
  refine ⟨by rw [h.frame], by rw [h.frame], ?_⟩
  cases hBody : m.body with
  | none => rw [h.none hBody]
  | some b =>
      obtain ⟨b', hBody', hMoved⟩ := h.body hBody
      rw [hBody', Option.map_some, Option.map_some, hMoved.unowned]

/-- The class has moved from a library class to the genesis class that was made for it. -/
def MovedUnder (created : List ClassName) (c c' : ClassDef) : Prop :=
  ∃ bottom, c.superclass = some bottom ∧ c'.superclass = some (genesisName bottom) ∧
    genesisName bottom ∈ created

end Genesis

open ClassGraph Genesis

/-- What a run leaves of a class before it comes to numbers, given the genesis classes made. -/
structure Rebuilt (created : List ClassName) (c c' : ClassDef) : Prop where
  kind : c'.kind = c.kind
  library : c.isLibrary = true → ∃ subclasses marks, c' = { c with subclasses, marks }
  methods : Extends (fun m m' => m'.code = m.code) c.methods c'.methods ∨
    MovedUnder created c c' ∧ Extends Method.Renamed c.methods c'.methods

private theorem Tended.rebuilt {c c' : ClassDef} (h : Tended c c') (created : List ClassName) :
    Rebuilt created c c' := by
  obtain ⟨more, hMore⟩ := h.methods
  exact ⟨h.kind, h.library, .inl (.of_map_eq hMore)⟩

/-- A class that is tended before and after. -/
theorem Rebuilt.between {created : List ClassName} {c₀ c c' c₁ : ClassDef}
    (hBefore : Tended c₀ c) (h : Rebuilt created c c') (hAfter : Tended c' c₁) :
    Rebuilt created c₀ c₁ := by
  obtain ⟨more, hMore⟩ := hBefore.methods
  obtain ⟨more', hMore'⟩ := hAfter.methods
  refine ⟨hAfter.kind.trans (h.kind.trans hBefore.kind), fun hLibrary => ?_, ?_⟩
  · obtain ⟨_, _, rfl⟩ := hBefore.library hLibrary
    obtain ⟨_, _, rfl⟩ := h.library hLibrary
    obtain ⟨subclasses, marks, rfl⟩ := hAfter.library hLibrary
    exact ⟨subclasses, marks, rfl⟩
  · rcases h.methods with hSame | ⟨⟨bottom, hFrom, hTo, hMem⟩, hRenamed⟩
    · have hFront : Extends (fun m m' => m'.code = m.code) c₀.methods c'.methods :=
        (Extends.of_map_eq hMore).trans hSame fun _ _ _ hFirst hSecond => hSecond.trans hFirst
      exact .inl (hFront.trans (.of_map_eq hMore')
        fun _ _ _ hFirst hSecond => hSecond.trans hFirst)
    · have hFront : Extends Method.Renamed c₀.methods c'.methods :=
        (Extends.of_map_eq hMore).trans hRenamed
          fun _ _ _ hFirst hSecond => (Method.Renamed.of_code hFirst).trans hSecond
      refine .inr ⟨⟨bottom, hBefore.superclass ▸ hFrom, hAfter.superclass.trans hTo, hMem⟩, ?_⟩
      exact hFront.trans (.of_map_eq hMore')
        fun _ _ _ hFirst hSecond => hFirst.trans (.of_code hSecond)

/-- **The moves**, after visits of any graph. -/
theorem Genesis.Laid.rebuilt {site : Site} (hLaid : Laid site) {g' : ClassGraph}
    {created : List ClassName}
    (hFinish : (finish site.boundaries).on site.graph = (.ok created, g')) {n : ClassName}
    {c : ClassDef} (hFind : site.graph.find? n = some c) :
    ∃ c', g'.find? n = some c' ∧ Rebuilt created c c' := by
  obtain ⟨hCreated, _, _, hStem⟩ := finish_eq_ok hFinish hLaid.apart
  have hStemHere := hStem n
  rw [stem?, stem?, hFind, Option.map_some] at hStemHere
  obtain ⟨c', hFind', hEq⟩ := Option.map_eq_some_iff.mp hStemHere
  have hKind : c'.stem.kind = c.stem.kind := congrArg ClassDef.kind hEq
  refine ⟨c', hFind', ?_⟩
  rcases hLaid.shifted_or_kept hFinish n with ⟨b, hb, hn, hShifted⟩ | ⟨_, hSuper, hMethods⟩
  · have hStands := hLaid.stands b hb
    obtain ⟨d, hd, hOwn, hBottom⟩ := hStands.tops n hn
    obtain rfl := Option.some.inj (hFind.symm.trans hd)
    obtain ⟨methods, hHad, hMoved⟩ := hStands.forall₂ hShifted (methods?_of_find? hFind')
    rw [methods?_of_find? hFind, Option.some.injEq] at hHad
    subst hHad
    refine ⟨hKind, fun hLibrary => ?_, .inr ⟨⟨b.bottom, hBottom, ?_, ?_⟩, ?_⟩⟩
    · rw [isOwn_of_isLibrary hLibrary] at hOwn
      cases hOwn
    · rw [← superclassOf_of_find? hFind', hShifted.1, hStands.named]
    · rw [hCreated, ← hStands.named]
      exact List.mem_map_of_mem hb
    · exact .of_forall₂ (hMoved.imp fun _ _ hMethod => hMethod.renamed)
  · rw [superclassOf_of_find? hFind, superclassOf_of_find? hFind'] at hSuper
    rw [methods?_of_find? hFind, methods?_of_find? hFind', Option.some.injEq] at hMethods
    have hCode : c'.methods.map Method.code = c.methods.map Method.code ++ [] := by
      rw [hMethods, List.append_nil]
    have hSame : c' = { c with
        methods := c'.methods, superclass := c'.superclass, subclasses := c'.subclasses } :=
      congrArg (fun d : ClassDef => { d with
        methods := c'.methods, superclass := c'.superclass
        subclasses := c'.subclasses }) hEq
    rw [hMethods, hSuper] at hSame
    exact ⟨hKind, fun _ => ⟨_, _, hSame⟩, .inl (.of_map_eq hCode)⟩

/-! ## Numbers and interception -/

/-- The report has the method as instrumented. -/
def Report.Instruments (report : Report) (name : ClassName) (m : Method) : Prop :=
  ∃ c ∈ report.classes, c.name = name ∧
    ∃ e ∈ c.methods, e.name = m.name ∧ e.signature = m.signature ∧ e.instrumented = true

namespace Instrument

open HotPatch.Numbering

section

variable {s : Settings} {superclass : Option ClassDef} {c c' : ClassDef} {report : ClassReport}

/-- Interception changes the code of a method only if the report says so. -/
theorem Instrumented.extends (h : Instrumented s superclass c c' report) :
    Extends (fun m m' => m'.name = m.name ∧ m'.signature = m.signature ∧
      (m'.body = m.body ∨ ∃ e ∈ report.methods,
        e.name = m.name ∧ e.signature = m.signature ∧ e.instrumented = true))
      c.methods c'.methods := by
  intro k m hm
  refine ⟨replaced s superclass ((ordered c).map (numbered c)) (numbered c m), ?_, ?_⟩
  · rw [h.methods]
    simp only [List.getElem?_map, hm, Option.map_some]
  · obtain ⟨hName, hSignature⟩ := Instrumented.key_replaced s superclass
      ((ordered c).map (numbered c)) (numbered c m)
    refine ⟨hName, hSignature, ?_⟩
    rw [replaced]
    cases hFind : ((ordered c).map (numbered c)).find? (·.sameKey (numbered c m)) with
    | none => exact .inl rfl
    | some n =>
        rw [Option.bind_some]
        cases hRewrite : rewrite? s superclass n with
        | none => exact .inl rfl
        | some m' =>
            have hKey : n.sameKey (numbered c m) = true :=
              List.find?_some (p := fun n : Method => n.sameKey (numbered c m)) hFind
            obtain ⟨hNameN, hSignatureN⟩ := Method.sameKey_iff.mp hKey
            obtain ⟨id, hAt⟩ := List.getElem?_of_mem (List.mem_of_find?_eq_some hFind)
            refine .inr ⟨entry s superclass n id, ?_, hNameN, hSignatureN, ?_⟩
            · rw [h.report]
              refine List.mem_map.mpr ⟨(n, id), ?_, rfl⟩
              exact List.mk_mem_zipIdx_iff_getElem?.mpr hAt
            · rw [entry, methodReport, hRewrite]
              rfl

end

/-! ## The whole run -/

section

variable {s : Settings} {g g' : ClassGraph}

/-- What a run leaves of the class of a name before it comes to numbers. -/
theorem equip_rebuilt {created : List ClassName} (h : (equip s).on g = (.ok created, g'))
    {n : ClassName} {c : ClassDef} (hFind : g.find? n = some c) :
    ∃ c', g'.find? n = some c' ∧ Rebuilt created c c' := by
  obtain ⟨widened, completed, _, hWiden, hComplete, hSlots⟩ := equip_eq_ok h
  have hReady : Tends g (s.manifest.mark widened).2 := .of_readied (readied_of_widen hWiden)
  have hSlotted : Tends completed g' := .addEach hSlots
  cases hFull : s.isFull with
  | false =>
      obtain ⟨rfl, rfl⟩ := complete_of_light hFull hComplete
      obtain ⟨c', hFind', hTended⟩ := hReady.trans hSlotted n c hFind
      exact ⟨c', hFind', hTended.rebuilt []⟩
  | true =>
      obtain ⟨built, initialized, _, _, hBuild, hInit, hHolders⟩ := complete_of_full hFull hComplete
      obtain ⟨site, hVisit, hFinish⟩ := build_eq_ok hBuild
      have hBuilds := builds_siteAfter (s.manifest.mark widened).2 (rootVisits ComponentType.all)
      rw [← siteAfter_of_visitEach hVisit] at hBuilds
      obtain ⟨c₁, hFind₁, hBefore⟩ := hReady n c hFind
      obtain ⟨c₂, hFind₂, hSame⟩ := hBuilds.later n c₁ hFind₁
      obtain ⟨c₃, hFind₃, hRebuilt⟩ := (hBuilds.laid (.start _)).rebuilt hFinish hFind₂
      have hAfter : Tends built g' :=
        ((Tends.addStaticInitializers hInit).trans (.addEach hHolders)).trans hSlotted
      obtain ⟨c', hFind', hTended⟩ := hAfter n c₃ hFind₃
      exact ⟨c', hFind', .between (hBefore.trans (.of_sameRole hSame)) hRebuilt hTended⟩

/-- Library classes are what they were, but for marks and classes that have come below them. -/
def KeepsLibrary (g g' : ClassGraph) : Prop :=
  ∀ n c, g.find? n = some c → c.isLibrary = true →
    ∃ subclasses marks, g'.find? n = some { c with subclasses, marks }

/-- What light mode leaves of a class: it is where it was with the methods it had, and the slot
for an interceptor may be new if the class is not left alone. -/
structure Slotted (c c' : ClassDef) : Prop where
  mold : c'.mold = c.mold
  methods : c'.methods.map (fun m => (m.name, m.signature)) =
    c.methods.map fun m => (m.name, m.signature)
  fields : c'.fields.map Field.ref = c.fields.map Field.ref ∨
    c'.isProgram = true ∧ c'.disabled = false ∧
      c'.fields.map Field.ref = c.fields.map Field.ref ++ [Interceptor.slot c.name]

/-- The code of a method after a run is what it was, unless the method was instrumented, or full
mode has moved its class; then only the classes that calls name are different. -/
structure Recoded (s : Settings) (report : Report) (c c' : ClassDef) (m m' : Method) : Prop where
  name : m'.name = m.name
  signature : m'.signature = m.signature
  body : m'.body = m.body ∨ report.Instruments c.name m ∨
    s.isFull = true ∧ MovedUnder report.genesisClasses c c' ∧
      m'.body.map Body.unowned = m.body.map Body.unowned

/-- All methods are still there, with code that is explained. -/
def KeepsCode (s : Settings) (report : Report) (g g' : ClassGraph) : Prop :=
  ∀ n c, g.find? n = some c →
    ∃ c', g'.find? n = some c' ∧ Extends (Recoded s report c c') c.methods c'.methods

/-- Slots and interception, class by class, in light mode. -/
theorem slotted_of_light {c c₁ c₂ c' : ClassDef} {superclass : ClassDef → Option ClassDef}
    (hReadied : Readied c c₁)
    (hSlot : Swept Slots.selects (fun c =>
      Pass.atomic Fault.graph (·.addField (Slots.interceptorField c.name))) c₁ c₂)
    (hClass : Swept Slots.selects (fun c => instrumentClass s (superclass c)) c₂ c') :
    Slotted c c' := by
  have hLast : c'.mold = c₂.mold ∧ c'.fields = c₂.fields ∧ c'.disabled = c₂.disabled ∧
      c'.methods.map (fun m => (m.name, m.signature)) =
        c₂.methods.map fun m => (m.name, m.signature) := by
    unfold Swept at hClass
    split at hClass
    · obtain ⟨report, hOn⟩ := hClass
      have hDone := instrumentClass_eq_ok hOn
      rw [hDone.methods]
      refine ⟨rfl, rfl, rfl, ?_⟩
      rw [List.map_map]
      refine List.map_congr_left fun m _ => ?_
      obtain ⟨hName, hSignature⟩ := Instrumented.key_replaced s (superclass c₂)
        ((ordered c₂).map (numbered c₂)) (numbered c₂ m)
      rw [Function.comp_apply, hName, hSignature]
      rfl
    · rw [hClass]
      exact ⟨rfl, rfl, rfl, rfl⟩
  obtain ⟨hMold, hFields, hDisabled, hMethods⟩ := hLast
  have hKeys : c₁.methods.map (fun m => (m.name, m.signature)) =
      c.methods.map fun m => (m.name, m.signature) := by
    have hMap := congrArg (List.map fun code => (code.1, code.2.1)) hReadied.methods
    rw [List.map_map, List.map_map] at hMap
    exact hMap
  unfold Swept at hSlot
  split at hSlot
  · next hSelect =>
      rw [Slots.selects, Bool.and_eq_true, Bool.not_eq_true'] at hSelect
      obtain ⟨_, hOn⟩ := hSlot
      rcases addField_eq_ok (Pass.on_atomic_eq_ok.mp hOn) with rfl | ⟨_, _, rfl⟩
      · exact ⟨hMold.trans hReadied.mold, hMethods.trans hKeys,
          .inl (by rw [hFields, hReadied.fields])⟩
      · have hProgram : c'.mold.isProgram = c₁.mold.isProgram := congrArg ClassDef.isProgram hMold
        refine ⟨hMold.trans hReadied.mold, hMethods.trans hKeys,
          .inr ⟨hProgram.trans hSelect.1, hDisabled.trans hSelect.2, ?_⟩⟩
        rw [hFields, List.map_append, hReadied.fields, ← ClassDef.name_of_mold hReadied.mold]
        rfl
  · rw [hSlot] at hMold hFields hMethods
    exact ⟨hMold.trans hReadied.mold, hMethods.trans hKeys,
      .inl (by rw [hFields, hReadied.fields])⟩

private theorem run_keepsLibrary {report : Report} (hRun : (run s).on g = (.ok report, g')) :
    KeepsLibrary g g' := by
  intro n c hFind hLibrary
  obtain ⟨equipped, hEquip, hClasses⟩ := run_ok_iff.mp hRun
  obtain ⟨c₁, hFind₁, hRebuilt⟩ := equip_rebuilt hEquip hFind
  obtain ⟨subclasses, marks, rfl⟩ := hRebuilt.library hLibrary
  obtain ⟨c', hFind', ⟨_, rfl⟩ | ⟨hSelect, _⟩⟩ := exists_instrumented hClasses hFind₁
  · exact ⟨subclasses, marks, hFind'⟩
  · rw [Slots.selects, Bool.and_eq_true] at hSelect
    rw [isLibrary_eq_not_isProgram, Bool.not_eq_true'] at hLibrary
    exact absurd (hLibrary.symm.trans hSelect.1) Bool.false_ne_true

private theorem run_slotted {report : Report} (hLight : s.isFull = false)
    (hRun : (run s).on g = (.ok report, g')) :
    report.genesisClasses = [] ∧ List.Forall₂ Slotted g.classes g'.classes := by
  obtain ⟨equipped, hEquip, hClasses⟩ := run_ok_iff.mp hRun
  obtain ⟨widened, completed, _, hWiden, hComplete, hSlots⟩ := equip_eq_ok hEquip
  obtain ⟨hNone, rfl⟩ := complete_of_light hLight hComplete
  obtain ⟨_, _, hSweep, hReturn⟩ := Pass.on_bind_eq_ok.mp hSlots
  cases hReturn
  refine ⟨hNone, (forall₂_trans (forall₂_trans (readied_of_widen hWiden) (sweep_eq_ok hSweep))
    (instrumentClasses_answered hClasses).swept).imp ?_⟩
  rintro c c' ⟨c₂, ⟨c₁, hReadied, hSlot⟩, hClass⟩
  exact slotted_of_light hReadied hSlot hClass

/-- Before interception, a method is what it was or has moved with its class. -/
theorem equip_recoded {report : Report} {c c₁ c' : ClassDef}
    (hEquip : (equip s).on g = (.ok report.genesisClasses, g'))
    (hRebuilt : Rebuilt report.genesisClasses c c₁) (hSuper : c'.superclass = c₁.superclass) :
    Extends (Recoded s report c c') c.methods c₁.methods := by
  intro k m hm
  rcases hRebuilt.methods with hSame | ⟨⟨bottom, hFrom, hTo, hMem⟩, hRenamed⟩
  · obtain ⟨m₁, hm₁, hCode⟩ := hSame k m hm
    obtain ⟨hName, hRest⟩ := Prod.mk.inj hCode
    obtain ⟨hSignature, hBody⟩ := Prod.mk.inj hRest
    exact ⟨m₁, hm₁, hName, hSignature, .inl hBody⟩
  · obtain ⟨m₁, hm₁, hCalls⟩ := hRenamed k m hm
    have hFull : s.isFull = true := by
      cases hFull : s.isFull with
      | true => rfl
      | false =>
          obtain ⟨_, _, _, _, hComplete, _⟩ := equip_eq_ok hEquip
          rw [(complete_of_light hFull hComplete).1] at hMem
          cases hMem
    exact ⟨m₁, hm₁, hCalls.name, hCalls.signature,
      .inr (.inr ⟨hFull, ⟨bottom, hFrom, hSuper.trans hTo, hMem⟩, hCalls.body⟩)⟩

private theorem run_keepsCode {report : Report} (hRun : (run s).on g = (.ok report, g')) :
    KeepsCode s report g g' := by
  intro n c hFind
  obtain ⟨equipped, hEquip, hClasses⟩ := run_ok_iff.mp hRun
  obtain ⟨c₁, hFind₁, hRebuilt⟩ := equip_rebuilt hEquip hFind
  obtain ⟨c', hFind', ⟨_, rfl⟩ | ⟨_, r, hr, hDone⟩⟩ := exists_instrumented hClasses hFind₁
  · exact ⟨c', hFind', equip_recoded hEquip hRebuilt rfl⟩
  · have hBefore : Extends (Recoded s report c c') c.methods c₁.methods :=
      equip_recoded hEquip hRebuilt (by rw [hDone.methods])
    refine ⟨c', hFind', hBefore.trans hDone.extends fun m m₁ m' hFirst hSecond => ?_⟩
    obtain ⟨hName, hSignature, hBody⟩ := hSecond
    refine ⟨hName.trans hFirst.name, hSignature.trans hFirst.signature, ?_⟩
    rcases hBody with hBody | ⟨e, he, hNameE, hSignatureE, hIs⟩
    · rw [hBody]
      exact hFirst.body
    · have hNameR : r.name = c.name := by
        rw [hDone.report, name_of_find? hFind, name_of_find? hFind₁]
      exact .inr (.inl ⟨r, hr, hNameR, e, he, hNameE.trans hFirst.name,
        hSignatureE.trans hFirst.signature, hIs⟩)

/-- **The frame of a run.**  For any program and any settings with which a run succeeds: library
classes stay as they are, light mode gives slots and nothing else, and in either mode code that is
different afterwards was instrumented or has moved with its class. -/
theorem run_frame {report : Report} (hRun : (run s).on g = (.ok report, g')) :
    KeepsLibrary g g' ∧
      (s.isFull = false →
        report.genesisClasses = [] ∧ List.Forall₂ Slotted g.classes g'.classes) ∧
      KeepsCode s report g g' :=
  ⟨run_keepsLibrary hRun, fun hLight => run_slotted hLight hRun, run_keepsCode hRun⟩

end

/-- Full mode that leaves ordinary constructors alone. -/
def componentsOnly : Settings := { mode := .full, constructors := false, manifest := detailOnly }

/-- The class above the component moves, and its constructor is not instrumented. -/
theorem run_frame_componentsOnly :
    ∃ report g' c c', (run componentsOnly).on bareScreens = (.ok report, g') ∧
      bareScreens.find? mainName = some c ∧ g'.find? mainName = some c' ∧
      MovedUnder report.genesisClasses c c' ∧
      ¬ report.Instruments mainName (plainConstructor mainName screenName) ∧
      KeepsLibrary bareScreens g' ∧ KeepsCode componentsOnly report bareScreens g' := by
  have hOk : ((run componentsOnly).on bareScreens).1.isOk = true ∧
      ((run componentsOnly).on bareScreens).2.superclassOf mainName =
        some (genesisName screenName) ∧
      ∀ report ∈ ((run componentsOnly).on bareScreens).1.toOption,
        genesisName screenName ∈ report.genesisClasses ∧
        ∀ r ∈ report.classes, ∀ e ∈ r.methods, r.name = mainName → e.name = .init →
          e.instrumented = false := by
    unfold run instrumentClasses instrumentClass assign
    rw [ordered_eq]
    decide +kernel
  obtain ⟨hOk, hTo, hReport⟩ := hOk
  obtain ⟨report, hRun⟩ := Pass.exists_on_eq_ok hOk
  obtain ⟨hMem, hNot⟩ := hReport report (by rw [hRun]; rfl)
  have hFrom : bareScreens.superclassOf mainName = some screenName := by decide +kernel
  obtain ⟨c, hFind, hFrom⟩ := find?_of_superclassOf hFrom
  obtain ⟨c', hFind', hTo⟩ := find?_of_superclassOf hTo
  obtain ⟨hLibrary, _, hCode⟩ := run_frame hRun
  refine ⟨report, _, c, c', hRun, hFind, hFind', ⟨screenName, hFrom, hTo, hMem⟩, ?_, hLibrary,
    hCode⟩
  rintro ⟨r, hr, hName, e, he, hNameE, _, hIs⟩
  rw [hNot r hr e he hName hNameE] at hIs
  cases hIs

end Instrument

end HotPatch
