import HotPatch.Proofs.Program.Sweeps

/-!
# Wider access

Widening ends in a program all of whose own classes can be seen from a patch,
down to their members, and where nothing but visibility bits has changed
(`widen_opens`).  The one thing that stops it in a program with open classes is
a private class.  A class that was widened is as wide as it gets, so a second
pass finds nothing to change and does not mind that the class was closed.
-/

namespace HotPatch

/-! ## Sweeps that stop -/

section

variable {α : Type} {select : ClassDef → Bool} {pass : ClassDef → Pass ClassDef α}

/-- A sweep ends in the fault of the first class among the selected whose pass does not succeed. -/
theorem sweepClasses_eq_error_iff {e : Fault} (classes : List ClassDef) :
    (sweepClasses select pass classes).1 = .error e ↔
      ∃ c ∈ classes.find? fun c => select c && !((pass c).on c).1.isOk,
        ((pass c).on c).1 = .error e := by
  induction classes with
  | nil => simp [sweepClasses]
  | cons c rest ih =>
      rw [sweepClasses, List.find?_cons]
      cases select c with
      | false => exact ih
      | true =>
          cases hOn : (pass c).on c with
          | mk answer c' =>
              cases answer with
              | error e' => simp [hOn, Except.isOk, Except.toBool]
              | ok a =>
                  have hRest : ((sweepClasses select pass rest).1.map (a :: ·)) = .error e ↔
                      (sweepClasses select pass rest).1 = .error e := by
                    cases (sweepClasses select pass rest).1 <;> simp [Except.map]
                  exact hRest.trans ih

/-- A sweep that has nothing to change in the classes it selects. -/
theorem sweepClasses_of_still {classes : List ClassDef}
    (h : ∀ c ∈ classes, select c = true → ∃ a, (pass c).on c = (.ok a, c)) :
    ∃ answers, sweepClasses select pass classes = (.ok answers, classes) := by
  induction classes with
  | nil => exact ⟨[], rfl⟩
  | cons c rest ih =>
      obtain ⟨hFirst, hRest⟩ := List.forall_mem_cons.mp h
      obtain ⟨answers, hAnswers⟩ := ih hRest
      rw [sweepClasses, hAnswers]
      cases hSelect : select c with
      | false => exact ⟨answers, rfl⟩
      | true =>
          obtain ⟨a, ha⟩ := hFirst hSelect
          rw [ha]
          exact ⟨a :: answers, rfl⟩

end

/-! ## What is public -/

namespace VisibilityBits

/-- Public, and no bit for less is set. -/
structure Wide (bits : VisibilityBits) : Prop where
  visibility : bits.visibility = .pub
  priv : bits.priv = false
  prot : bits.prot = false

private theorem wide_widened (bits : VisibilityBits) : bits.widened.Wide := ⟨rfl, rfl, rfl⟩

/-- What counts as public has no bit for less: such a bit would win. -/
theorem wide_of_visibility {bits : VisibilityBits} (h : bits.visibility = .pub) : bits.Wide := by
  unfold visibility at h
  refine ⟨h, Bool.eq_false_iff.mpr fun hPriv => ?_, Bool.eq_false_iff.mpr fun hProt => ?_⟩
  · rw [if_pos hPriv] at h
    cases h
  · rw [hProt] at h
    split at h <;> cases h

end VisibilityBits

namespace Widening

/-- What widening makes of a method. -/
structure Opened (makePublic : Bool) (m m' : Method) : Prop where
  /-- Nothing but visibility bits has changed. -/
  frame : m' =
    { m with access := { m.access with toVisibilityBits := m'.access.toVisibilityBits } }
  wide : m.isStaticInitializer = false →
    m.isStatic = true ∨ makePublic = true ∧ m.access.visibility ≠ .priv →
      m'.access.toVisibilityBits.Wide
  /-- Static initializers stay, and so do instance methods that are private or not asked for. -/
  same : m.isStaticInitializer = true ∨
    m.isStatic = false ∧ (m.access.visibility = .priv ∨ makePublic = false) → m' = m

/-- What widening makes of a field. -/
structure OpenedField (f f' : Field) : Prop where
  frame : f' =
    { f with access := { f.access with toVisibilityBits := f'.access.toVisibilityBits } }
  wide : f'.access.toVisibilityBits.Wide

/-- What widening makes of a class that it is about, with all its members. -/
structure OpenedClass (makePublic : Bool) (c c' : ClassDef) : Prop where
  frame : c' = { c with
    access := { c.access with toVisibilityBits := c'.access.toVisibilityBits }
    methods := c'.methods
    fields := c'.fields }
  wide : c'.access.toVisibilityBits.Wide
  methods : List.Forall₂ (Opened makePublic) c.methods c'.methods
  fields : List.Forall₂ OpenedField c.fields c'.fields

section

variable {makePublic : Bool}

private theorem opened_widenMethod (m : Method) : Opened makePublic m
    (widenMethod makePublic m) := by
  unfold widenMethod
  cases hApplies : applies makePublic m with
  | true =>
      refine ⟨rfl, fun _ _ => m.access.wide_widened, fun hSame => ?_⟩
      unfold applies at hApplies
      rcases hSame with hClinit | ⟨hStatic, hPriv | hNot⟩
      · simp [hClinit] at hApplies
      · simp [hStatic, hPriv] at hApplies
      · simp [hStatic, hNot] at hApplies
  | false =>
      refine ⟨rfl, fun hClinit hWanted => VisibilityBits.wide_of_visibility ?_, fun _ => rfl⟩
      unfold applies at hApplies
      rcases hWanted with hStatic | ⟨hPublic, hVisible⟩
      · simpa [hClinit, hStatic] using hApplies
      · cases hStatic : m.isStatic with
        | true => simpa [hClinit, hStatic] using hApplies
        | false => simpa [hClinit, hStatic, hPublic, hVisible] using hApplies

private theorem openedField_widenField (f : Field) : OpenedField f (widenField f) :=
  ⟨rfl, f.access.wide_widened⟩

private theorem wide_widenAccess {a : ClassAccess} (h : a.visibility ≠ .priv) :
    (widenAccess a).toVisibilityBits.Wide := by
  unfold widenAccess
  split
  · exact a.wide_widened
  · exact a.wide_widened
  · next hPkg hProt =>
      refine VisibilityBits.wide_of_visibility ?_
      cases hVisibility : a.visibility with
      | priv => exact absurd hVisibility h
      | pkg => exact absurd hVisibility hPkg
      | prot => exact absurd hVisibility hProt
      | pub => rfl

private theorem frame_widenAccess (a : ClassAccess) :
    widenAccess a = { a with toVisibilityBits := (widenAccess a).toVisibilityBits } := by
  unfold widenAccess
  split <;> rfl

/-- What widening makes of a class, whether or not there is anything to change. -/
theorem eq_of_widenClass {c c' : ClassDef} (h : widenClass makePublic c = .ok c') :
    c' = { c with
      access := widenAccess c.access
      methods := c.methods.map (widenMethod makePublic)
      fields := c.fields.map widenField } := by
  rcases widenClass_eq_ok h with ⟨hNone, rfl⟩ | ⟨_, _, hNew⟩
  · obtain ⟨hAccess, _, hFields⟩ := firstEdit?_eq_none.mp hNone
    have hSame : c'.fields.map widenField = c'.fields := by
      refine (List.map_congr_left fun f hf => ?_).trans (List.map_id' _)
      rw [widenField, hFields f hf]
    rw [← methods_widenClass h, hAccess, hSame]
  · exact hNew

private theorem visibility_of_widenClass {c c' : ClassDef} (h : widenClass makePublic c = .ok c') :
    c.access.visibility ≠ .priv := by
  intro hPriv
  rw [widenClass, if_pos hPriv] at h
  cases h

private theorem opened_of_widenClass {c c' : ClassDef} (h : widenClass makePublic c = .ok c') :
    OpenedClass makePublic c c' := by
  obtain rfl := eq_of_widenClass h
  refine ⟨?_, wide_widenAccess (visibility_of_widenClass h), ?_, ?_⟩
  · rw [← frame_widenAccess]
  · exact List.forall₂_map_right_iff.mpr (List.forall₂_same.mpr fun m _ => opened_widenMethod m)
  · exact List.forall₂_map_right_iff.mpr (List.forall₂_same.mpr fun f _ => openedField_widenField f)

/-- An open class is refused for being private, and for nothing else. -/
theorem isOk_widenClass {c : ClassDef} (hOpen : c.closed = false) :
    (widenClass makePublic c).isOk = !(c.access.visibility == .priv) := by
  unfold widenClass
  split
  · next hPriv =>
      rw [hPriv]
      rfl
  · next hVisible =>
      rw [beq_eq_false_iff_ne.mpr hVisible]
      split
      · rfl
      · rw [hOpen, if_neg Bool.false_ne_true]
        rfl

private theorem fst_atomic_widenClass {c : ClassDef} :
    ((Pass.atomic id (widenClass makePublic)).on c).1 =
      (widenClass makePublic c).map fun _ => () := by
  rw [Pass.on_atomic]
  cases widenClass makePublic c <;> rfl

/-- The first private class stops widening, where nothing is closed, and nothing else does. -/
theorem widen_eq_error_iff {g : ClassGraph} (hOpen : ∀ c ∈ g.classes, c.closed = false)
    {e : Fault} :
    ((widen makePublic).on g).1 = .error e ↔
      ∃ c ∈ g.programClasses.find? fun c => !c.vendorPush && c.access.visibility == .priv,
        e = .privateClass c.name := by
  have hSweep : ((widen makePublic).on g).1 = .error e ↔
      (sweepClasses selects (fun _ => Pass.atomic id (widenClass makePublic)) g.classes).1 =
        .error e := by
    unfold widen
    rw [Pass.on_bind, on_sweep]
    cases (sweepClasses selects (fun _ => Pass.atomic id (widenClass makePublic)) g.classes).1 <;>
      simp
  have hRefused : ∀ c ∈ g.classes,
      (selects c && !((Pass.atomic id (widenClass makePublic)).on c).1.isOk) =
        decide (c.isProgram = true ∧ (!c.vendorPush && c.access.visibility == .priv) = true) := by
    intro c hc
    have hSame : ((widenClass makePublic c).map fun _ => ()).isOk =
        (widenClass makePublic c).isOk := by
      cases widenClass makePublic c <;> rfl
    rw [fst_atomic_widenClass, hSame, isOk_widenClass (hOpen c hc), selects]
    generalize (c.access.visibility == .priv) = refused
    cases c.isProgram <;> cases c.vendorPush <;> cases refused <;> rfl
  have hFirst : g.classes.find? (fun c =>
      selects c && !((Pass.atomic id (widenClass makePublic)).on c).1.isOk) =
        g.programClasses.find? fun c => !c.vendorPush && c.access.visibility == .priv := by
    rw [ClassGraph.programClasses, List.find?_filter, ← List.head?_filter, ← List.head?_filter,
      List.filter_congr hRefused]
  rw [hSweep, sweepClasses_eq_error_iff, hFirst]
  refine exists_congr fun c => and_congr_right fun hc => ?_
  have hPriv := List.find?_some hc
  rw [Bool.and_eq_true, beq_iff_eq] at hPriv
  rw [fst_atomic_widenClass, widenClass, if_pos hPriv.2]
  exact ⟨fun h => (Except.error.inj h).symm, fun h => congrArg Except.error h.symm⟩

/-! ## As wide as it gets -/

private theorem widenAccess_widenAccess (a : ClassAccess) :
    widenAccess (widenAccess a) = widenAccess a := by
  have hWhich : widenAccess a = a.widened ∨ widenAccess a = a := by
    unfold widenAccess
    split
    · exact .inl rfl
    · exact .inl rfl
    · exact .inr rfl
  rcases hWhich with hWide | hSame
  · rw [hWide]
    rfl
  · rw [hSame, hSame]

private theorem applies_widenMethod (makePublic : Bool) (m : Method) :
    applies makePublic (widenMethod makePublic m) = false := by
  unfold widenMethod
  split
  · have hPublic : m.access.widened.visibility = .pub := rfl
    simp [applies, hPublic]
  · next hNot => exact Bool.not_eq_true _ ▸ hNot

/-- A class that was widened is as wide as it gets. -/
theorem firstEdit?_widenClass {c c' : ClassDef} (h : widenClass makePublic c = .ok c') :
    firstEdit? makePublic c' = none := by
  obtain rfl := eq_of_widenClass h
  refine firstEdit?_eq_none.mpr ⟨widenAccess_widenAccess _, fun m' hm' => ?_, fun f' hf' => ?_⟩
  · obtain ⟨m, _, rfl⟩ := List.mem_map.mp hm'
    exact applies_widenMethod makePublic m
  · obtain ⟨f, _, rfl⟩ := List.mem_map.mp hf'
    rfl

variable {g g' : ClassGraph}

/-- What becomes of the classes, one by one. -/
theorem forall₂_widen (h : (widen makePublic).on g = (.ok (), g')) :
    List.Forall₂ (fun c c' => selects c = true ∧ widenClass makePublic c = .ok c' ∨
      selects c = false ∧ c' = c) g.classes g'.classes := by
  obtain ⟨_, _, hSweep, hReturn⟩ := Pass.on_bind_eq_ok.mp h
  cases hReturn
  refine (sweep_eq_ok hSweep).imp fun c c' hSwept => ?_
  unfold Swept at hSwept
  split at hSwept
  · next hSelect =>
      obtain ⟨_, hOn⟩ := hSwept
      exact .inl ⟨hSelect, Pass.on_atomic_eq_ok.mp hOn⟩
  · next hSelect => exact .inr ⟨Bool.not_eq_true _ ▸ hSelect, hSwept⟩

/-- After widening there is nothing left to widen. -/
theorem still_of_widen (h : (widen makePublic).on g = (.ok (), g')) :
    ∀ c' ∈ g'.classes, selects c' = true →
      c'.access.visibility ≠ .priv ∧ firstEdit? makePublic c' = none := by
  have hEach := forall₂_widen h
  generalize g.classes = classes, g'.classes = classes' at hEach ⊢
  induction hEach with
  | nil => exact fun _ hc' => absurd hc' List.not_mem_nil
  | cons hWhich _ ih =>
      refine List.forall_mem_cons.mpr ⟨fun hSelect => ?_, ih⟩
      rcases hWhich with ⟨_, hWiden⟩ | ⟨hNot, rfl⟩
      · have hPublic := (opened_of_widenClass hWiden).wide.visibility
        refine ⟨fun hPriv => ?_, firstEdit?_widenClass hWiden⟩
        cases hPublic.symm.trans hPriv
      · rw [hNot] at hSelect
        cases hSelect

/-- Where there is nothing to widen, widening succeeds and changes nothing, whatever is closed. -/
theorem widen_of_still (h : ∀ c ∈ g.classes, selects c = true →
    c.access.visibility ≠ .priv ∧ firstEdit? makePublic c = none) :
    (widen makePublic).on g = (.ok (), g) := by
  have hPass : ∀ c ∈ g.classes, selects c = true →
      ∃ a, (Pass.atomic id (widenClass makePublic)).on c = (.ok a, c) := by
    intro c hc hSelect
    obtain ⟨hVisible, hNone⟩ := h c hc hSelect
    refine ⟨(), Pass.on_atomic_eq_ok.mpr ?_⟩
    rw [widenClass, if_neg hVisible, hNone]
  obtain ⟨answers, hAnswers⟩ := sweepClasses_of_still hPass
  refine Pass.on_bind_eq_ok.mpr ⟨answers, g, ?_, rfl⟩
  rw [on_sweep, hAnswers]

/-- The program with some of its classes closed. -/
def closing (which : ClassDef → Bool) (g : ClassGraph) : ClassGraph :=
  g.mapClasses fun c => if which c then c.close else c

/-- **Widening shows a patch all that it may see, and changes nothing else.**  In a program without
closed classes it fails exactly if a program class is private that is not of the vendor's push
library, and names the first of these.  When it succeeds, the classes it is about are public with
their members, as far as these are to become so, with no bit for less; only visibility bits change,
and in the other classes nothing at all.  Once more with the same argument, it succeeds and changes
nothing, whichever classes were closed since. -/
theorem widen_opens (hOpen : ∀ c ∈ g.classes, c.closed = false) :
    (∀ e, ((widen makePublic).on g).1 = .error e ↔
      ∃ c ∈ g.programClasses.find? fun c => !c.vendorPush && c.access.visibility == .priv,
        e = .privateClass c.name) ∧
      ∀ g', (widen makePublic).on g = (.ok (), g') →
        List.Forall₂ (fun c c' =>
          if c.isProgram && !c.vendorPush then OpenedClass makePublic c c' else c' = c)
            g.classes g'.classes ∧
          ∀ which, (widen makePublic).on (closing which g') = (.ok (), closing which g') := by
  refine ⟨fun e => widen_eq_error_iff hOpen, fun g' h => ⟨?_, fun which => ?_⟩⟩
  · refine (forall₂_widen h).imp fun c c' hWhich => ?_
    show if selects c then OpenedClass makePublic c c' else c' = c
    rcases hWhich with ⟨hSelect, hWiden⟩ | ⟨hSelect, hSame⟩
    · rw [if_pos hSelect]
      exact opened_of_widenClass hWiden
    · rw [hSelect, if_neg Bool.false_ne_true]
      exact hSame
  · refine widen_of_still fun d hd hSelect => ?_
    obtain ⟨c', hc', rfl⟩ := List.mem_map.mp hd
    have hStill := still_of_widen h c' hc'
    revert hSelect
    split
    · exact hStill
    · exact hStill

end

def mainName : ClassName := .of "a/Main"
def innerName : ClassName := .of "a/Main$Inner"

def methodOf (name : MemberName) (access : MethodAccess) : Method where
  owner := mainName
  name := name
  signature := .void []
  access := access

def privateClass (name : ClassName) (kind : ClassKind) (vendorPush : Bool) : ClassDef where
  name := name
  kind := kind
  access := { priv := true, pub := true }
  vendorPush := vendorPush

/-- A class with members of every kind, behind private classes that widening is not about. -/
def mixed : ClassGraph := ⟨[
  privateClass (.of "java/lang/Hidden") .library false,
  privateClass (.of "com/meizu/cloud/pushsdk/Handler") .program true,
  { name := mainName, kind := .program, access := { prot := true, pub := true, isFinal := true }
    methods := [
      methodOf ⟨"helper"⟩ { priv := true, isStatic := true },
      methodOf ⟨"secret"⟩ { priv := true, prot := true },
      methodOf ⟨"hook"⟩ { prot := true, isFinal := true },
      methodOf .clinit { isStatic := true, isInitializer := true }]
    fields := [{ owner := mainName, name := ⟨"count"⟩, type := .base .int
                 access := { priv := true, isStatic := true } }] }]⟩

/-- The same with two more classes, both of them private. -/
def refused : ClassGraph :=
  ⟨mixed.classes ++ [privateClass innerName .program false,
    privateClass (.of "a/Main$Other") .program false]⟩

/-- The first of the private classes is named; without them, widening comes to its end. -/
theorem widen_opens_mixed :
    (∀ c ∈ refused.classes, c.closed = false) ∧
      ((widen true).on refused).1 = .error (.privateClass innerName) ∧
      (∀ c ∈ mixed.classes, c.closed = false) ∧
      ∃ g', (widen true).on mixed = (.ok (), g') ∧
        List.Forall₂ (fun c c' =>
          if c.isProgram && !c.vendorPush then OpenedClass true c c' else c' = c)
            mixed.classes g'.classes ∧
          ∀ which, (widen true).on (closing which g') = (.ok (), closing which g') := by
  have hRefused : ∀ c ∈ refused.classes, c.closed = false := by decide +kernel
  have hMixed : ∀ c ∈ mixed.classes, c.closed = false := by decide +kernel
  have hFirst : refused.programClasses.find?
      (fun c => !c.vendorPush && c.access.visibility == .priv) =
        some (privateClass innerName .program false) := by decide +kernel
  have hOk : ((widen true).on mixed).1.isOk = true := by decide +kernel
  obtain ⟨_, hRun⟩ := Pass.exists_on_eq_ok hOk
  refine ⟨hRefused, ((widen_opens hRefused).1 _).mpr ⟨_, hFirst, rfl⟩, hMixed, _, hRun, ?_⟩
  exact (widen_opens hMixed).2 _ hRun

end Widening

end HotPatch
