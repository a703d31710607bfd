import HotPatch.Proofs.Genesis.Shapes
import HotPatch.Proofs.Instrument.Stages

/-!
# What a run does to the vendor's push library

The classes of the vendor's push library are to stay as they are.  A run marks
them as disabled, and that is enough for all passes that go class by class:
each of them selects among the classes that are not.  The insertion of genesis
classes does not look at the mark.  So in light mode a run leaves these classes
alone, and in full mode it leaves alone those that the insertion does not
restructure (`run_leavesVendorPush_iff`).
-/

namespace HotPatch

open ClassGraph Genesis

/-- The class is what it was: what it extends, its flags, its fields and its methods with their
flags and code.  Marks and roles are for instrumentation itself. -/
structure ClassDef.Untouched (c c' : ClassDef) : Prop where
  access : c'.access = c.access
  superclass : c'.superclass = c.superclass
  methods : c'.methods.map Method.withoutRole = c.methods.map Method.withoutRole
  fields : c'.fields = c.fields

/-! ## What the passes before the insertion leave alone -/

private theorem Selection.isProgram_of_isVendorPush {c : ClassDef} (h : isVendorPush c = true) :
    c.isProgram = true := by
  rw [isVendorPush, Bool.and_eq_true] at h
  exact h.1

namespace Instrument

section

variable {s : Settings} {g g' : ClassGraph} {n : ClassName} {c : ClassDef}

private theorem shape_markClass (g : ClassGraph) (filter : Filter) (c : ClassDef) :
    (Selection.markClass g filter c).shape = c.shape := by
  unfold Selection.markClass
  split
  · rfl
  · split <;> rfl

private theorem shape_markVendorPush (c : ClassDef) :
    (if Selection.isVendorPush c then { c with vendorPush := true } else c).shape = c.shape := by
  split <;> rfl

/-- Preparing a graph does not change its shape. -/
theorem agree_prepare (s : Settings) (g : ClassGraph) :
    Agree ClassDef.shape g (prepare s g) := by
  have hVendor : Agree ClassDef.shape g
      (if s.skipVendorPush then (Selection.markVendorPush g).2 else g) := by
    split
    · exact .mapClasses (fun c => ClassDef.name_of_shape (shape_markVendorPush c))
        shape_markVendorPush g
    · exact .refl g
  exact hVendor.trans (.mapClasses (fun c => ClassDef.name_of_shape (shape_markClass _ _ c))
    (shape_markClass _ _) _)

/-- The classes of the vendor's push library are marked, and disabled for it. -/
theorem find?_prepare (hSkip : s.skipVendorPush = true) (hFind : g.find? n = some c)
    (hVendor : Selection.isVendorPush c = true) :
    (prepare s g).find? n = some { c with vendorPush := true, disabled := true } := by
  have hMarked : (Selection.markVendorPush g).2.find? n = some { c with vendorPush := true } := by
    refine (find?_mapClasses g (fun c => ?_) n).trans ?_
    · exact ClassDef.name_of_shape (shape_markVendorPush c)
    · rw [hFind, Option.map_some, if_pos hVendor]
  have hProgram : ({ c with vendorPush := true } : ClassDef).isProgram = true :=
    Selection.isProgram_of_isVendorPush hVendor
  rw [prepare, hSkip, if_pos rfl]
  refine (find?_mapClasses _ (fun c => ?_) n).trans ?_
  · exact ClassDef.name_of_shape (shape_markClass _ _ c)
  · rw [hMarked, Option.map_some, Selection.markClass, if_neg, if_pos]
    · simp [Selection.classDisabled]
    · simp [hProgram]

private theorem shape_widenClass {makePublic : Bool} {c c' : ClassDef}
    (h : Widening.widenClass makePublic c = .ok c') : c'.shape = c.shape := by
  rcases Widening.widenClass_eq_ok h with ⟨_, rfl⟩ | ⟨_, _, rfl⟩ <;> rfl

/-- Widening does not change the shape of a graph, and leaves the classes of vendors alone. -/
theorem widen_eq_ok {makePublic : Bool} (h : (Widening.widen makePublic).on g = (.ok (), g')) :
    Agree ClassDef.shape g g' ∧
      ∀ n c, g.find? n = some c → c.vendorPush = true → g'.find? n = some c := by
  refine ⟨Widening.agree_of_widen (fun _ _ => shape_widenClass) h, fun n c hFind hVendor => ?_⟩
  obtain ⟨_, _, hSweep, hReturn⟩ := Pass.on_bind_eq_ok.mp h
  cases hReturn
  refine find?_sweep_of_not (fun _ => Widening.keepsName_widenClass makePublic) hSweep hFind ?_
  simp [Widening.selects, hVendor]

/-! ## The whole run -/

/-- The second graph is the first one with what only full mode adds. -/
def Completed (s : Settings) (g g' : ClassGraph) : Prop :=
  if s.isFull then ∃ genesis, completeHierarchy.on g = (.ok genesis, g') else g' = g

/-- The program from pass to pass of a run. -/
theorem run_eq_ok {report : Report} (h : (run s).on g = (.ok report, g')) :
    ∃ widened complete slotted count classes,
      (Widening.widen s.makePublic).on (prepare s g) = (.ok (), widened) ∧
      Completed s (s.manifest.mark widened).2 complete ∧
      Slots.addInterceptorFields.on complete = (.ok count, slotted) ∧
      (instrumentClasses s).on slotted = (.ok classes, g') := by
  obtain ⟨slotted, hEquip, hClasses⟩ := run_ok_iff.mp h
  obtain ⟨widened, completed, count, hWiden, hComplete, hSlots⟩ := equip_eq_ok hEquip
  refine ⟨widened, completed, slotted, count, report.classes, hWiden, ?_, hSlots, hClasses⟩
  rw [Completed]
  split
  · next hFull =>
      rw [complete, if_pos hFull] at hComplete
      exact ⟨_, hComplete⟩
  · next hLight => exact (complete_of_light (Bool.not_eq_true _ ▸ hLight) hComplete).2

/-- Behind the insertion, nothing happens to a disabled class. -/
theorem completeHierarchy_eq_ok {genesis : List ClassName}
    (h : completeHierarchy.on g = (.ok genesis, g')) :
    ∃ built, build.on g = (.ok genesis, built) ∧
      ∀ n c, built.find? n = some c → c.disabled = true → g'.find? n = some c := by
  obtain ⟨_, built, hBuild, h⟩ := Pass.on_bind_eq_ok.mp h
  obtain ⟨_, initialized, hInit, h⟩ := Pass.on_bind_eq_ok.mp h
  obtain ⟨_, _, hHolders, hReturn⟩ := Pass.on_bind_eq_ok.mp h
  cases hReturn
  refine ⟨built, hBuild, fun n c hFind hDisabled => ?_⟩
  have hInitialized := Manifest.find?_addStaticInitializers hInit hFind hDisabled
  exact Slots.find?_addEach hHolders hInitialized hDisabled

/-- **A run leaves the classes of the vendor's push library alone, unless it is one in full mode
and the insertion restructures the class.** -/
theorem run_leavesVendorPush_iff (hSync : InSync g) (hAcyclic : Acyclic g)
    (hSkip : s.skipVendorPush = true) {report : Report}
    (hRun : (run s).on g = (.ok report, g')) (hFind : g.find? n = some c)
    (hVendor : Selection.isVendorPush c = true) :
    ∃ c', g'.find? n = some c' ∧
      (c.Untouched c' ↔ ¬ (s.isFull = true ∧ Restructures (s.manifest.mark g).2 n)) := by
  obtain ⟨widened, complete, slotted, _, _, hWiden, hComplete, hSlots, hClasses⟩ := run_eq_ok hRun
  obtain ⟨hWidened, hLeft⟩ := widen_eq_ok hWiden
  have hShape : Agree ClassDef.shape g widened := (agree_prepare s g).trans hWidened
  have hPrepared := hLeft n _ (find?_prepare hSkip hFind hVendor) rfl
  obtain ⟨marks, hMarked, _⟩ := Manifest.mark_eq s.manifest hPrepared
  have hLater : ∀ c', complete.find? n = some c' → c'.disabled = true →
      g'.find? n = some c' := by
    intro c' hFind' hDisabled
    exact find?_instrumentClasses hClasses (Slots.find?_addEach hSlots hFind' hDisabled) hDisabled
  cases hFull : s.isFull with
  | false =>
      rw [Completed, hFull, if_neg Bool.false_ne_true] at hComplete
      subst hComplete
      refine ⟨_, hLater _ hMarked rfl, fun _ => ?_, fun _ => ⟨rfl, rfl, rfl, rfl⟩⟩
      rintro ⟨hNot, _⟩
      cases hNot
  | true =>
      rw [Completed, hFull, if_pos rfl] at hComplete
      obtain ⟨genesis, hComplete⟩ := hComplete
      obtain ⟨built, hBuild, hKeeps⟩ := completeHierarchy_eq_ok hComplete
      have hRemarked := Manifest.remarked_mark s.manifest widened
      have hProgram := Selection.isProgram_of_isVendorPush hVendor
      obtain ⟨c', hFind', hStem, hIff⟩ :=
        build_leaves_iff (hRemarked.inSync (hShape.edges.inSync hSync))
          (hRemarked.acyclic (hShape.edges.acyclic hAcyclic)) hBuild hMarked hProgram
      have hDisabled : c'.stem.disabled = true := by rw [hStem]; rfl
      have hAccess : c'.stem.access = c.access := by rw [hStem]; rfl
      have hFields : c'.stem.fields = c.fields := by rw [hStem]; rfl
      have hMethods : (s.manifest.mark widened).2.methods? n =
          (s.manifest.mark g).2.methods? n := by
        obtain ⟨_, hMarked', _⟩ := Manifest.mark_eq s.manifest hFind
        rw [methods?_of_find? hMarked, methods?_of_find? hMarked']
      refine ⟨c', hLater c' (hKeeps n c' hFind' hDisabled) hDisabled, ?_⟩
      rw [← hShape.mark.restructures_iff hMethods, eq_self, true_and, ← hIff]
      exact ⟨fun h => ⟨h.superclass, h.methods⟩, fun h => ⟨hAccess, h.1, h.2, hFields⟩⟩

end

def pushName : ClassName := .of "com/meizu/cloud/pushsdk/NotificationActivity"

/-- A screen of the program beside one of the vendor's push library. -/
def pushScreens : ClassGraph := ⟨[
  { name := screenName, kind := .library, access := { pub := true }
    subclasses := [mainName, pushName]
    methods := [{ plainConstructor screenName topName with body := none }] },
  { name := mainName, kind := .program, access := { pub := true }, superclass := some screenName
    methods := [plainConstructor mainName screenName] },
  { name := pushName, kind := .program, access := { pub := true }, superclass := some screenName
    methods := [plainConstructor pushName screenName] }]⟩

/-- Full mode, with these screens declared. -/
def declaring (names : List ClassName) : Settings :=
  { mode := .full, manifest := names.map fun name => (.activity, name) }

private theorem exists_run_declaring {names : List ClassName}
    (hOk : ((run (declaring names)).on pushScreens).1.isOk = true) :
    ∃ report, (run (declaring names)).on pushScreens =
      (.ok report, ((run (declaring names)).on pushScreens).2) :=
  Pass.exists_on_eq_ok hOk

/-- The screen of the program moves, and that of the library stays. -/
theorem run_leavesVendorPush_iff_undeclared :
    ∃ report g' c c', (run (declaring [mainName])).on pushScreens = (.ok report, g') ∧
      g'.superclassOf mainName = some (genesisName screenName) ∧
      pushScreens.find? pushName = some c ∧ Selection.isVendorPush c = true ∧
      g'.find? pushName = some c' ∧ c.Untouched c' := by
  have hOk : ((run (declaring [mainName])).on pushScreens).1.isOk = true ∧
      ((run (declaring [mainName])).on pushScreens).2.superclassOf mainName =
        some (genesisName screenName) := by
    unfold run instrumentClasses instrumentClass Numbering.assign
    rw [Numbering.ordered_eq]
    decide +kernel
  obtain ⟨report, hRun⟩ := exists_run_declaring hOk.1
  have hPush : ∃ c ∈ pushScreens.find? pushName, Selection.isVendorPush c = true := by
    decide +kernel
  obtain ⟨c, hFind, hVendor⟩ := hPush
  obtain ⟨c', hFind', hIff⟩ := run_leavesVendorPush_iff (by decide +kernel) (by decide +kernel)
    rfl hRun hFind hVendor
  refine ⟨report, _, c, c', hRun, hOk.2, hFind, hVendor, hFind', hIff.mpr ?_⟩
  rintro ⟨_, component, root, _, _, _, hReached, _⟩
  have hNone : ∀ component ∈ ComponentType.all,
      ∀ d ∈ ((declaring [mainName]).manifest.mark pushScreens).2.find? pushName,
        ¬ ((d.marks.get component).direct = true ∨ (d.marks.get component).ancestor = true) := by
    decide +kernel
  obtain ⟨d, hd, hRole⟩ := hReached.marked
  exact hNone component (by cases component <;> decide) d hd hRole

/-- A screen of the vendor's push library that is declared moves like any other. -/
theorem run_movesVendorPush :
    ∃ report g' c c', (run (declaring [mainName, pushName])).on pushScreens = (.ok report, g') ∧
      InSync pushScreens ∧ Acyclic pushScreens ∧
      (declaring [mainName, pushName]).skipVendorPush = true ∧
      pushScreens.find? pushName = some c ∧ Selection.isVendorPush c = true ∧
      g'.find? pushName = some c' ∧ c.superclass = some screenName ∧
      c'.superclass = some (genesisName screenName) ∧ ¬ c.Untouched c' := by
  have hOk : ((run (declaring [mainName, pushName])).on pushScreens).1.isOk = true ∧
      ((run (declaring [mainName, pushName])).on pushScreens).2.superclassOf pushName =
        some (genesisName screenName) := by
    unfold run instrumentClasses instrumentClass Numbering.assign
    rw [Numbering.ordered_eq]
    decide +kernel
  obtain ⟨report, hRun⟩ := exists_run_declaring hOk.1
  have hPush : ∃ c ∈ pushScreens.find? pushName, Selection.isVendorPush c = true ∧
      c.superclass = some screenName := by
    decide +kernel
  obtain ⟨c, hFind, hVendor, hSuper⟩ := hPush
  obtain ⟨c', hFind', hSuper'⟩ := find?_of_superclassOf hOk.2
  refine ⟨report, _, c, c', hRun, by decide +kernel, by decide +kernel, rfl, hFind, hVendor,
    hFind', hSuper, hSuper', fun hUntouched => ?_⟩
  have hSame := hUntouched.superclass
  rw [hSuper, hSuper', Option.some.injEq] at hSame
  exact genesisName_ne screenName hSame

end Instrument

end HotPatch
