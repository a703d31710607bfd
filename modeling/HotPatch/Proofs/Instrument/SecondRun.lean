import HotPatch.Proofs.Instrument.Reporting
import HotPatch.Proofs.Instrument.Spent
import HotPatch.Proofs.Instrument.VendorPush
import HotPatch.Proofs.Instrument.WiderAccess

/-!
# No double instrumentation

A run that succeeds leaves spent classes: those it instruments are closed and
numbered, and the others it has made as visible as they get, which the
insertion does not undo.  What it has inserted is not inserted again.  So a
second run changes nothing but marks and roles, and comes to its end only if
it has no method to number (`run_again`).
-/

namespace HotPatch

open ClassGraph Genesis

/-! ## Numbers stay -/

namespace Instrument

open HotPatch.Numbering

section

variable {s : Settings} {superclass : Option ClassDef} {c c' : ClassDef} {report : ClassReport}

/-- A method with the key of one that can have code has a number. -/
theorem isSome_id_numbered {m : Method} (h : ∃ n ∈ ordered c, n.sameKey m = true) :
    (numbered c m).id.isSome = true := by
  have hIdx : ((ordered c).findIdx? (·.sameKey m)).isSome = true := by
    rw [List.findIdx?_isSome, List.any_eq_true]
    exact h
  obtain ⟨k, hk⟩ := Option.isSome_iff_exists.mp hIdx
  rw [numbered, numberedFrom, hk]
  rfl

/-- Interception leaves the number alone. -/
theorem isSome_id_replaced {m : Method} (h : ∃ n ∈ ordered c, n.sameKey m = true) :
    (replaced s superclass ((ordered c).map (numbered c)) (numbered c m)).id.isSome = true := by
  rw [replaced]
  cases hFind : ((ordered c).map (numbered c)).find? (·.sameKey (numbered c m)) with
  | none => exact isSome_id_numbered h
  | some n' =>
      obtain ⟨n, hn, rfl⟩ := List.mem_map.mp (List.mem_of_find?_eq_some hFind)
      rw [Option.bind_some]
      cases hRewrite : rewrite? s superclass (numbered c n) with
      | none => exact isSome_id_numbered h
      | some m' =>
          rw [Option.getD_some, (routed_of_rewrite? hRewrite).2.frame]
          exact isSome_id_numbered ⟨n, hn, Method.sameKey_iff.mpr ⟨rfl, rfl⟩⟩

/-- A class that is instrumented finds each of its methods under its name. -/
theorem Instrumented.findMethod? (h : Instrumented s superclass c c' report) (name : MemberName)
    (signature : Signature) :
    c'.findMethod? name signature = (c.findMethod? name signature).map fun m =>
      replaced s superclass ((ordered c).map (numbered c)) (numbered c m) := by
  have hMethods : c'.methods = c.methods.map fun m =>
      replaced s superclass ((ordered c).map (numbered c)) (numbered c m) := by
    rw [h.methods]
  rw [ClassDef.findMethod?, hMethods, List.find?_map]
  congr 2
  funext m
  obtain ⟨hName, hSignature⟩ := key_replaced s superclass ((ordered c).map (numbered c))
    (numbered c m)
  rw [Function.comp_apply, Method.isNamed, hName, hSignature]
  rfl

/-- In a class that is instrumented, what can have code has a number. -/
theorem Instrumented.number (h : Instrumented s superclass c c' report) {m' : Method}
    (hm' : m' ∈ c'.methods) (hRetains : retains c' m' = true) :
    (c'.findMethod? m'.name m'.signature).bind (·.id) ≠ none := by
  have hFlags : ∀ m, retains c' m = retains c m := by
    intro m
    rw [h.methods]
    rfl
  rw [h.methods] at hm'
  obtain ⟨m, hm, rfl⟩ := List.mem_map.mp hm'
  have hKey : ∃ n ∈ ordered c, n.sameKey m = true := by
    by_contra hNone
    have hOthers : ∀ n ∈ (ordered c).map (numbered c), n.sameKey (numbered c m) = false := by
      intro n hn
      obtain ⟨n₀, hn₀, rfl⟩ := List.mem_map.mp hn
      exact Bool.eq_false_iff.mpr fun hSame => hNone ⟨n₀, hn₀, hSame⟩
    rw [replaced_of_none hOthers, hFlags] at hRetains
    exact hNone ⟨m, mem_ordered.mpr ⟨hm, hRetains⟩, Method.sameKey_iff.mpr ⟨rfl, rfl⟩⟩
  obtain ⟨hName, hSignature⟩ := key_replaced s superclass ((ordered c).map (numbered c))
    (numbered c m)
  rw [h.findMethod?, hName, hSignature]
  have hFound : (c.findMethod? m.name m.signature).isSome = true := by
    rw [ClassDef.findMethod?, List.isSome_find?, List.any_eq_true]
    exact ⟨m, hm, Method.isNamed_iff.mpr ⟨rfl, rfl⟩⟩
  obtain ⟨m₀, hm₀⟩ := Option.isSome_iff_exists.mp hFound
  obtain ⟨hName₀, hSignature₀⟩ := ClassDef.named_of_findMethod? hm₀
  have hKey₀ : ∃ n ∈ ordered c, n.sameKey m₀ = true := by
    obtain ⟨n, hn, hSame⟩ := hKey
    refine ⟨n, hn, ?_⟩
    rw [Method.sameKey_iff] at hSame ⊢
    rw [hName₀, hSignature₀]
    exact hSame
  have hNamed : c.findMethod? (numbered c m).name (numbered c m).signature = some m₀ := hm₀
  rw [hNamed, Option.map_some, Option.bind_some]
  exact Option.isSome_iff_ne_none.mp (isSome_id_replaced hKey₀)

end

end Instrument

/-! ## Access flags stay -/

namespace Instrument

/-- Classes that are left alone are as wide as they get, if widening is about them. -/
def WideIfLeft (makePublic : Bool) (g : ClassGraph) : Prop :=
  ∀ n c, g.find? n = some c → c.disabled = true → Widening.selects c = true →
    Widening.firstEdit? makePublic c = none

namespace WideIfLeft

variable {makePublic : Bool} {g g' : ClassGraph}

theorem widen (h : (Widening.widen makePublic).on g = (.ok (), g')) : WideIfLeft makePublic g' := by
  intro n c' hFind' _ hSelect
  exact (Widening.still_of_widen h c' (List.mem_of_find?_eq_some hFind') hSelect).2

theorem mark (h : WideIfLeft makePublic g) (m : Manifest) : WideIfLeft makePublic (m.mark g).2 := by
  intro n c' hFind' hDisabled hSelect
  obtain ⟨c, hFind, hMarked, _⟩ := m.exists_of_mark hFind'
  rw [hMarked] at hDisabled hSelect ⊢
  exact Widening.firstEdit?_of_essence rfl (h n c hFind hDisabled hSelect)

/-- Passes that leave classes alone if they are disabled. -/
theorem later (h : WideIfLeft makePublic g) (hDisabled : Agree ClassDef.disabled g g')
    (hKept : ∀ n c, g.find? n = some c → c.disabled = true → g'.find? n = some c) :
    WideIfLeft makePublic g' := by
  intro n c' hFind' hLeft
  obtain ⟨c, hFind, hSame⟩ := hDisabled.symm.find hFind'
  rw [← hSame] at hLeft
  obtain rfl := Option.some.inj (hFind'.symm.trans (hKept n c hFind hLeft))
  exact h n c' hFind hLeft

theorem addStaticInitializers {count : Nat} (h : WideIfLeft makePublic g)
    (hAdd : Manifest.addStaticInitializers.on g = (.ok count, g')) : WideIfLeft makePublic g' := by
  refine h.later (Manifest.agree_addStaticInitializers (fun c c' _ hNew => ?_) hAdd)
    fun _ _ hFind hLeft => Manifest.find?_addStaticInitializers hAdd hFind hLeft
  have hSame : c'.outline.disabled = c.outline.disabled :=
    congrArg ClassDef.disabled (outline_addMethod hNew)
  exact hSame

theorem addEach {field : ClassName → Field} {count : Nat} (h : WideIfLeft makePublic g)
    (hAdd : (Slots.addEach field).on g = (.ok count, g')) : WideIfLeft makePublic g' :=
  h.later (Slots.agree_addEach (fun _ _ => rfl) hAdd) fun _ _ hFind hLeft =>
    Slots.find?_addEach hAdd hFind hLeft

/-- What the insertion adds to a class is public. -/
theorem build {m : Manifest} {w : ClassGraph} {site : Site}
    (h : WideIfLeft makePublic g) (hInserted : Inserted m w g g' site)
    (hEnabled : ∀ n ∈ site.created, ∃ c, g'.find? n = some c ∧ Slots.selects c = true) :
    WideIfLeft makePublic g' := by
  intro n c' hFind' hDisabled hSelect
  have hOld : n ∉ site.created := by
    intro hn
    obtain ⟨d, hd, hIs⟩ := hEnabled n hn
    obtain rfl := Option.some.inj (hFind'.symm.trans hd)
    rw [Slots.selects, hDisabled, Bool.and_eq_true] at hIs
    cases hIs.2
  obtain ⟨c, hFind, hStem⟩ := hInserted.before hFind' hOld
  have hAccess : c.stem.access = c'.stem.access := congrArg ClassDef.access hStem
  have hFields : c.stem.fields = c'.stem.fields := congrArg ClassDef.fields hStem
  have hLeft : c.stem.disabled = c'.stem.disabled := congrArg ClassDef.disabled hStem
  have hSame : Widening.selects c.stem = Widening.selects c'.stem :=
    congrArg Widening.selects hStem
  obtain ⟨hClass, hMethods, hOthers⟩ := Widening.firstEdit?_eq_none.mp
    (h n c hFind (hLeft.trans hDisabled) (hSame.trans hSelect))
  refine Widening.firstEdit?_eq_none.mpr ⟨?_, fun m' hm' => ?_, fun f hf => hOthers f ?_⟩
  · rw [show c'.access = c.access from hAccess.symm, hClass]
  · obtain ⟨m, hm, hFrame⟩ := hInserted.mem_methods hFind hFind' hm'
    have hFlags : Widening.applies makePublic m' = Widening.applies makePublic m := by
      rw [hFrame]
      rfl
    rw [hFlags]
    rcases hm with hm | ⟨s, rfl⟩
    · exact hMethods m hm
    · have hPublic : (wormhole n s).access.visibility = .pub := rfl
      simp [Widening.applies, hPublic]
  · rw [show c.fields = c'.fields from hFields]
    exact hf

end WideIfLeft

end Instrument

/-! ## What was inserted stays -/

namespace Genesis

variable {c c' : ClassDef}

private theorem bearing_of_outline (hOutline : c'.outline = c.outline)
    (hBuddy : (c'.findMethod? .init Interceptor.buddySignature).isSome =
      (c.findMethod? .init Interceptor.buddySignature).isSome) : bearing c' = bearing c :=
  congrArg₂ (fun (o : ClassDef) hasBuddy => { bearing o with hasBuddy }) hOutline hBuddy

/-- Of what runs mark, an insertion goes by the component marks alone. -/
theorem bearing_of_essence (hSame : c'.essence = c.essence) (hMarks : c'.marks = c.marks) :
    bearing c' = bearing c := by
  have hBearing : ∀ d : ClassDef, bearing d = { bearing d.essence with marks := d.marks } := by
    intro d
    have hBuddy : d.essence.findMethod? .init Interceptor.buddySignature =
        (d.findMethod? .init Interceptor.buddySignature).map Method.essence := List.find?_map
    have hSome : (d.findMethod? .init Interceptor.buddySignature).isSome =
        (d.essence.findMethod? .init Interceptor.buddySignature).isSome := by
      rw [hBuddy, Option.isSome_map]
    exact congrArg (fun hasBuddy => { bearing d with hasBuddy }) hSome
  rw [hBearing c', hBearing c, hSame, hMarks]

end Genesis

namespace Instrument

section

variable {s : Settings} {g g' : ClassGraph}

private theorem agree_bearing_addStaticInitializers {count : Nat}
    (h : Manifest.addStaticInitializers.on g = (.ok count, g')) : Agree bearing g g' := by
  refine Manifest.agree_addStaticInitializers (fun c c' owner hAdd => ?_) h
  have hNamed := ClassDef.namedMethods_addMethod hAdd .init Interceptor.buddySignature
  have hOther : (Manifest.emptyStaticInitializer owner).isNamed .init
      Interceptor.buddySignature = false := rfl
  rw [if_neg fun hNew => absurd (hOther.symm.trans hNew.1) Bool.false_ne_true] at hNamed
  refine bearing_of_outline (outline_addMethod hAdd) ?_
  rw [ClassDef.findMethod?_eq_head?, ClassDef.findMethod?_eq_head?, hNamed]

private theorem agree_bearing_instrumentClasses {reports : List ClassReport}
    (h : (instrumentClasses s).on g = (.ok reports, g')) : Agree bearing g g' := by
  unfold instrumentClasses at h
  rw [Pass.on_get_bind] at h
  refine agree_of_sweep (fun _ => keepsName_instrumentClass s _) (fun c => ?_) h
  intro d report d' hOn
  have hDone := instrumentClass_eq_ok hOn
  have hBuddy : (d'.findMethod? .init Interceptor.buddySignature).isSome =
      (d.findMethod? .init Interceptor.buddySignature).isSome := by
    rw [hDone.findMethod?, Option.isSome_map]
  have hFrame : bearing { d' with methods := d.methods } = bearing d := by
    rw [hDone.methods]
    rfl
  exact congrArg₂ (fun b hasBuddy => { b with hasBuddy : Bearing }) hFrame hBuddy

end

/-! ## The second run -/

section

variable {s : Settings} {g g' : ClassGraph}

/-- The passes before the marks of components leave the hierarchy alone. -/
theorem edges_of_widen {widened : ClassGraph}
    (h : (Widening.widen s.makePublic).on (prepare s g) = (.ok (), widened)) :
    Agree edges g widened :=
  ((agree_prepare s g).trans (widen_eq_ok h).1).edges

/-- What full mode has inserted. -/
theorem exists_inserted (hSync : InSync g) (hAcyclic : Acyclic g) {widened completed : ClassGraph}
    {created : List ClassName}
    (hWiden : (Widening.widen s.makePublic).on (prepare s g) = (.ok (), widened))
    (hFull : s.isFull = true)
    (hComplete : (complete s).on (s.manifest.mark widened).2 = (.ok created, completed)) :
    ∃ built site, created = site.created ∧
      Inserted s.manifest widened (s.manifest.mark widened).2 built site ∧
      Agree bearing built completed ∧
      (WideIfLeft s.makePublic (s.manifest.mark widened).2 →
        WideIfLeft s.makePublic completed) := by
  obtain ⟨built, initialized, _, _, hBuild, hInit, hHolders⟩ := complete_of_full hFull hComplete
  have hEdges := edges_of_widen hWiden
  obtain ⟨site, rfl, hInserted⟩ :=
    inserted_of_build (hEdges.inSync hSync) (hEdges.acyclic hAcyclic) hBuild
  refine ⟨built, site, rfl, hInserted, ?_, fun hWide => ?_⟩
  · exact (agree_bearing_addStaticInitializers hInit).trans
      (Slots.agree_addEach (fun _ _ => rfl) hHolders)
  · have hBuilt := hWide.build hInserted fun n hn => selects_of_build hBuild hn
    exact (hBuilt.addStaticInitializers hInit).addEach hHolders

/-- A run that succeeds leaves its classes spent. -/
theorem spent_of_run (hSync : InSync g) (hAcyclic : Acyclic g) {report : Report}
    (hRun : (run s).on g = (.ok report, g')) {n : ClassName} {c' : ClassDef}
    (hFind' : g'.find? n = some c') : Spent s.makePublic c' := by
  obtain ⟨equipped, hEquip, hClasses⟩ := run_ok_iff.mp hRun
  obtain ⟨widened, completed, _, hWiden, hComplete, hSlots⟩ := equip_eq_ok hEquip
  have hMarked := (WideIfLeft.widen hWiden).mark s.manifest
  have hCompleted : WideIfLeft s.makePublic completed := by
    cases hFull : s.isFull with
    | false =>
        obtain ⟨_, rfl⟩ := complete_of_light hFull hComplete
        exact hMarked
    | true =>
        obtain ⟨_, _, _, _, _, hWide⟩ := exists_inserted hSync hAcyclic hWiden hFull hComplete
        exact hWide hMarked
  have hWide := hCompleted.addEach hSlots
  obtain ⟨c, hFind, _⟩ := (agree_bearing_instrumentClasses hClasses).symm.find hFind'
  obtain ⟨d', hd', hWhich⟩ := exists_instrumented hClasses hFind
  obtain rfl := Option.some.inj (hFind'.symm.trans hd')
  rcases hWhich with ⟨hNot, rfl⟩ | ⟨_, _, _, hDone⟩
  · refine ⟨fun hSelect => absurd (hNot.symm.trans hSelect) Bool.false_ne_true,
      fun hSelect => absurd (hNot.symm.trans hSelect) Bool.false_ne_true, fun hSelect _ => ?_⟩
    refine hWide n c' hFind ?_ hSelect
    rw [Widening.selects, Bool.and_eq_true] at hSelect
    simpa [Slots.selects, hSelect.1] using hNot
  · have hClosed : c'.closed = true := by rw [hDone.methods]
    exact ⟨fun _ => hClosed, fun _ _ hm hRetains => hDone.number hm hRetains,
      fun _ hOpen => absurd (hOpen.symm.trans hClosed) Bool.false_ne_true⟩

/-- What a run has inserted, no insertion finds to restructure. -/
theorem settles_of_run (hSync : InSync g) (hAcyclic : Acyclic g) {report : Report}
    (hRun : (run s).on g = (.ok report, g'))
    (hManifest : ∀ entry ∈ s.manifest, entry.2 ∉ report.genesisClasses)
    (hFull : s.isFull = true) {p : ClassGraph} (hSame : Agree id (prepare s g') p) :
    Settles (s.manifest.mark p).2 := by
  obtain ⟨equipped, hEquip, hClasses⟩ := run_ok_iff.mp hRun
  obtain ⟨widened, completed, _, hWiden, hComplete, hSlots⟩ := equip_eq_ok hEquip
  obtain ⟨built, site, hCreated, hInserted, hCompleted, _⟩ :=
    exists_inserted hSync hAcyclic hWiden hFull hComplete
  rw [hCreated] at hManifest
  have hPrepared : Agree bearing g' (prepare s g') := by
    rw [prepare_eq]
    refine .mapClasses (fun c => ?_) (fun c => ?_) g'
    · exact ClassDef.name_of_essence (Labelled.prepared s g' c).essence
    · exact bearing_of_essence (Labelled.prepared s g' c).essence (Labelled.prepared s g' c).marks
  have hSlotted : Agree bearing completed equipped := Slots.agree_addEach (fun _ _ => rfl) hSlots
  have hLater := (hCompleted.trans hSlotted).trans (agree_bearing_instrumentClasses hClasses)
  exact hInserted.settles hManifest
    ((hLater.trans hPrepared).trans (hSame.restrict bearing fun _ => rfl))

/-- **No double instrumentation.**  When a run has succeeded, and the manifest names no class that
it has made, a second run with the same settings leaves the program as it is, but for marks and
roles, whatever its outcome: classes with their edges, access flags and fields, and methods with
their code, flags and numbers.  And it succeeds only if no program class that is not disabled by
then has a method that can have code. -/
theorem run_again (hSync : InSync g) (hAcyclic : Acyclic g) {report : Report}
    (hRun : (run s).on g = (.ok report, g'))
    (hManifest : ∀ entry ∈ s.manifest, entry.2 ∉ report.genesisClasses)
    {answer : Except Fault Report} {g'' : ClassGraph} (hAgain : (run s).on g' = (answer, g'')) :
    Agree ClassDef.essence g' g'' ∧
      (answer.isOk = true → ∀ n c, g''.find? n = some c → c.isProgram = true →
        c.disabled = false → ∀ m ∈ c.methods, Numbering.retains c m = false) := by
  obtain ⟨hRests, hNone⟩ := run_rests (fun n c hFind => spent_of_run hSync hAcyclic hRun hFind)
    fun hFull p hSame => settles_of_run hSync hAcyclic hRun hManifest hFull hSame
  rw [hAgain] at hRests
  refine ⟨hRests.same, fun hOk n c hFind hProgram hEnabled => ?_⟩
  cases answer with
  | error e => cases hOk
  | ok report' =>
      refine hNone report' g'' hAgain n c hFind ?_
      rw [Slots.selects, hProgram, hEnabled]
      rfl

end

/-- Full mode, for a component, with what may be touched. -/
def detailWith (filter : Filter) : Settings := { mode := .full, manifest := detailOnly, filter }

def rejectAll : Filter := ⟨fun _ => false, fun _ => true⟩

/-- The second run stops at a number.  Where the filter rejects all classes, the class that the
first run has made is disabled by the second one, and it succeeds. -/
theorem run_again_toolScreens :
    (∃ report g' g'', (run (detailWith .acceptAll)).on toolScreens = (.ok report, g') ∧
      report.genesisClasses = [genesisName screenName] ∧
      (run (detailWith .acceptAll)).on g' =
        (.error (.graph (.closed mainName (.methodId .clinit))), g'') ∧
      Agree ClassDef.essence g' g'') ∧
    ∃ report report' g' g'', (run (detailWith rejectAll)).on toolScreens = (.ok report, g') ∧
      report.classes.map (·.name) = [genesisName screenName] ∧
      (run (detailWith rejectAll)).on g' = (.ok report', g'') ∧
      Agree ClassDef.essence g' g'' ∧
      ∀ n c, g''.find? n = some c → c.isProgram = true → c.disabled = false →
        ∀ m ∈ c.methods, Numbering.retains c m = false := by
  have hSync : InSync toolScreens := by decide +kernel
  have hAcyclic : Acyclic toolScreens := by decide +kernel
  have hFirst : ∀ filter ∈ [Filter.acceptAll, rejectAll],
      ((run (detailWith filter)).on toolScreens).1.isOk = true ∧
      ∀ report ∈ ((run (detailWith filter)).on toolScreens).1.toOption,
        report.genesisClasses = [genesisName screenName] := by
    unfold run instrumentClasses instrumentClass Numbering.assign
    rw [Numbering.ordered_eq]
    decide +kernel
  have hReports : ∀ report ∈ ((run (detailWith rejectAll)).on toolScreens).1.toOption,
      report.classes.map (·.name) = [genesisName screenName] := by
    unfold run instrumentClasses instrumentClass Numbering.assign
    rw [Numbering.ordered_eq]
    decide +kernel
  have hStops : ((run (detailWith .acceptAll)).on
      ((run (detailWith .acceptAll)).on toolScreens).2).1 =
        .error (.graph (.closed mainName (.methodId .clinit))) := by
    unfold run instrumentClasses instrumentClass Numbering.assign
    rw [Numbering.ordered_eq]
    decide +kernel
  have hPasses : ((run (detailWith rejectAll)).on
      ((run (detailWith rejectAll)).on toolScreens).2).1.isOk = true := by
    unfold run instrumentClasses instrumentClass Numbering.assign
    rw [Numbering.ordered_eq]
    decide +kernel
  have hManifest : ∀ entry ∈ detailOnly, entry.2 ∉ [genesisName screenName] := by decide +kernel
  obtain ⟨report, hRun⟩ := Pass.exists_on_eq_ok (hFirst .acceptAll (by simp)).1
  obtain ⟨report₀, hRun₀⟩ := Pass.exists_on_eq_ok (hFirst rejectAll (by simp)).1
  obtain ⟨report₁, hRun₁⟩ := Pass.exists_on_eq_ok hPasses
  have hMade := (hFirst .acceptAll (by simp)).2 report (by rw [hRun]; rfl)
  have hMade₀ := (hFirst rejectAll (by simp)).2 report₀ (by rw [hRun₀]; rfl)
  have hStop : (run (detailWith .acceptAll)).on ((run (detailWith .acceptAll)).on toolScreens).2 =
      (_, _) := Prod.ext hStops rfl
  have hSame := run_again hSync hAcyclic hRun (hMade ▸ hManifest) hStop
  have hSame₀ := run_again hSync hAcyclic hRun₀ (hMade₀ ▸ hManifest) hRun₁
  exact ⟨⟨report, _, _, hRun, hMade, hStop, hSame.1⟩, report₀, report₁, _, _, hRun₀,
    hReports report₀ (by rw [hRun₀]; rfl), hRun₁, hSame₀.1, hSame₀.2 rfl⟩

end Instrument

end HotPatch
