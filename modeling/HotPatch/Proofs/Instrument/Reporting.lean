import HotPatch.Proofs.Genesis.BuddyChain
import HotPatch.Proofs.Instrument.OneClass
import HotPatch.Proofs.Instrument.Stages
import HotPatch.Proofs.Intercept.NumberedCalls

/-!
# The report and the code

Patches are made against the report, and what runs is the code.  The two say
the same: the report lists the classes that are not left alone and their
numbered methods, in order; a method is listed as instrumented exactly if it
has been intercepted; and the code for the interceptor passes the number that
the report gives, in the call that the dispatch of the report stands for
(`run_reports`).
-/

namespace HotPatch

namespace Instrument

open HotPatch.Numbering Intercept

/-! ## Methods -/

/-- A body behind the test of a slot is longer than it was. -/
theorem not_guarded_self (b : Body) (slot : FieldRef) : ¬ Guarded b slot b := by
  rintro ⟨⟨block, hCode⟩, _⟩
  have hLength := congrArg List.length hCode
  simp only [guardCode, Boxing.forkCode, List.length_append, List.length_cons,
    List.length_nil] at hLength
  omega

section

variable {s : Settings} {superclass : Option ClassDef} {m m' : Method}

private theorem classify_ne_init (h : m.isConstructor = false) :
    Dispatch.classify s.shapes m ≠ .init := by
  rw [Dispatch.classify, h, if_neg Bool.false_ne_true]
  split <;> exact fun hEq => by cases hEq

/-- The code for the interceptor, with the number it passes. -/
theorem Routed.handsOver (h : Routed s superclass m m') {id : Nat} (hId : m.id = some id)
    {b b' : Body} (hBody : m.body = some b) (hBody' : m'.body = some b') :
    ∃ slot block, Intercepted m slot m' ∧ b'.instructions = guardCode b slot ++ block ∧
      (m.isStaticInitializer = false → HandsOver block id (.classify s.shapes m)) := by
  cases h with
  | staticInit hStatic h =>
      obtain ⟨hCode, _⟩ := staticInit_eq_ok hBody hBody' h
      refine ⟨_, _, .staticInit h, hCode, fun hNot => ?_⟩
      rw [hStatic] at hNot
      cases hNot
  | constructor form _ hConstructor h =>
      obtain ⟨id', call, buddy, hId', _, _, hNew⟩ := constructor_eq_ok hBody hBody' h
      obtain rfl := Option.some.inj (hId.symm.trans hId')
      obtain ⟨hCode, hCheck⟩ := constructorBody_eq_ok hNew
      have hInit : Dispatch.classify s.shapes m = .init := by
        rw [Dispatch.classify, hConstructor, if_pos rfl]
      have hPlaced := Body.nodup_placed hCheck
      rw [hCode, Code.placed_append, List.nodup_append] at hPlaced
      refine ⟨_, _, .constructor form superclass h, hCode, fun _ => ?_⟩
      rw [hInit]
      exact constructorBlock_hands m id call.method buddy b hPlaced.2.1
  | method _ hConstructor h =>
      obtain ⟨id', hId', hNew⟩ := method_eq_ok hBody hBody' h
      obtain rfl := Option.some.inj (hId.symm.trans hId')
      obtain ⟨locals, _, hCode, _⟩ := methodBody_eq_ok hNew
      exact ⟨_, _, .method _ h, hCode,
        fun _ => methodCall_hands m id locals (classify_ne_init hConstructor) _⟩

end

/-- A method before and after it is instrumented, and the entry for it in the report. -/
structure Listed (m m' : Method) (e : MethodReport) : Prop where
  name : e.name = m'.name
  signature : e.signature = m'.signature
  number : m'.id = some e.id
  frame : m' = { m with id := m'.id, body := m'.body }
  instrumented : e.instrumented = true ↔
    m.hasBody = true ∧ ∃ slot, Intercepted { m with id := m'.id } slot m'
  untouched : e.instrumented = false → m'.body = m.body ∧ e.dispatch = none
  /-- The code for the interceptor makes the calls that the dispatch stands for; only a static
  initializer has none. -/
  calls : e.instrumented = true → ∃ b b' slot block, m.body = some b ∧ m'.body = some b' ∧
    Intercepted { m with id := m'.id } slot m' ∧ b'.instructions = guardCode b slot ++ block ∧
    (e.dispatch = none ↔ m.isStaticInitializer = true) ∧
    ∀ dispatch, e.dispatch = some dispatch → HandsOver block e.id dispatch

section

variable {s : Settings} {superclass : Option ClassDef}

private theorem dispatch_methodReport (s : Settings) (m : Method) (id : Nat) :
    (methodReport s m id true).dispatch =
      if m.isStaticInitializer then none else some (.classify s.shapes m) := by
  cases hStatic : m.isStaticInitializer <;> simp [methodReport, hStatic]

/-- A method that interception leaves alone. -/
theorem listed_of_none {m : Method} {id : Nat}
    (h : rewrite? s superclass { m with id := some id } = none) :
    Listed m { m with id := some id } (entry s superclass { m with id := some id } id) := by
  have hEntry : entry s superclass { m with id := some id } id =
      methodReport s { m with id := some id } id false := by
    rw [entry, h]
    rfl
  have hNot : ¬ (m.hasBody = true ∧
      ∃ slot, Intercepted { m with id := some id } slot { m with id := some id }) := by
    rintro ⟨hBody, slot, hIntercepted⟩
    obtain ⟨b, hBody⟩ := Option.isSome_iff_exists.mp hBody
    exact not_guarded_self b slot (hIntercepted.guarded hBody hBody)
  rw [hEntry]
  exact {
    name := rfl
    signature := rfl
    number := rfl
    frame := rfl
    instrumented := ⟨fun hIs => absurd hIs Bool.false_ne_true, fun hIs => absurd hIs hNot⟩
    untouched := fun _ => ⟨rfl, rfl⟩
    calls := fun hIs => absurd hIs Bool.false_ne_true }

/-- A method that is intercepted. -/
theorem listed_of_some {m m' : Method} {id : Nat}
    (h : rewrite? s superclass { m with id := some id } = some m') :
    Listed m m' (entry s superclass { m with id := some id } id) := by
  have hEntry : entry s superclass { m with id := some id } id =
      methodReport s { m with id := some id } id true := by
    rw [entry, h]
    rfl
  obtain ⟨⟨b, hBody⟩, hRouted⟩ := routed_of_rewrite? h
  obtain ⟨slot, hIntercepted⟩ := hRouted.intercepted
  obtain ⟨hFrame, hSome⟩ := hIntercepted.body
  rw [hBody] at hSome
  obtain ⟨b', hBody'⟩ := Option.isSome_iff_exists.mp hSome
  obtain ⟨slot', block, hIntercepted', hCode, hHands⟩ := hRouted.handsOver rfl hBody hBody'
  have hId : m'.id = some id := by rw [hFrame]
  have hDispatch := dispatch_methodReport s { m with id := some id } id
  rw [hEntry]
  exact {
    name := by rw [hFrame]; rfl
    signature := by rw [hFrame]; rfl
    number := hId
    frame := by rw [hId]; exact hFrame
    instrumented := by
      refine ⟨fun _ => ⟨Option.isSome_iff_exists.mpr ⟨b, hBody⟩, slot, ?_⟩, fun _ => rfl⟩
      rw [hId]
      exact hIntercepted
    untouched := fun hIs => absurd hIs.symm Bool.false_ne_true
    calls := by
      refine fun _ => ⟨b, b', slot', block, hBody, hBody', by rw [hId]; exact hIntercepted', hCode,
        ?_, ?_⟩
      · rw [hDispatch]
        split
        · next hStatic => exact ⟨fun _ => hStatic, fun _ => rfl⟩
        · next hStatic =>
            exact ⟨fun hNone => absurd hNone (Option.some_ne_none _),
              fun hIs => absurd hIs hStatic⟩
      · intro dispatch hIs
        rw [hDispatch] at hIs
        split at hIs
        · cases hIs
        · next hStatic =>
            cases hIs
            exact hHands (Bool.not_eq_true _ ▸ hStatic) }

/-! ## Classes -/

/-- A class before and after its methods are numbered and intercepted, and the report on it: the
methods that can have code, in order, with the numbers from zero on. -/
structure Reported (c c' : ClassDef) (r : ClassReport) : Prop where
  name : r.name = c'.name
  frame : c' = { c with closed := true, methods := c'.methods }
  keys : c'.methods.map (fun m => (m.name, m.signature)) =
    c.methods.map fun m => (m.name, m.signature)
  numbers : r.methods.map (·.id) = List.range (ordered c).length
  entries : List.Forall₂ (fun m e => ∃ m' ∈ c'.methods, Listed m m' e) (ordered c) r.methods

/-- What an instrumented method comes to, and its entry. -/
theorem listed_entry (m : Method) (id : Nat) :
    Listed m ((rewrite? s superclass { m with id := some id }).getD { m with id := some id })
      (entry s superclass { m with id := some id } id) := by
  cases h : rewrite? s superclass { m with id := some id } with
  | none => exact listed_of_none h
  | some m' => exact listed_of_some h

private theorem Instrumented.reported {c c' : ClassDef} {r : ClassReport}
    (h : Instrumented s superclass c c' r) : Reported c c' r where
  name := by rw [h.report, h.methods]
  frame := by rw [h.methods]
  keys := by
    rw [h.methods, List.map_map]
    refine List.map_congr_left fun m _ => ?_
    obtain ⟨hName, hSignature⟩ := key_replaced s superclass ((ordered c).map (numbered c))
      (numbered c m)
    rw [Function.comp_apply, hName, hSignature]
    rfl
  numbers := by
    have hSecond : (fun e : MethodReport => e.id) ∘
        (fun p : Method × Nat => entry s superclass p.1 p.2) = Prod.snd := rfl
    rw [h.report, List.map_map, hSecond, List.zipIdx_map_snd, List.length_map, List.range_eq_range']
  entries := by
    rw [h.report, List.forall₂_iff_get]
    refine ⟨by simp, fun k hk hk' => ?_⟩
    have hAt : (ordered c)[k]? = some (ordered c)[k] := List.getElem?_eq_getElem hk
    refine ⟨_, h.mem_methods hAt, ?_⟩
    simp only [List.get_eq_getElem, List.getElem_map, List.getElem_zipIdx,
      numbered_of_getElem? h.apart hAt, Nat.zero_add]
    exact listed_entry _ k

end

/-! ## Programs -/

open ClassGraph Genesis

section

variable {s : Settings} {g g' : ClassGraph}

/-- The reports, in the order of the classes. -/
theorem instrumentClasses_reported {reports : List ClassReport}
    (h : (instrumentClasses s).on g = (.ok reports, g')) :
    List.Forall₂ (fun c' r => ∃ c ∈ g.classes, Reported c c' r)
      (g'.classes.filter Slots.selects) reports := by
  refine ((instrumentClasses_answered h).forall₂ ?_).imp ?_
  · intro c r c' hSelect hOn
    rw [(instrumentClass_eq_ok hOn).methods]
    exact hSelect
  · rintro c' r ⟨c, hc, _, hOn⟩
    exact ⟨c, hc, (instrumentClass_eq_ok hOn).reported⟩

private theorem agree_selects_addStaticInitializers {count : Nat}
    (h : Manifest.addStaticInitializers.on g = (.ok count, g')) : Agree Slots.selects g g' := by
  refine Manifest.agree_addStaticInitializers (fun c c' _ hAdd => ?_) h
  have hSame : Slots.selects c'.outline = Slots.selects c.outline :=
    congrArg Slots.selects (outline_addMethod hAdd)
  exact hSame

/-- Genesis classes are there in the end of the insertion, and not left alone. -/
theorem selects_of_build {created : List ClassName} (h : build.on g = (.ok created, g'))
    {n : ClassName} (hn : n ∈ created) : ∃ c, g'.find? n = some c ∧ Slots.selects c = true := by
  obtain ⟨site, hVisit, hFinish⟩ := build_eq_ok h
  have hBuilds := builds_siteAfter g (rootVisits ComponentType.all)
  rw [← siteAfter_of_visitEach hVisit] at hBuilds
  have hLaid := hBuilds.laid (.start g)
  obtain ⟨rfl, _, _, hStem⟩ := finish_eq_ok hFinish hLaid.apart
  obtain ⟨b, hb, rfl⟩ := List.mem_map.mp hn
  obtain ⟨c, hFind, hProgram, hEnabled⟩ := (hLaid.stands b hb).enabled
  have hStemHere := hStem b.genesis
  rw [stem?, stem?, hFind, Option.map_some] at hStemHere
  obtain ⟨c', hFind', hEq⟩ := Option.map_eq_some_iff.mp hStemHere
  have hSame : Slots.selects c'.stem = Slots.selects c.stem := congrArg Slots.selects hEq
  refine ⟨c', hFind', hSame.trans ?_⟩
  show Slots.selects c = true
  rw [Slots.selects, hProgram, hEnabled]
  rfl

private theorem selects_of_equip {created : List ClassName} (h : (equip s).on g = (.ok created, g'))
    {n : ClassName} (hn : n ∈ created) : ∃ c, g'.find? n = some c ∧ Slots.selects c = true := by
  obtain ⟨_, completed, _, _, hComplete, hSlots⟩ := equip_eq_ok h
  cases hFull : s.isFull with
  | false =>
      obtain ⟨rfl, rfl⟩ := complete_of_light hFull hComplete
      cases hn
  | true =>
      obtain ⟨built, initialized, _, _, hBuild, hInit, hHolders⟩ := complete_of_full hFull hComplete
      have hHeld : Agree Slots.selects initialized completed :=
        Slots.agree_addEach (fun _ _ => rfl) hHolders
      have hSlotted : Agree Slots.selects completed g' :=
        Slots.agree_addEach (fun _ _ => rfl) hSlots
      have hSame := ((agree_selects_addStaticInitializers hInit).trans hHeld).trans hSlotted
      obtain ⟨c, hFind, hSelect⟩ := selects_of_build hBuild hn
      obtain ⟨c', hFind', hEq⟩ := hSame.find hFind
      exact ⟨c', hFind', hEq.trans hSelect⟩

/-- **The report matches the code.**  For any program and any settings with which a run succeeds:
the report lists the program classes that are not left alone, the genesis classes that were made
among them, in the order of the program; and what it says of each of their methods is so. -/
theorem run_reports {report : Report} (hRun : (run s).on g = (.ok report, g')) :
    (∀ n ∈ report.genesisClasses, ∃ c', g'.find? n = some c' ∧ Slots.selects c' = true) ∧
      ∃ equipped, (equip s).on g = (.ok report.genesisClasses, equipped) ∧
        List.Forall₂ (fun c' r => ∃ c ∈ equipped.classes, Reported c c' r)
          (g'.classes.filter Slots.selects) report.classes := by
  obtain ⟨equipped, hEquip, hClasses⟩ := run_ok_iff.mp hRun
  refine ⟨fun n hn => ?_, equipped, hEquip, instrumentClasses_reported hClasses⟩
  obtain ⟨c, hFind, hSelect⟩ := selects_of_equip hEquip hn
  obtain ⟨c', hFind', ⟨hNot, _⟩ | ⟨_, r, _, hDone⟩⟩ := exists_instrumented hClasses hFind
  · rw [hSelect] at hNot
    cases hNot
  · refine ⟨c', hFind', ?_⟩
    rw [hDone.methods]
    exact hSelect

end

/-- The screens, and a class with methods that have an overload for their shape and that do not. -/
def toolScreens : ClassGraph :=
  bareScreens.modify helperName fun c => { c with
    methods := c.methods ++ [
      { owner := helperName, name := ⟨"turn"⟩, signature := .void [.base .int]
        access := { pub := true }, body := some ⟨0, 2, [.returnVoid], 0⟩ },
      { owner := helperName, name := ⟨"mix"⟩, signature := .void [.base .double, .base .int]
        access := { pub := true, isStatic := true }, body := some ⟨0, 3, [.returnVoid], 0⟩ }] }

/-- All three ways to the interceptor are in the report, and a class that the run has made. -/
theorem run_reports_toolScreens :
    ∃ report g', (run { mode := .full, manifest := detailOnly }).on toolScreens =
        (.ok report, g') ∧
      report.genesisClasses = [genesisName screenName] ∧
      (report.class? helperName).map (fun r => r.methods.map (·.dispatch)) =
        some [some .init, some .common, some (.special "I")] ∧
      (∀ n ∈ report.genesisClasses, ∃ c', g'.find? n = some c' ∧ Slots.selects c' = true) ∧
      ∃ equipped, (equip { mode := .full, manifest := detailOnly }).on toolScreens =
          (.ok report.genesisClasses, equipped) ∧
        List.Forall₂ (fun c' r => ∃ c ∈ equipped.classes, Reported c c' r)
          (g'.classes.filter Slots.selects) report.classes := by
  have hOk : ((run { mode := .full, manifest := detailOnly }).on toolScreens).1.isOk = true ∧
      ∀ report ∈ ((run { mode := .full, manifest := detailOnly }).on toolScreens).1.toOption,
        report.genesisClasses = [genesisName screenName] ∧
        (report.class? helperName).map (fun r => r.methods.map (·.dispatch)) =
          some [some .init, some .common, some (.special "I")] := by
    unfold run instrumentClasses instrumentClass assign
    rw [ordered_eq]
    decide +kernel
  obtain ⟨report, hRun⟩ := Pass.exists_on_eq_ok hOk.1
  obtain ⟨hGenesis, hDispatch⟩ := hOk.2 report (by rw [hRun]; rfl)
  exact ⟨report, _, hRun, hGenesis, hDispatch, run_reports hRun⟩

end Instrument

end HotPatch
