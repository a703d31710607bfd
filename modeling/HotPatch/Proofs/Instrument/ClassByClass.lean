import HotPatch.Proofs.Genesis.Refinement
import HotPatch.Proofs.Instrument.OneClass

/-!
# One class at a time

A class that is instrumented is its own business but for constructors, which
look at the class above: at its name, and at whether it declares a buddy
constructor.  Interception changes neither, so the order in which classes are
instrumented plays no part (`instrumentNamed_comm`).  The sweep over all
classes may therefore look at the classes above as they were before it; to
instrument class after class has the same outcome (`instrumentClasses_eq`).
-/

namespace HotPatch

/-! ## The class above -/

/-- Every method points back to the class that lists it. -/
def ClassDef.Owned (c : ClassDef) : Prop := ∀ m ∈ c.methods, m.owner = c.name

/-- Every method of the graph points back to the class that lists it. -/
def ClassGraph.Owned (g : ClassGraph) : Prop := ∀ c ∈ g.classes, ∀ m ∈ c.methods, m.owner = c.name

instance (g : ClassGraph) : Decidable g.Owned :=
  inferInstanceAs (Decidable (∀ c ∈ g.classes, ∀ m ∈ c.methods, m.owner = c.name))

theorem ClassGraph.Owned.find {g : ClassGraph} (h : g.Owned) {n : ClassName} {c : ClassDef}
    (hFind : g.find? n = some c) : c.Owned :=
  h c (List.mem_of_find?_eq_some hFind)

namespace Instrument

open HotPatch.Numbering Intercept ClassGraph

/-- All that constructors ask about the class above. -/
def above (c : ClassDef) : ClassName × Option MethodRef :=
  (c.name, (c.findMethod? .init Interceptor.buddySignature).map Method.ref)

section

variable {s : Settings} {superclass superclass' : Option ClassDef}

private theorem constructor_congr (h : superclass'.map above = superclass.map above)
    (form : InitForm) (m : Method) :
    Intercept.constructor form superclass' m = Intercept.constructor form superclass m := by
  cases superclass with
  | none =>
      cases superclass' with
      | none => rfl
      | some d => cases h
  | some d =>
      cases superclass' with
      | none => cases h
      | some d' =>
          obtain ⟨hName, hBuddy⟩ := Prod.mk.inj (Option.some.inj h)
          have hTarget : buddyTarget form m.owner (some d') =
              buddyTarget form m.owner (some d) := by
            cases form with
            | direct => rw [buddyTarget, buddyTarget, hName]
            | normal => rw [buddyTarget, buddyTarget, hBuddy]
          simp only [Intercept.constructor, Option.map_some, hName, hTarget]

private theorem route_congr (h : superclass'.map above = superclass.map above) (m : Method) :
    route s superclass' m = route s superclass m := by
  simp only [route, constructor_congr h]

private theorem interceptAll_congr (h : superclass'.map above = superclass.map above)
    {methods : List Method} :
    ∀ id, interceptAll s superclass' methods id = interceptAll s superclass methods id := by
  induction methods with
  | nil =>
      intro id
      rfl
  | cons m rest ih =>
      intro id
      simp only [interceptAll, route_congr h, ih]

private theorem instrumentClass_congr (h : superclass'.map above = superclass.map above) :
    instrumentClass s superclass' = instrumentClass s superclass := by
  simp only [instrumentClass, interceptAll_congr h]

/-- Interception leaves alone what constructors of the classes below ask about a class. -/
theorem Instrumented.above_eq {c c' : ClassDef} {report : ClassReport}
    (h : Instrumented s superclass c c' report) (hOwned : c.Owned) : above c' = above c := by
  obtain ⟨change, hChange⟩ : ∃ change : Method → Method, change = fun m =>
      replaced s superclass ((ordered c).map (numbered c)) (numbered c m) := ⟨_, rfl⟩
  have hKey : ∀ m, (change m).name = m.name ∧ (change m).signature = m.signature := by
    intro m
    rw [hChange]
    exact key_replaced s superclass _ (numbered c m)
  have hOwner : ∀ m ∈ c.methods, (change m).owner = m.owner := by
    intro m hm
    rw [hChange]
    simp only [replaced]
    cases hFind : ((ordered c).map (numbered c)).find? (·.sameKey (numbered c m)) with
    | none => rfl
    | some n =>
        cases hRewrite : rewrite? s superclass n with
        | none =>
            rw [Option.bind_some, hRewrite]
            rfl
        | some m' =>
            obtain ⟨n', hn', rfl⟩ := List.mem_map.mp (List.mem_of_find?_eq_some hFind)
            rw [Option.bind_some, hRewrite, Option.getD_some,
              (routed_of_rewrite? hRewrite).2.frame]
            have hOwn : n'.owner = c.name := hOwned n' (mem_ordered.mp hn').1
            exact hOwn.trans (hOwned m hm).symm
  have hFind : c'.findMethod? .init Interceptor.buddySignature =
      (c.findMethod? .init Interceptor.buddySignature).map change := by
    rw [h.methods, hChange]
    refine findMethod?_map (c := c) (fun m name signature => ?_) _ _
    obtain ⟨hName, hSignature⟩ := key_replaced s superclass
      ((ordered c).map (numbered c)) (numbered c m)
    rw [Method.isNamed, Method.isNamed, hName, hSignature]
    rfl
  rw [above, above, hFind, h.name, Option.map_map]
  refine congrArg (Prod.mk c.name) ?_
  cases hBuddy : c.findMethod? .init Interceptor.buddySignature with
  | none => rfl
  | some m =>
      have hm : m ∈ c.methods := List.mem_of_find?_eq_some hBuddy
      simp only [Option.map_some, Function.comp_apply, Method.ref, hKey m, hOwner m hm]

end

/-! ## Two classes -/

section

variable {s : Settings} {g g' : ClassGraph} {name : ClassName} {report : ClassReport}

/-- The class is put back as instrumentation leaves it, whatever the outcome. -/
theorem on_instrumentNamed {c : ClassDef} (s : Settings) (hFind : g.find? name = some c) :
    (instrumentNamed s name).on g = (((instrumentClass s (g.parent? c)).on c).1,
      g.modify name fun _ => ((instrumentClass s (g.parent? c)).on c).2) := by
  unfold instrumentNamed
  rw [Pass.on_get_bind]
  simp only [hFind, Pass.on_bind, Pass.on_set]
  split
  · next report hOn => rw [hOn]; rfl
  · next e hOn => rw [hOn]; rfl

private theorem instrumentNamed_eq_ok :
    (instrumentNamed s name).on g = (.ok report, g') ↔
      ∃ c c', g.find? name = some c ∧
        (instrumentClass s (g.parent? c)).on c = (.ok report, c') ∧
        g' = g.modify name fun _ => c' := by
  cases hFind : g.find? name with
  | none =>
      unfold instrumentNamed
      rw [Pass.on_get_bind]
      simp [hFind]
  | some c =>
      rw [on_instrumentNamed s hFind]
      constructor
      · intro h
        obtain ⟨hReport, hGraph⟩ := Prod.mk.inj h
        exact ⟨c, _, rfl, Prod.ext hReport rfl, hGraph.symm⟩
      · rintro ⟨d, c', hSame, hOn, rfl⟩
        obtain rfl := Option.some.inj hSame
        rw [hOn]

/-- The class of a name, when another one has been put in its place. -/
theorem find?_replace {c' : ClassDef} (hName : c'.name = name) (n : ClassName) :
    (g.modify name fun _ => c').find? n =
      if n = name then (g.find? n).map fun _ => c' else g.find? n :=
  find?_modify (fun _ _ => hName) n

/-- An instrumented class looks to the classes below as it did before. -/
theorem parent?_replace {c c' d : ClassDef} (hFind : g.find? name = some c)
    (hName : c'.name = name) (hAbove : above c' = above c) :
    ((g.modify name fun _ => c').parent? d).map above = (g.parent? d).map above := by
  rw [parent?, parent?]
  cases d.superclass with
  | none => rfl
  | some n =>
      rw [Option.bind_some, Option.bind_some, find?_replace hName]
      split
      · next hn =>
          rw [hn, hFind, Option.map_some, Option.map_some, Option.map_some, hAbove]
      · rfl

private theorem replace_comm {a b : ClassName} {ca cb : ClassDef} (hNe : a ≠ b) (ha : ca.name = a)
    (hb : cb.name = b) (g : ClassGraph) :
    ((g.modify a fun _ => ca).modify b fun _ => cb) =
      (g.modify b fun _ => cb).modify a fun _ => ca := by
  have hNe' : ¬ b = a := fun h => hNe h.symm
  simp only [ClassGraph.modify, mapClasses, List.map_map]
  congr 1
  refine List.map_congr_left fun c _ => ?_
  by_cases hca : c.name = a
  · simp [hca, ha, hNe]
  · by_cases hcb : c.name = b <;> simp [hca, hcb, hb, hNe']

/-- One of two classes, in the graph that the other one is instrumented in already. -/
theorem instrumentNamed_after {a b : ClassName} {ra : ClassReport} (hOwned : g.Owned)
    (hNe : a ≠ b) (ha : (instrumentNamed s a).on g = (.ok ra, g')) (cb : ClassDef) :
    (g'.find? b = some cb ↔ g.find? b = some cb) ∧
      instrumentClass s (g'.parent? cb) = instrumentClass s (g.parent? cb) := by
  obtain ⟨ca, ca', hFind, hOn, rfl⟩ := instrumentNamed_eq_ok.mp ha
  have hDone := instrumentClass_eq_ok hOn
  have hName : ca'.name = a := hDone.name.trans (name_of_find? hFind)
  refine ⟨?_, instrumentClass_congr ?_⟩
  · rw [find?_replace hName, if_neg hNe.symm]
  · exact parent?_replace hFind hName (hDone.above_eq (hOwned.find hFind))

/-- **Classes can be instrumented in any order.**  Two different classes, one of which may be the
superclass of the other: the reports are the same, and so is the program in the end. -/
theorem instrumentNamed_comm {a b : ClassName} (hOwned : g.Owned) (hNe : a ≠ b)
    {g₁ g₂ : ClassGraph} {ra rb : ClassReport}
    (ha : (instrumentNamed s a).on g = (.ok ra, g₁))
    (hb : (instrumentNamed s b).on g₁ = (.ok rb, g₂)) :
    ∃ g₁', (instrumentNamed s b).on g = (.ok rb, g₁') ∧
      (instrumentNamed s a).on g₁' = (.ok ra, g₂) := by
  obtain ⟨ca, ca', hFindA, hOnA, hGraphA⟩ := instrumentNamed_eq_ok.mp ha
  obtain ⟨cb, cb', hFindB, hOnB, rfl⟩ := instrumentNamed_eq_ok.mp hb
  obtain ⟨hThere, hSame⟩ := instrumentNamed_after hOwned hNe ha cb
  rw [hSame] at hOnB
  have hFirst : (instrumentNamed s b).on g = (.ok rb, g.modify b fun _ => cb') :=
    instrumentNamed_eq_ok.mpr ⟨cb, cb', hThere.mp hFindB, hOnB, rfl⟩
  obtain ⟨hThere', hSame'⟩ := instrumentNamed_after hOwned hNe.symm hFirst ca
  refine ⟨_, hFirst, instrumentNamed_eq_ok.mpr ⟨ca, ca', hThere'.mpr hFindA, ?_, ?_⟩⟩
  · rw [hSame']
    exact hOnA
  · have hNameA : ca'.name = a := (instrumentClass_eq_ok hOnA).name.trans (name_of_find? hFindA)
    have hNameB : cb'.name = b := (instrumentClass_eq_ok hOnB).name.trans (name_of_find? hFindB)
    rw [hGraphA]
    exact replace_comm hNe hNameA hNameB g

/-! ## All classes -/

/-- Instrument classes in order, each within the program as it is then, up to the first fault. -/
def instrumentEach (s : Settings) : List ClassName → Pass ClassGraph (List ClassReport)
  | [] => return []
  | name :: rest => do
      let report ← instrumentNamed s name
      return report :: (← instrumentEach s rest)

/-- A class is replaced where it stands. -/
theorem modify_split {front rest : List ClassDef} {c : ClassDef} (c' : ClassDef)
    (hNames : (ClassGraph.mk (front ++ c :: rest)).names.Nodup) :
    (ClassGraph.mk (front ++ c :: rest)).modify c.name (fun _ => c') = ⟨front ++ c' :: rest⟩ := by
  simp only [ClassGraph.names, List.map_append, List.map_cons] at hNames
  obtain ⟨_, hRest, hApart⟩ := List.nodup_append.mp hNames
  have hFront : ∀ d ∈ front, d.name ≠ c.name := fun d hd =>
    hApart d.name (List.mem_map_of_mem hd) c.name List.mem_cons_self
  have hBehind : ∀ d ∈ rest, d.name ≠ c.name := fun d hd hEq =>
    (List.nodup_cons.mp hRest).1 (hEq ▸ List.mem_map_of_mem hd)
  have hKeep : ∀ classes : List ClassDef, (∀ d ∈ classes, d.name ≠ c.name) →
      classes.map (fun d => if d.name = c.name then c' else d) = classes := by
    intro classes hOther
    refine (List.map_congr_left fun d hd => if_neg (hOther d hd)).trans (List.map_id' classes)
  simp only [ClassGraph.modify, mapClasses, List.map_append, List.map_cons, if_true,
    hKeep front hFront, hKeep rest hBehind]

/-- Class after class, from any point of the sweep on. -/
theorem on_instrumentEach (s : Settings) (hOwned : g.Owned) {rest : List ClassDef} :
    ∀ {front : List ClassDef}, (ClassGraph.mk (front ++ rest)).names.Nodup →
      (∀ c ∈ rest, c ∈ g.classes) →
      (∀ d, ((ClassGraph.mk (front ++ rest)).parent? d).map above = (g.parent? d).map above) →
      (instrumentEach s ((rest.filter Slots.selects).map (·.name))).on ⟨front ++ rest⟩ =
        ((sweepClasses Slots.selects (fun c => instrumentClass s (g.parent? c)) rest).1,
          ⟨front ++
            (sweepClasses Slots.selects (fun c => instrumentClass s (g.parent? c)) rest).2⟩) := by
  induction rest with
  | nil =>
      intro front _ _ _
      rfl
  | cons c rest ih =>
      intro front hNames hMem hAbove
      have hMem' : ∀ d ∈ rest, d ∈ g.classes := fun d hd => hMem d (List.mem_cons_of_mem c hd)
      cases hSelect : Slots.selects c with
      | false =>
          rw [List.append_cons] at hNames hAbove
          have hRest := ih hNames hMem' hAbove
          rw [List.filter_cons_of_neg (by simp [hSelect]), List.append_cons, hRest]
          simp [sweepClasses, hSelect]
      | true =>
          have hFind : (ClassGraph.mk (front ++ c :: rest)).find? c.name = some c :=
            find?_of_mem hNames (List.mem_append_right front List.mem_cons_self)
          rw [List.filter_cons_of_pos hSelect, List.map_cons, instrumentEach, Pass.on_bind,
            on_instrumentNamed s hFind, instrumentClass_congr (hAbove c), modify_split _ hNames]
          cases hOn : (instrumentClass s (g.parent? c)).on c with
          | mk answer c' =>
              cases answer with
              | error e => simp [sweepClasses, hSelect, hOn]
              | ok report =>
                  have hDone := instrumentClass_eq_ok hOn
                  have hOwn : c.Owned := hOwned c (hMem c List.mem_cons_self)
                  have hNames' : (ClassGraph.mk (front ++ [c'] ++ rest)).names.Nodup := by
                    simpa [ClassGraph.names, hDone.name] using hNames
                  have hAbove' : ∀ d,
                      ((ClassGraph.mk (front ++ [c'] ++ rest)).parent? d).map above =
                        (g.parent? d).map above := by
                    intro d
                    rw [← List.append_cons, ← modify_split c' hNames,
                      parent?_replace hFind hDone.name (hDone.above_eq hOwn), hAbove]
                  have hRest := ih hNames' hMem' hAbove'
                  rw [← List.append_cons] at hRest
                  simp only [Pass.on_bind, hRest, sweepClasses, hSelect, if_true, hOn]
                  cases (sweepClasses Slots.selects (fun c => instrumentClass s (g.parent? c))
                    rest).1 with
                  | error e => simp [Except.map]
                  | ok reports => simp [Except.map]

/-- **All classes are instrumented as they would be one after the other**, whatever the outcome. -/
theorem instrumentClasses_eq (s : Settings) (hOwned : g.Owned) (hNames : g.names.Nodup) :
    (instrumentClasses s).on g =
      (instrumentEach s ((g.classes.filter Slots.selects).map (·.name))).on g := by
  have hStart : (ClassGraph.mk ([] ++ g.classes)).names.Nodup := hNames
  unfold instrumentClasses
  rw [Pass.on_get_bind, on_sweep]
  exact (on_instrumentEach s hOwned hStart (fun _ h => h) fun _ => rfl).symm

end

/-- A class with a buddy constructor and a class below it. -/
def tower : ClassGraph := ⟨[
  { name := Genesis.screenName, kind := .library, access := { pub := true }
    subclasses := [Genesis.mainName] },
  { name := Genesis.mainName, kind := .program, access := { pub := true }
    superclass := some Genesis.screenName, subclasses := [Genesis.detailName]
    methods := [Genesis.plainConstructor Genesis.mainName Genesis.screenName,
      { Genesis.wormhole Genesis.mainName Genesis.screenName with role := .wormhole }] },
  { name := Genesis.detailName, kind := .program, access := { pub := true }
    superclass := some Genesis.mainName
    methods := [Genesis.plainConstructor Genesis.detailName Genesis.mainName] }]⟩

/-- The class above first, and the class below first. -/
theorem instrumentNamed_comm_tower :
    ∃ ra rb g₁ g₁' g₂, tower.Owned ∧
      tower.superclassOf Genesis.detailName = some Genesis.mainName ∧
      (instrumentNamed { mode := .light } Genesis.mainName).on tower = (.ok ra, g₁) ∧
      (instrumentNamed { mode := .light } Genesis.detailName).on g₁ = (.ok rb, g₂) ∧
      (instrumentNamed { mode := .light } Genesis.detailName).on tower = (.ok rb, g₁') ∧
      (instrumentNamed { mode := .light } Genesis.mainName).on g₁' = (.ok ra, g₂) := by
  have hOk :
      ((instrumentNamed { mode := .light } Genesis.mainName).on tower).1.isOk = true ∧
      ((instrumentNamed { mode := .light } Genesis.detailName).on
        ((instrumentNamed { mode := .light } Genesis.mainName).on tower).2).1.isOk = true := by
    unfold instrumentNamed instrumentClass assign
    rw [ordered_eq]
    decide +kernel
  obtain ⟨ra, hFirst⟩ := Pass.exists_on_eq_ok hOk.1
  obtain ⟨rb, hSecond⟩ := Pass.exists_on_eq_ok hOk.2
  have hOwned : tower.Owned := by decide +kernel
  obtain ⟨g₁', hb, ha⟩ := instrumentNamed_comm hOwned (by decide) hFirst hSecond
  exact ⟨ra, rb, _, g₁', _, hOwned, by decide +kernel, hFirst, hSecond, hb, ha⟩

end Instrument

end HotPatch
