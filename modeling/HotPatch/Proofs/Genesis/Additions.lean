import HotPatch.Proofs.Genesis.BuddyChain

/-!
# What the insertion changes in a class

Beside roles, visits give a class at most one method: a buddy constructor, to
an ancestor of components that has none (`Clothed`).  The moves change the
classes directly under a library class, and no others.  So the classes that
the insertion changes are known from the graph before it: `build_leaves_iff`.
-/

namespace HotPatch

namespace Method

private theorem addOnce_of_any {m : Method} {methods : List Method}
    (h : methods.any (·.isNamed m.name m.signature) = true) : m.addOnce methods = methods :=
  if_pos h

/-- A method is not added where one of its name and signature is. -/
theorem addOnce_eq_self_iff {m : Method} {methods : List Method} :
    m.addOnce methods = methods ↔ methods.any (·.isNamed m.name m.signature) = true := by
  refine ⟨fun h => ?_, addOnce_of_any⟩
  by_contra hNone
  rw [addOnce, if_neg hNone] at h
  simp at h

/-- A method is added at most once. -/
theorem addOnce_addOnce (m : Method) (methods : List Method) :
    m.addOnce (m.addOnce methods) = m.addOnce methods := by
  refine addOnce_of_any ?_
  by_cases hAny : methods.any (·.isNamed m.name m.signature) = true
  · rw [addOnce_of_any hAny, hAny]
  · rw [addOnce, if_neg hAny, List.any_append, List.any_cons, isNamed_iff.mpr ⟨rfl, rfl⟩]
    simp

end Method

namespace Genesis

open ClassGraph

/-! ## Methods of one class -/

/-- Methods with the buddy constructor of an ancestor. -/
def worn (name : ClassName) (superclass : Option ClassName) (methods : List Method) :
    List Method :=
  match superclass with
  | none => methods
  | some s => (wormhole name s).addOnce methods

private theorem worn_worn (name : ClassName) (superclass : Option ClassName)
    (methods : List Method) :
    worn name superclass (worn name superclass methods) = worn name superclass methods := by
  cases superclass with
  | none => rfl
  | some s => exact Method.addOnce_addOnce _ methods

private theorem map_withoutRole_dressed (roles : Roles) (c : ClassDef) (methods : List Method) :
    (dressed roles c methods).map Method.withoutRole =
      if roles.ancestor then worn c.name c.superclass (methods.map Method.withoutRole)
      else methods.map Method.withoutRole := by
  have hDirect : (if roles.direct then Method.giveRole (.void []) .componentDirect methods
      else methods).map Method.withoutRole = methods.map Method.withoutRole := by
    split
    · exact Method.map_withoutRole_giveRole _ _ methods
    · rfl
  rw [dressed, buddied]
  split
  · cases c.superclass with
    | none => exact hDirect
    | some s =>
        rw [withBuddy, Method.map_withoutRole_giveRole, Method.map_withoutRole_addOnce, hDirect]
        rfl
  · exact hDirect

/-- A class wears nothing new if it has no superclass, or a buddy constructor already. -/
theorem worn_eq_self_iff {c : ClassDef} :
    worn c.name c.superclass (c.methods.map Method.withoutRole) =
        c.methods.map Method.withoutRole ↔
      ∀ s, c.superclass = some s → c.findMethod? .init Interceptor.buddySignature ≠ none := by
  cases c.superclass with
  | none => exact ⟨nofun, fun _ => rfl⟩
  | some s =>
      have hAny : (c.methods.map Method.withoutRole).any
          (·.isNamed (wormhole c.name s).name (wormhole c.name s).signature) =
            (c.findMethod? .init Interceptor.buddySignature).isSome := by
        rw [Method.any_isNamed_withoutRole, ← List.isSome_find?]
        rfl
      rw [worn, Method.addOnce_eq_self_iff, hAny]
      simp [Option.isSome_iff_ne_none]

/-! ## Visits -/

/-- The methods of a class, without their roles. -/
def roleless? (g : ClassGraph) (n : ClassName) : Option (List Method) :=
  (g.methods? n).map (·.map Method.withoutRole)

private theorem roleless?_of_find? {g : ClassGraph} {n : ClassName} {c : ClassDef}
    (h : g.find? n = some c) : roleless? g n = some (c.methods.map Method.withoutRole) := by
  rw [roleless?, methods?_of_find? h, Option.map_some]

/-- What the visits so far have given to the classes of the graph, roles apart. -/
structure Clothed (g : ClassGraph) (done : ComponentType → ClassName → Prop) (site : Site) :
    Prop extends Surveyed g (fun t => ∃ component, done component t) site where
  given : ∀ {component n c}, g.find? n = some c → done component n →
    (c.marks.get component).ancestor = true →
    roleless? site.graph n = some (worn n c.superclass (c.methods.map Method.withoutRole))
  bare : ∀ {n c}, g.find? n = some c →
    (∀ component, done component n → (c.marks.get component).ancestor = false) →
    roleless? site.graph n = some (c.methods.map Method.withoutRole)

section

variable {g : ClassGraph} {done : ComponentType → ClassName → Prop} {site site' : Site}

/-- One visit: the class visited wears a buddy constructor if it is an ancestor. -/
theorem Grown.roleless?_visitClass (h : Grown g site) {component : ComponentType}
    {name n : ClassName} {c d : ClassDef} (hFind : g.find? name = some c)
    (hVisit : (visitClass component name).on site = (.ok (), site'))
    (hd : g.find? n = some d) :
    roleless? site'.graph n =
      if n = name ∧ (c.marks.get component).ancestor = true then
        (roleless? site.graph n).map (worn name c.superclass)
      else roleless? site.graph n := by
  obtain ⟨c', _, hFind', _, hSame⟩ := h.find hFind
  have hMarks : c'.marks = c.marks := by rw [hSame]
  have hSuper : c'.superclass = c.superclass := by rw [hSame]
  have hName : c'.name = name := name_of_find? hFind'
  obtain ⟨middle, hDressed, hNoted⟩ := visitClass_eq_ok hFind' hVisit
  have hMiddle := h.of_outline hDressed.outline hDressed.boundaries
  have hMethods : site'.graph.methods? n = middle.graph.methods? n := by
    rcases hNoted with ⟨rfl, _⟩ | ⟨parent, opened, _, _, hOpen, rfl⟩
    · rfl
    · exact hMiddle.methods_open hOpen hd
  rw [roleless?, roleless?, hMethods, hDressed.methods]
  by_cases hn : n = name
  · simp only [hn, if_true, true_and, Option.map_map, Function.comp_def, map_withoutRole_dressed,
      hMarks, hSuper, hName]
    split <;> rfl
  · simp only [hn, if_false, false_and]

/-- After the visits a class has the methods it had, with or without what it is to wear. -/
theorem Clothed.given_or_bare (h : Clothed g done site) {n : ClassName} {c : ClassDef}
    (hFind : g.find? n = some c) :
    roleless? site.graph n = some (worn n c.superclass (c.methods.map Method.withoutRole)) ∨
      roleless? site.graph n = some (c.methods.map Method.withoutRole) := by
  by_cases hSome : ∃ component, done component n ∧ (c.marks.get component).ancestor = true
  · obtain ⟨component, hDone, hAncestor⟩ := hSome
    exact .inl (h.given hFind hDone hAncestor)
  · refine .inr (h.bare hFind fun component hDone => ?_)
    rw [← Bool.not_eq_true]
    exact fun hAncestor => hSome ⟨component, hDone, hAncestor⟩

/-- A class that is visited puts on what it is to wear, and no other one does. -/
theorem Clothed.visitClass (h : Clothed g done site) (hRooted : Rooted g)
    {component : ComponentType} {name : ClassName} (hProgram : HasProgram g name)
    (hVisit : (visitClass component name).on site = (.ok (), site')) :
    Clothed g (alsoDone done component name) site' := by
  obtain ⟨c, hFind, _⟩ := id hProgram
  refine ⟨h.toSurveyed.alsoVisit hRooted hProgram hVisit, ?_, ?_⟩
  · intro component' n d hd hDone hAncestor
    rw [h.roleless?_visitClass hFind hVisit hd]
    split
    · next hThis =>
        obtain ⟨rfl, _⟩ := hThis
        obtain rfl := Option.some.inj (hFind.symm.trans hd)
        rcases h.given_or_bare hFind with hWas | hWas
        · rw [hWas, Option.map_some, worn_worn]
        · rw [hWas, Option.map_some]
    · next hOther =>
        rcases hDone with hDone | ⟨rfl, rfl⟩
        · exact h.given hd hDone hAncestor
        · obtain rfl := Option.some.inj (hFind.symm.trans hd)
          exact (hOther ⟨rfl, hAncestor⟩).elim
  · intro n d hd hNone
    rw [h.roleless?_visitClass hFind hVisit hd, if_neg]
    · exact h.bare hd fun component' hDone => hNone component' (.inl hDone)
    · rintro ⟨rfl, hAncestor⟩
      obtain rfl := Option.some.inj (hFind.symm.trans hd)
      rw [hNone component (.inr ⟨rfl, rfl⟩)] at hAncestor
      cases hAncestor

theorem Clothed.start (g : ClassGraph) : Clothed g (fun _ _ => False) { graph := g } where
  toSurveyed := (Surveyed.start g).congr fun t => by simp
  given := nofun
  bare := fun hFind _ => roleless?_of_find? hFind

/-- Visits leave the methods of a class alone, unless it is an ancestor of components that has a
superclass and no buddy constructor. -/
theorem Clothed.roleless?_eq_iff (h : Clothed g done site) {n : ClassName} {c : ClassDef}
    (hFind : g.find? n = some c) :
    roleless? site.graph n = some (c.methods.map Method.withoutRole) ↔
      ∀ component s, done component n → c.superclass = some s →
        (c.marks.get component).ancestor = true →
        c.findMethod? .init Interceptor.buddySignature ≠ none := by
  have hName := name_of_find? hFind
  by_cases hSome : ∃ component, done component n ∧ (c.marks.get component).ancestor = true
  · obtain ⟨component, hDone, hAncestor⟩ := hSome
    rw [h.given hFind hDone hAncestor, Option.some.injEq, ← hName, worn_eq_self_iff, hName]
    exact ⟨fun hHas _ s _ hs _ => hHas s hs, fun hHas s hs => hHas component s hDone hs hAncestor⟩
  · have hNone : ∀ component, done component n → ¬ (c.marks.get component).ancestor = true :=
      fun component hDone hAncestor => hSome ⟨component, hDone, hAncestor⟩
    have hBare := h.bare hFind fun component hDone =>
      Bool.eq_false_iff.mpr (hNone component hDone)
    exact ⟨fun _ component _ hDone _ hAncestor => (hNone component hDone hAncestor).elim,
      fun _ => hBare⟩

/-- Visits that all succeed leave every class they come to clothed. -/
theorem clothed_of_visitEach (hSync : InSync g) (hAcyclic : Acyclic g)
    {visits : List (ComponentType × ClassName)}
    (hVisit : (visitEach visits).on { graph := g } = (.ok (), site)) :
    Clothed g (VisitedFor g visits) site := by
  have hRun : Clothed g (fun component t => False ∨ VisitedFor g visits component t) site := by
    refine visitEach_induct (fun h hProgram hVisit => ?_) hSync hAcyclic ?_ (.start g) hVisit
    · exact h.visitClass hSync.rooted hProgram hVisit
    · intro _ _ h
      exact h.toGrown
  simpa only [false_or] using hRun

end

/-! ## The whole insertion -/

/-- The insertion changes the class: a walk from a platform class comes to it, and it is directly
under a library class or lacks the buddy constructor that ancestors of components get. -/
def Restructures (g : ClassGraph) (n : ClassName) : Prop :=
  ∃ component root c s, ComponentType.platformRoot? component = some root ∧
    Reached g component root n ∧ g.find? n = some c ∧ c.superclass = some s ∧
    (HasLibrary g s ∨ (c.marks.get component).ancestor = true ∧
      c.findMethod? .init Interceptor.buddySignature = none)

/-- A class of the program is restructured if a visit comes to it and it is at a boundary, or lacks
the buddy constructor that the classes below it need. -/
theorem restructures_iff {g : ClassGraph} {n : ClassName} {c : ClassDef}
    (hFind : g.find? n = some c) (hIs : c.isProgram = true) :
    Restructures g n ↔
      ∃ component s, VisitedFor g (rootVisits ComponentType.all) component n ∧
        c.superclass = some s ∧ (HasLibrary g s ∨ (c.marks.get component).ancestor = true ∧
          c.findMethod? .init Interceptor.buddySignature = none) := by
  constructor
  · rintro ⟨component, root, d, s, hRoot, hReached, hd, hs, hWhy⟩
    obtain rfl := Option.some.inj (hFind.symm.trans hd)
    exact ⟨component, s, ⟨⟨root, mem_rootVisits.mpr hRoot, hReached⟩, c, hFind, hIs⟩, hs, hWhy⟩
  · rintro ⟨component, s, ⟨⟨root, hMem, hReached⟩, _⟩, hs, hWhy⟩
    exact ⟨component, root, c, s, mem_rootVisits.mp hMem, hReached, hFind, hs, hWhy⟩

/-- **The insertion leaves a class of the program as it is, roles apart, unless it is one that it
restructures.** -/
theorem build_leaves_iff {g g' : ClassGraph} (hSync : InSync g) (hAcyclic : Acyclic g)
    {created : List ClassName} (hBuild : build.on g = (.ok created, g')) {n : ClassName}
    {c : ClassDef} (hFind : g.find? n = some c) (hIs : c.isProgram = true) :
    ∃ c', g'.find? n = some c' ∧ c'.stem = c.stem ∧
      (c'.superclass = c.superclass ∧
          c'.methods.map Method.withoutRole = c.methods.map Method.withoutRole ↔
        ¬ Restructures g n) := by
  have hFound : (g.find? n).isSome = true := Option.isSome_of_eq_some hFind
  have hSuper := superclassOf_of_find? hFind
  obtain ⟨site, hVisit, hFinish⟩ := build_eq_ok hBuild
  have hLaid : Laid site := siteAfter_of_visitEach hVisit ▸ laid_siteAfter _ _
  have h := clothed_of_visitEach hSync hAcyclic hVisit
  obtain ⟨_, hMoved⟩ := h.toSurveyed.finish hFinish
  have hStem : g'.stem? n = some c.stem := by
    rw [hMoved.stem, h.stem_eq hFound, stem?, hFind, Option.map_some]
  obtain ⟨c', hFind', hStem'⟩ := Option.map_eq_some_iff.mp hStem
  have hSuper' := superclassOf_of_find? hFind'
  refine ⟨c', hFind', hStem', ?_⟩
  rw [restructures_iff hFind hIs]
  by_cases hTop : ∃ component s, VisitedFor g (rootVisits ComponentType.all) component n ∧
      c.superclass = some s ∧ HasLibrary g s
  · obtain ⟨component, s, hVisited, hs, hLibrary⟩ := hTop
    have hBottom : IsBottom g (fun t => ∃ component, VisitedFor g _ component t) s :=
      ⟨⟨n, ⟨component, hVisited⟩, hSuper.trans hs⟩, hLibrary⟩
    have hNow := hMoved.below n s ⟨component, hVisited⟩ (hSuper.trans hs) hBottom
    refine ⟨fun hSame => ?_, fun hNot => (hNot ⟨component, s, hVisited, hs, .inl hLibrary⟩).elim⟩
    rw [hSuper', hSame.1, hs, Option.some.injEq] at hNow
    exact (genesisName_ne s hNow.symm).elim
  · have hStays : c'.superclass = c.superclass := by
      rw [← hSuper', hMoved.others, h.superclassOf_eq hFound, hSuper]
      rintro s ⟨component, hVisited⟩ hs hLibrary
      exact hTop ⟨component, s, hVisited, hSuper ▸ hs, hLibrary⟩
    have hKept : roleless? site.graph n = some (c'.methods.map Method.withoutRole) := by
      rcases hLaid.shifted_or_kept hFinish n with ⟨b, hb, hn, _⟩ | ⟨_, _, hMethods⟩
      · obtain ⟨⟨component, hVisited⟩, hs⟩ := (h.tops b hb n).mp hn
        have hBottom := (h.mem_bottoms _).mp (List.mem_map_of_mem hb)
        exact (hTop ⟨component, _, hVisited, hSuper ▸ hs, hBottom.2⟩).elim
      · rw [← roleless?_of_find? hFind', roleless?, roleless?, hMethods]
    have hIff := h.roleless?_eq_iff hFind
    rw [hKept, Option.some.injEq] at hIff
    rw [hIff]
    constructor
    · rintro ⟨_, hHas⟩ ⟨component, s, hVisited, hs, hLibrary | ⟨hAncestor, hNone⟩⟩
      · exact hTop ⟨component, s, hVisited, hs, hLibrary⟩
      · exact hHas component s hVisited hs hAncestor hNone
    · intro hNot
      refine ⟨hStays, fun component s hVisited hs hAncestor hNone => hNot ?_⟩
      exact ⟨component, s, hVisited, hs, .inr ⟨hAncestor, hNone⟩⟩

end Genesis

end HotPatch
