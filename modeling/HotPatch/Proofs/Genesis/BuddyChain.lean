import HotPatch.Proofs.Genesis.Dressing
import HotPatch.Proofs.Genesis.Moves
import HotPatch.Proofs.Program.ComponentMarks

/-!
# The chain of buddy constructors

The platform makes a component through the constructor it calls by itself,
and that one goes to the buddy constructor of the superclass.  From there the
call goes up, class by class, until the dispatcher of a genesis class picks a
constructor of the platform.

`BuddiesClosed` says that no such call goes nowhere.  It takes the marks, which
are given to whole chains at once; the visits, which give buddy constructors by
the marks; and the moves, which turn the calls of the topmost ones from the
library class to its genesis class.
-/

namespace HotPatch.Genesis

open ClassGraph Receiver

/-- All that the buddy constructor of an ancestor does. -/
def upCall (superclass : ClassName) : List Instruction :=
  [.invoke .direct .fixed [.p 0, .p 1] (Interceptor.buddyConstructor superclass), .returnVoid]

/-- The class has one buddy constructor, which only calls that of the direct superclass. -/
def PassesUp (g : ClassGraph) (name superclass : ClassName) : Prop :=
  ∃ c m, g.find? name = some c ∧ c.superclass = some superclass ∧
    c.namedMethods .init Interceptor.buddySignature = [m] ∧ m.role = .wormhole ∧
    m.body = some ⟨0, 2, upCall superclass, 0⟩

/-- The class is the genesis class of a library class, and its one buddy constructor dispatches. -/
def Dispatches (g : ClassGraph) (name : ClassName) : Prop :=
  ∃ c bottom m, g.find? name = some c ∧ c.isGenesis = true ∧ name = genesisName bottom ∧
    IsDispatcher bottom m ∧ c.namedMethods .init Interceptor.buddySignature = [m]

/-- From the buddy constructor of a class, calls lead up to a dispatcher. -/
inductive Climbs (g : ClassGraph) : ClassName → Prop where
  | here {name : ClassName} : Dispatches g name → Climbs g name
  | up {name superclass : ClassName} : PassesUp g name superclass → Climbs g superclass →
      Climbs g name

/-- The class declares a buddy constructor. -/
def DeclaresBuddy (g : ClassGraph) (name : ClassName) : Prop :=
  ∃ m, g.getMethod (Interceptor.buddyConstructor name) = .ok m

/-- No call of a buddy constructor goes nowhere, in the second graph; the first one has the
marks. -/
structure BuddiesClosed (g g' : ClassGraph) : Prop where
  ancestors : ∀ {component root name c}, component.platformRoot? = some root →
    Reached g component root name → g.find? name = some c → c.isProgram = true →
    (c.marks.get component).ancestor = true →
    ∃ s, PassesUp g' name s ∧ DeclaresBuddy g' s ∧ Climbs g' name
  components : ∀ {name c m}, g'.find? name = some c → c.isProgram = true → m ∈ c.methods →
    CalledByPlatform m → ∃ s, c.superclass = some s ∧ DeclaresBuddy g' s ∧ Climbs g' s

/-! ## Calls that move -/

/-- The call up is one on the receiver. -/
theorem callsUp_upCall {m : Method} (hConstructor : m.isConstructor = true) (s : ClassName) :
    CallsUp m (upCall s) 0 (Interceptor.buddyConstructor s) := by
  have hStates : states (upCall s) = .ok [some [.p 0], some []] := by
    have hSame : states (upCall s) = states (upCall (.of "")) := states_of_unowned rfl
    rw [hSame]
    decide +kernel
  exact .inr ⟨hConstructor, (_, _), analyze_eq_ok.mpr ⟨hStates, rfl⟩, List.mem_cons_self⟩

private theorem MovedMethod.upCall {m m' : Method} {old new : ClassName}
    (h : MovedMethod old new m m')
    (hConstructor : m.isConstructor = true) (hBody : m.body = some ⟨0, 2, upCall old, 0⟩) :
    m'.body = some ⟨0, 2, upCall new, 0⟩ := by
  obtain ⟨b', hBody', hMoved⟩ := h.body hBody
  have hFirst : b'.instructions[0]? = some (.invoke .direct .fixed [.p 0, .p 1]
      (Interceptor.buddyConstructor new)) :=
    hMoved.renamed (callsUp_upCall hConstructor old) rfl rfl
  have hSecond : b'.instructions[1]? = some .returnVoid := by
    rw [hMoved.same]
    · rfl
    · intro target hUp
      obtain ⟨_, _, _, hAt⟩ := hUp.invoke
      cases hAt
  obtain ⟨i, j, hTwo⟩ := List.length_eq_two.mp hMoved.length
  rw [hTwo] at hFirst hSecond
  cases hFirst
  cases hSecond
  rw [hBody', hMoved.sizes, hTwo]
  rfl

private theorem forall₂_buddies {old new : ClassName} {methods methods' : List Method}
    (h : List.Forall₂ (MovedMethod old new) methods methods') :
    List.Forall₂ (MovedMethod old new) (methods.filter isBuddy) (methods'.filter isBuddy) := by
  induction h with
  | nil => exact .nil
  | @cons m m' _ _ hFirst _ ih =>
      have hSame : isBuddy m' = isBuddy m := by
        rw [hFirst.frame]
        rfl
      rw [List.filter_cons, List.filter_cons, hSame]
      split
      · exact .cons hFirst ih
      · exact ih

/-! ## The whole insertion -/

/-- The visits that the insertion makes. -/
def rootVisits (components : List ComponentType) : List (ComponentType × ClassName) :=
  components.filterMap fun component =>
    component.platformRoot?.map fun root => (component, root)

/-- The components are visited from their platform classes. -/
theorem mem_rootVisits {component : ComponentType} {root : ClassName} :
    (component, root) ∈ rootVisits ComponentType.all ↔
      component.platformRoot? = some root := by
  rw [rootVisits, List.mem_filterMap]
  constructor
  · rintro ⟨component', _, hEntry⟩
    obtain ⟨root', hRoot, hEq⟩ := Option.map_eq_some_iff.mp hEntry
    cases hEq
    exact hRoot
  · intro hRoot
    refine ⟨component, by cases component <;> decide, ?_⟩
    rw [hRoot]
    rfl

/-- A platform class that is not there makes no difference. -/
theorem visit_of_absent {component : ComponentType} {root : ClassName} {site : Site}
    (h : site.graph.find? root = none) : (visit component root).on site = (.ok (), site) := by
  have hWalk : walk site.graph component root = [] := by
    rw [walk]
    cases site.graph.classes.length with
    | zero => rfl
    | succ depth => rw [walkWithin, h]
  rw [visit, Pass.on_get_bind, hWalk]
  rfl

/-- Visiting the platform classes is a list of visits. -/
theorem visitRoots_eq {components : List ComponentType} :
    ∀ site, (visitRoots components).on site = (visitEach (rootVisits components)).on site := by
  induction components with
  | nil =>
      intro site
      rfl
  | cons component rest ih =>
      intro site
      rw [visitRoots]
      cases hRoot : component.platformRoot? with
      | none =>
          have hSame : rootVisits (component :: rest) = rootVisits rest := by
            simp [rootVisits, hRoot]
          rw [hSame]
          exact ih site
      | some root =>
          have hSame : rootVisits (component :: rest) = (component, root) :: rootVisits rest := by
            simp [rootVisits, hRoot]
          rw [hSame, visitEach]
          simp only [Pass.on_get_bind]
          split
          · rw [Pass.on_bind, Pass.on_bind]
            simp only [ih]
          · next hAbsent =>
              rw [Pass.on_bind, visit_of_absent (Option.not_isSome_iff_eq_none.mp hAbsent)]
              exact ih site

/-- Building the hierarchy is visiting the platform classes, and then moving classes. -/
theorem build_eq_ok {g g' : ClassGraph} {created : List ClassName}
    (h : build.on g = (.ok created, g')) :
    ∃ site, (visitEach (rootVisits ComponentType.all)).on { graph := g } = (.ok (), site) ∧
      (finish site.boundaries).on site.graph = (.ok created, g') := by
  unfold build at h
  rw [Pass.on_get_bind] at h
  obtain ⟨_, middle, hSet, h⟩ := Pass.on_bind_eq_ok.mp h
  cases hSet
  split at h
  · cases h
  · next hVisit =>
      refine ⟨_, ?_, h⟩
      rw [← visitRoots_eq]
      exact Prod.ext hVisit rfl

/-- Visits that all succeed leave the site that visits of any outcome leave. -/
theorem siteAfter_of_visitEach {g : ClassGraph} {visits : List (ComponentType × ClassName)}
    {site : Site} (h : (visitEach visits).on { graph := g } = (.ok (), site)) :
    site = siteAfter g visits := by
  have hRun : ∀ (visits : List (ComponentType × ClassName)) (start : Site),
      (visitEach visits).on start = (.ok (), site) →
      site = visits.foldl (fun site v => ((visit v.1 v.2).on site).2) start := by
    intro visits
    induction visits with
    | nil =>
        intro start h
        cases h
        rfl
    | cons v rest ih =>
        intro start h
        obtain ⟨_, middle, hFirst, hRest⟩ := Pass.on_bind_eq_ok.mp h
        rw [List.foldl_cons, hFirst]
        exact ih middle hRest
  exact hRun visits _ h

/-- Above a class that a walk reaches there is one, unless the walk starts here. -/
theorem Reached.parent {g : ClassGraph} (hSync : InSync g) {component : ComponentType}
    {root n : ClassName} (h : Reached g component root n) :
    n = root ∨ ∃ s, g.superclassOf n = some s ∧ Reached g component root s := by
  induction h with
  | here _ _ => exact .inl rfl
  | @through root child name c hFind hOn hChild _ ih =>
      right
      rcases ih with rfl | ⟨s, hs, hReached⟩
      · exact ⟨root, hSync.down hFind hChild, .here hFind hOn⟩
      · exact ⟨s, hs, .through hFind hOn hChild hReached⟩

/-! ## After the moves -/

section

variable {g g' : ClassGraph} {site : Site} {created : List ClassName}
  {done : ComponentType → ClassName → Prop}

/-- A class is moved with all of its methods, or it is at no boundary and stays. -/
theorem Laid.shifted_or_kept (hLaid : Laid site)
    (hFinish : (finish site.boundaries).on site.graph = (.ok created, g')) (n : ClassName) :
    (∃ b ∈ site.boundaries, n ∈ b.tops ∧ Shifted b.bottom b.genesis true site.graph g' n) ∨
      (∀ b ∈ site.boundaries, n ∉ b.tops) ∧ Kept site.graph g' n := by
  obtain ⟨hSettled, hKept, _⟩ :=
    finish_settles (fun b hb => (hLaid.stands b hb).once) hLaid.apart hFinish
  by_cases hTop : ∃ b ∈ site.boundaries, n ∈ b.tops
  · obtain ⟨b, hb, hn⟩ := hTop
    rcases hSettled b hb n hn with hShifted | ⟨_, hStopped⟩
    · exact .inl ⟨b, hb, hn, hShifted⟩
    · cases hStopped
  · have hNone : ∀ b ∈ site.boundaries, n ∉ b.tops := fun b hb hn => hTop ⟨b, hb, hn⟩
    exact .inr ⟨hNone, hKept n hNone⟩

/-- A class that moves has the methods it had, each retargeted. -/
theorem Stands.forall₂ {b : Boundary} {n : ClassName} {methods' : List Method}
    (hStands : Stands site.graph b) (h : Shifted b.bottom b.genesis true site.graph g' n)
    (hMethods' : g'.methods? n = some methods') :
    ∃ methods, site.graph.methods? n = some methods ∧
      List.Forall₂ (MovedMethod b.bottom b.genesis) methods methods' := by
  obtain ⟨_, methods, hMethods, hNow, hOk⟩ := h
  obtain rfl := Option.some.inj (hNow.symm.trans hMethods')
  have hNe : b.genesis ≠ b.bottom := by
    rw [hStands.named]
    exact genesisName_ne b.bottom
  exact ⟨methods, hMethods, forall₂_retargetMethods hNe (hOk rfl)⟩

/-- Moves make no constructor one that the platform calls. -/
theorem Laid.called_before (hLaid : Laid site)
    (hFinish : (finish site.boundaries).on site.graph = (.ok created, g')) {n : ClassName}
    {methods' : List Method} {m' : Method} (hMethods' : g'.methods? n = some methods')
    (hm' : m' ∈ methods') (hCalled : CalledByPlatform m') :
    ∃ methods m, site.graph.methods? n = some methods ∧ m ∈ methods ∧ CalledByPlatform m := by
  rcases hLaid.shifted_or_kept hFinish n with ⟨b, hb, _, hShifted⟩ | ⟨_, _, hSame⟩
  · obtain ⟨methods, hMethods, hMoved⟩ := (hLaid.stands b hb).forall₂ hShifted hMethods'
    obtain ⟨m, hm, hFirst⟩ := exists_left_of_forall₂ hMoved hm'
    rw [hFirst.frame] at hCalled
    exact ⟨methods, m, hMethods, hm, hCalled⟩
  · exact ⟨methods', m', hSame ▸ hMethods', hm', hCalled⟩

private theorem namedMethods_of_buddies? {n : ClassName} {c : ClassDef} {methods : List Method}
    (hFind : g.find? n = some c) (h : buddies? g n = some methods) :
    c.namedMethods .init Interceptor.buddySignature = methods := by
  rw [buddies?, methods?_of_find? hFind, Option.map_some, Option.some.injEq] at h
  exact h

/-- A buddy constructor that passes the call up does so after the moves, to where the class is. -/
theorem Laid.passesUp (hLaid : Laid site)
    (hFinish : (finish site.boundaries).on site.graph = (.ok created, g')) {n s : ClassName}
    (hSuper : site.graph.superclassOf n = some s)
    (hBuddies : buddies? site.graph n = some [passUp n s]) : ∃ s', PassesUp g' n s' := by
  rcases hLaid.shifted_or_kept hFinish n with ⟨b, hb, hn, hShifted⟩ | ⟨_, hSame, hMethods⟩
  · obtain ⟨c, hFind, _, hBottom⟩ := (hLaid.stands b hb).tops n hn
    rw [superclassOf_of_find? hFind, hBottom, Option.some.injEq] at hSuper
    subst hSuper
    obtain ⟨c', hFind', hSuper'⟩ := find?_of_superclassOf hShifted.1
    obtain ⟨methods, hMethods, hMoved⟩ :=
      (hLaid.stands b hb).forall₂ hShifted (methods?_of_find? hFind')
    have hFilter := forall₂_buddies hMoved
    rw [buddies?, hMethods, Option.map_some, Option.some.injEq] at hBuddies
    rw [hBuddies] at hFilter
    obtain ⟨m', rest, hFirst, hRest, hEq⟩ := List.forall₂_cons_left_iff.mp hFilter
    cases hRest
    refine ⟨b.genesis, c', m', hFind', hSuper', hEq, ?_, hFirst.upCall rfl rfl⟩
    rw [hFirst.frame]
    rfl
  · obtain ⟨c', hFind', hSuper'⟩ := find?_of_superclassOf (hSame.trans hSuper)
    have hBuddies' := (buddies?_congr hMethods).trans hBuddies
    exact ⟨s, c', passUp n s, hFind', hSuper', namedMethods_of_buddies? hFind' hBuddies', rfl, rfl⟩

private theorem PassesUp.declares {n s : ClassName} (h : PassesUp g' n s) : DeclaresBuddy g' n := by
  obtain ⟨c, m, hFind, _, hNamed, _⟩ := h
  refine ⟨m, getMethod_of_find? hFind ?_⟩
  exact (ClassDef.findMethod?_eq_head? c _ _).trans (congrArg List.head? hNamed)

private theorem Dispatches.declares {n : ClassName} (h : Dispatches g' n) : DeclaresBuddy g' n := by
  obtain ⟨c, _, m, hFind, _, _, _, hNamed⟩ := h
  refine ⟨m, getMethod_of_find? hFind ?_⟩
  exact (ClassDef.findMethod?_eq_head? c _ _).trans (congrArg List.head? hNamed)

/-- The genesis classes dispatch.  They are at no boundary themselves, so no move changes them. -/
theorem Equipped.dispatches_of_finish (h : Equipped g done site) (hLaid : Laid site)
    (hFinish : (finish site.boundaries).on site.graph = (.ok created, g')) {b : Boundary}
    (hb : b ∈ site.boundaries) : Dispatches g' b.genesis := by
  obtain ⟨m, hDispatcher, hBuddies⟩ := h.dispatches b hb
  have hBottom := (h.mem_bottoms _).mp (List.mem_map_of_mem hb)
  obtain ⟨_, hMoved⟩ := h.toSurveyed.finish hFinish
  obtain ⟨c, hFind, _, hGenesis, _⟩ := hMoved.exists_genesis h.toSurveyed hBottom
  rw [← (hLaid.stands b hb).named] at hFind
  have hMethods : g'.methods? b.genesis = site.graph.methods? b.genesis := by
    rcases hLaid.shifted_or_kept hFinish b.genesis with ⟨b', hb', hn, _⟩ | ⟨_, _, hSame⟩
    · obtain ⟨_, d, _, _, hd, hIs, _⟩ := (hLaid.stands b hb).ends
      have hOwn := ((hLaid.stands b' hb').tops _ hn).isOwn hd
      simp [ClassDef.isOwn, hIs] at hOwn
    · exact hSame
  exact ⟨c, b.bottom, m, hFind, hGenesis, (hLaid.stands b hb).named, hDispatcher,
    namedMethods_of_buddies? hFind ((buddies?_congr hMethods).trans hBuddies)⟩

/-! ## The way up -/

section

variable {visits : List (ComponentType × ClassName)}

/-- A class that is visited has a superclass, and the walk has come through it: walks start at
library classes. -/
theorem VisitedFor.parent (hSync : InSync g)
    (hRoots : ∀ v ∈ visits, ∀ c, g.find? v.2 = some c → c.isLibrary = true)
    {component : ComponentType} {n : ClassName} (h : VisitedFor g visits component n) :
    ∃ root s, (component, root) ∈ visits ∧ g.superclassOf n = some s ∧
      Reached g component root s := by
  obtain ⟨⟨root, hMem, hReached⟩, c, hFind, hProgram⟩ := h
  rcases hReached.parent hSync with rfl | ⟨s, hs, hReached'⟩
  · have hLibrary := hRoots _ hMem c hFind
    rw [ClassDef.isProgram, beq_iff_eq] at hProgram
    rw [ClassDef.isLibrary, hProgram] at hLibrary
    cases hLibrary
  · exact ⟨root, s, hMem, hs, hReached'⟩

/-- Above a class with a role stand ancestors only. -/
def MarkedUp (g : ClassGraph) : Prop :=
  ∀ {component n s c d}, g.find? n = some c → g.superclassOf n = some s → g.find? s = some d →
    (c.marks.get component).direct = true ∨ (c.marks.get component).ancestor = true →
    (d.marks.get component).ancestor = true

/-- Whatever a walk comes to is declared or above something declared. -/
theorem Reached.marked {component : ComponentType} {root n : ClassName}
    (h : Reached g component root n) :
    ∃ c, g.find? n = some c ∧
      ((c.marks.get component).direct = true ∨ (c.marks.get component).ancestor = true) := by
  obtain ⟨c, hFind, hOn⟩ := h.onWalk
  simp only [Genesis.onWalk, Bool.and_eq_true, Bool.or_eq_true] at hOn
  exact ⟨c, hFind, hOn.1.1⟩

/-- An ancestor of components passes the call up when it was visited. -/
theorem Equipped.passesUp_of_finish (h : Equipped g (VisitedFor g visits) site) (hLaid : Laid site)
    (hFinish : (finish site.boundaries).on site.graph = (.ok created, g')) (hSync : InSync g)
    (hRoots : ∀ v ∈ visits, ∀ c, g.find? v.2 = some c → c.isLibrary = true)
    {component : ComponentType} {n : ClassName} {c : ClassDef}
    (hVisited : VisitedFor g visits component n) (hFind : g.find? n = some c)
    (hAncestor : (c.marks.get component).ancestor = true) : ∃ s, PassesUp g' n s := by
  obtain ⟨_, s, _, hs, _⟩ := hVisited.parent hSync hRoots
  have hSuper : c.superclass = some s := by rw [← superclassOf_of_find? hFind, hs]
  refine hLaid.passesUp hFinish ?_ (h.passes hFind hSuper hVisited hAncestor)
  rw [h.superclassOf_eq (Option.isSome_of_eq_some hFind), hs]

/-- A class passes its arguments up to its superclass. -/
theorem PassesUp.superclassOf {n s : ClassName} (h : PassesUp g' n s) :
    g'.superclassOf n = some s := by
  obtain ⟨c, _, hFind, hSuper, _⟩ := h
  rw [superclassOf_of_find? hFind, hSuper]

/-- **Above a class that is visited, the buddy constructors climb to a dispatcher.**  The induction
is on the chain above the class in the graph of before. -/
theorem Equipped.climbs (h : Equipped g (VisitedFor g visits) site) (hLaid : Laid site)
    (hFinish : (finish site.boundaries).on site.graph = (.ok created, g')) (hSync : InSync g)
    (hRoots : ∀ v ∈ visits, ∀ c, g.find? v.2 = some c → c.isLibrary = true)
    (hMarked : MarkedUp g) {n : ClassName} {chain : List ClassName} (hLineage : Lineage g n chain) :
    ∀ {component : ComponentType}, VisitedFor g visits component n →
      ∃ s, g'.superclassOf n = some s ∧ DeclaresBuddy g' s ∧ Climbs g' s := by
  induction hLineage with
  | top hNone =>
      intro component hVisited
      obtain ⟨_, s, _, hs, _⟩ := hVisited.parent hSync hRoots
      rw [hNone] at hs
      cases hs
  | @under n s chain hs _ ih =>
      intro component hVisited
      obtain ⟨root, s', hRoot, hs', hReached⟩ := hVisited.parent hSync hRoots
      obtain rfl := Option.some.inj (hs.symm.trans hs')
      rcases hLaid.shifted_or_kept hFinish n with ⟨b, hb, _, hShifted⟩ | ⟨hNoTop, hSame, _⟩
      · have hDispatches := h.dispatches_of_finish hLaid hFinish hb
        exact ⟨b.genesis, hShifted.1, hDispatches.declares, .here hDispatches⟩
      · have hNotLibrary : ¬ HasLibrary g s := by
          intro hLibrary
          have hBottom : IsBottom g (fun t => ∃ component, VisitedFor g visits component t) s :=
            ⟨⟨n, ⟨component, hVisited⟩, hs⟩, hLibrary⟩
          obtain ⟨b, hb, rfl⟩ := List.mem_map.mp ((h.mem_bottoms s).mpr hBottom)
          exact hNoTop b hb ((h.tops b hb n).mpr ⟨⟨component, hVisited⟩, hs⟩)
        obtain ⟨d, hd, _⟩ := hReached.marked
        have hProgram : d.isProgram = true := by
          cases hKind : d.kind with
          | program => simp [ClassDef.isProgram, hKind]
          | library => exact (hNotLibrary ⟨d, hd, by simp [ClassDef.isLibrary, hKind]⟩).elim
        have hVisited' : VisitedFor g visits component s :=
          ⟨⟨root, hRoot, hReached⟩, d, hd, hProgram⟩
        obtain ⟨⟨_, _, hReached'⟩, _⟩ := hVisited
        obtain ⟨c, hc, hRole⟩ := hReached'.marked
        obtain ⟨s₂, hPasses⟩ := h.passesUp_of_finish hLaid hFinish hSync hRoots hVisited' hd
          (hMarked hc hs hd hRole)
        obtain ⟨s₃, hs₃, _, hClimbs⟩ := ih hVisited'
        obtain rfl := Option.some.inj (hPasses.superclassOf.symm.trans hs₃)
        refine ⟨s, ?_, hPasses.declares, .up hPasses hClimbs⟩
        rw [hSame, h.superclassOf_eq (Option.isSome_of_eq_some hc), hs]

end

end

/-- Marks as declarations give them go up. -/
theorem markedUp_mark {g : ClassGraph} (hSync : InSync g) (hAcyclic : Acyclic g)
    (hMarks : ∀ n c, g.find? n = some c → c.marks = .none) (m : Manifest) :
    MarkedUp (Manifest.mark g m).2 := by
  intro component n s c d hc hs hd hRole
  rw [Manifest.get_mark_eq hMarks hd]
  rw [Manifest.get_mark_eq hMarks hc] at hRole
  rw [(Manifest.remarked_mark m g).superclassOf] at hs
  exact Manifest.ancestor_roles hSync.rooted hAcyclic hs hRole

/-- Nothing but marks has changed before the visits. -/
theorem equipped_mark {g : ClassGraph}
    (hRoles : ∀ c ∈ g.classes, ∀ m ∈ c.methods, m.isConstructor = true → m.role = .plain)
    (hBuddies : ∀ c ∈ g.classes, c.findMethod? .init Interceptor.buddySignature = none)
    (manifest : Manifest) :
    Equipped (manifest.mark g).2 (fun _ _ => False) { graph := (manifest.mark g).2 } := by
  have hRemarked := Manifest.remarked_mark manifest g
  refine Equipped.start (fun n c' hc' => ?_) fun n c' hc' m hm hCalled => ?_
  · obtain ⟨marks, hc⟩ := hRemarked.symm.find hc'
    have hNone := hBuddies _ (List.mem_of_find?_eq_some hc)
    rw [ClassDef.findMethod?, List.find?_eq_none] at hNone
    exact List.filter_eq_nil_iff.mpr hNone
  · obtain ⟨marks, hc⟩ := hRemarked.symm.find hc'
    have hPlain := hRoles _ (List.mem_of_find?_eq_some hc) m hm hCalled.1
    rw [hCalled.2] at hPlain
    cases hPlain

/-- **The chain of buddy constructors is closed.**  For any manifest, after the marks and an
insertion that succeeds, in a graph without cycles that has had neither marks nor roles nor buddy
constructors, and in which the platform classes of components belong to the library. -/
theorem buddiesClosed_of_build {g g' : ClassGraph} (hSync : InSync g) (hAcyclic : Acyclic g)
    (hMarks : ∀ c ∈ g.classes, c.marks = .none)
    (hRoles : ∀ c ∈ g.classes, ∀ m ∈ c.methods, m.isConstructor = true → m.role = .plain)
    (hBuddies : ∀ c ∈ g.classes, c.findMethod? .init Interceptor.buddySignature = none)
    (hRoots : ∀ component root c, ComponentType.platformRoot? component = some root →
      g.find? root = some c → c.isLibrary = true)
    {manifest : Manifest} {created : List ClassName}
    (hBuild : build.on (manifest.mark g).2 = (.ok created, g')) :
    BuddiesClosed (manifest.mark g).2 g' := by
  have hRemarked := Manifest.remarked_mark manifest g
  have hSync' := hRemarked.inSync hSync
  have hAcyclic' := hRemarked.acyclic hAcyclic
  have hMember : ∀ {n c}, g.find? n = some c → c ∈ g.classes := List.mem_of_find?_eq_some
  obtain ⟨site, hVisit, hFinish⟩ := build_eq_ok hBuild
  have hLaid : Laid site := siteAfter_of_visitEach hVisit ▸ laid_siteAfter _ _
  have hStart := equipped_mark hRoles hBuddies manifest
  have hEquipped : Equipped (manifest.mark g).2
      (VisitedFor (manifest.mark g).2 (rootVisits ComponentType.all)) site := by
    refine (hStart.visitEach hSync' hAcyclic' hVisit).congr fun component t => ?_
    rw [false_or]
  have hLibrary : ∀ v ∈ rootVisits ComponentType.all, ∀ c,
      (manifest.mark g).2.find? v.2 = some c → c.isLibrary = true := by
    rintro ⟨component, root⟩ hv c hc
    obtain ⟨marks, hc⟩ := hRemarked.symm.find hc
    have hIs := hRoots component root _ (mem_rootVisits.mp hv) hc
    exact hIs
  have hMarked : MarkedUp (manifest.mark g).2 :=
    markedUp_mark hSync hAcyclic (fun n c hc => hMarks c (hMember hc)) manifest
  have hClimbs : ∀ {component n}, VisitedFor (manifest.mark g).2 (rootVisits ComponentType.all)
      component n → ∃ s, g'.superclassOf n = some s ∧ DeclaresBuddy g' s ∧ Climbs g' s := by
    intro component n hVisited
    obtain ⟨chain, hChain⟩ := exists_lineage hSync'.rooted hAcyclic' n
    exact hEquipped.climbs hLaid hFinish hSync' hLibrary hMarked hChain hVisited
  refine ⟨fun {component root name c} hRoot hReached hFind hProgram hAncestor => ?_,
    fun {name c m} hFind _ hm hCalled => ?_⟩
  · have hVisited : VisitedFor (manifest.mark g).2 (rootVisits ComponentType.all) component name :=
      ⟨⟨root, mem_rootVisits.mpr hRoot, hReached⟩, c, hFind, hProgram⟩
    obtain ⟨s, hPasses⟩ := hEquipped.passesUp_of_finish hLaid hFinish hSync' hLibrary hVisited
      hFind hAncestor
    obtain ⟨s', hs', hDeclares, hClimb⟩ := hClimbs hVisited
    obtain rfl := Option.some.inj (hPasses.superclassOf.symm.trans hs')
    exact ⟨s, hPasses, hDeclares, .up hPasses hClimb⟩
  · obtain ⟨methods, m₀, hMethods, hm₀, hCalled₀⟩ :=
      hLaid.called_before hFinish (methods?_of_find? hFind) hm hCalled
    obtain ⟨component, hVisited⟩ := hEquipped.called hMethods hm₀ hCalled₀
    obtain ⟨s, hs, hDeclares, hClimb⟩ := hClimbs hVisited
    exact ⟨s, by rw [← superclassOf_of_find? hFind, hs], hDeclares, hClimb⟩

/-- The lower one of two components, and a screen above it that is none. -/
def detailOnly : Manifest := [(.activity, detailName)]

/-- The screens before they are marked. -/
def bareScreens : ClassGraph := screens.mapClasses ClassDef.unmarked

/-- The class between the component and the platform passes the call up. -/
theorem buddiesClosed_of_build_screens :
    ∃ g', InSync bareScreens ∧ Acyclic bareScreens ∧
      build.on (detailOnly.mark bareScreens).2 = (.ok [genesisName screenName], g') ∧
      BuddiesClosed (detailOnly.mark bareScreens).2 g' ∧
      ∃ s, PassesUp g' mainName s ∧ DeclaresBuddy g' s ∧ Climbs g' mainName := by
  have hSync : InSync bareScreens := by decide +kernel
  have hAcyclic : Acyclic bareScreens := by decide +kernel
  have hAnswer : (build.on (detailOnly.mark bareScreens).2).1 =
      .ok [genesisName screenName] := by decide +kernel
  have hBuild : build.on (detailOnly.mark bareScreens).2 =
      (.ok [genesisName screenName], (build.on (detailOnly.mark bareScreens).2).2) :=
    Prod.ext hAnswer rfl
  have hRoots : ∀ component ∈ ComponentType.all, ∀ root ∈ component.platformRoot?,
      ∀ c ∈ bareScreens.find? root, c.isLibrary = true := by decide +kernel
  have hClosed : BuddiesClosed (detailOnly.mark bareScreens).2
      (build.on (detailOnly.mark bareScreens).2).2 := by
    refine buddiesClosed_of_build hSync hAcyclic (by decide +kernel) (by decide +kernel)
      (by decide +kernel) (fun component root c hRoot hFind => ?_) hBuild
    exact hRoots component (by cases component <;> decide) root hRoot c hFind
  have hScreen : ∃ c ∈ (detailOnly.mark bareScreens).2.find? screenName,
      onWalk .activity c = true ∧ mainName ∈ c.subclasses := by decide +kernel
  have hMain : ∃ c ∈ (detailOnly.mark bareScreens).2.find? mainName, onWalk .activity c = true ∧
      c.isProgram = true ∧ (c.marks.get .activity).ancestor = true := by decide +kernel
  obtain ⟨d, hd, hOn, hBelow⟩ := hScreen
  obtain ⟨c, hc, hOn', hProgram, hAncestor⟩ := hMain
  have hReached : Reached (detailOnly.mark bareScreens).2 .activity screenName mainName :=
    .through hd hOn hBelow (.here hc hOn')
  have hRoot : ComponentType.platformRoot? .activity = some screenName := rfl
  exact ⟨_, hSync, hAcyclic, hBuild, hClosed,
    hClosed.ancestors hRoot hReached hc hProgram hAncestor⟩

end HotPatch.Genesis
