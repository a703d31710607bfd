import HotPatch.Genesis.Hierarchy
import HotPatch.Proofs.Program.Operations
import HotPatch.Proofs.Program.Passes

/-!
# The steps of the insertion

What each step of visiting and moving classes does to the outlines and methods
of the graph and to the boundaries, when it succeeds.  All theorems about the
insertion are derived from these.
-/

namespace HotPatch.Genesis

open ClassGraph

/-- A change of the graph leaves the boundaries alone. -/
theorem onGraph_eq_ok {change : ClassGraph → Except GraphError ClassGraph} {site site' : Site} :
    (onGraph change).on site = (.ok (), site') ↔
      ∃ g', change site.graph = .ok g' ∧ site' = { site with graph := g' } := by
  rw [onGraph, Pass.on_atomic_eq_ok]
  cases change site.graph with
  | error e => simp [Except.map]
  | ok g' => simp [Except.map, eq_comm]

/-! ## Genesis classes -/

private theorem outline_declareAll {methods : List Method} :
    ∀ {c c' : ClassDef}, declareAll c methods = .ok c' → c'.outline = c.outline := by
  induction methods with
  | nil =>
      intro c c' h
      cases h
      rfl
  | cons m rest ih =>
      intro c c' h
      unfold declareAll at h
      rw [List.foldlM_cons] at h
      cases hAdd : c.addMethod m with
      | error e => rw [hAdd] at h; cases h
      | ok c₁ =>
          rw [hAdd] at h
          exact (ih h).trans (outline_addMethod hAdd)

/-- Whatever methods a genesis class gets, its outline is that of the bare class. -/
theorem outline_genesisClass {g : ClassGraph} {component : ComponentType} {bottom c : ClassDef}
    (h : genesisClass g component bottom = .ok c) :
    c.outline = (bareClass component bottom.name).outline := by
  unfold genesisClass at h
  cases hMethods : synthesize g bottom with
  | error e => rw [hMethods] at h; cases h
  | ok methods =>
      cases hDeclare : declareAll (bareClass component bottom.name) methods with
      | error e => simp [hMethods, hDeclare, bind, Except.bind, Except.mapError] at h
      | ok c' =>
          simp only [hMethods, hDeclare, bind, Except.bind, Except.mapError, pure,
            Except.pure, Except.ok.injEq] at h
          subst h
          have hRole : (c'.modifyMethod .init Interceptor.buddySignature fun m =>
              { m with role := .wormhole }).outline = c'.outline := rfl
          exact hRole.trans (outline_declareAll hDeclare)

/-- Different classes have different genesis classes. -/
theorem genesisName_injective {a b : ClassName} (h : genesisName a = genesisName b) : a = b := by
  have hText : a.text ++ suffix = b.text ++ suffix := congrArg ClassName.text h
  have hList := congrArg String.toList hText
  rw [String.toList_append, String.toList_append] at hList
  have hEq : a.text = b.text := String.toList_inj.mp (List.append_cancel_right hList)
  exact ClassName.ext hEq

/-! ## Visits -/

/-- The methods of one class change, and nothing else. -/
structure Redressed (name : ClassName) (change : List Method → List Method) (site site' : Site) :
    Prop where
  outline : ∀ n, site'.graph.outline? n = site.graph.outline? n
  methods : ∀ n, site'.graph.methods? n =
    if n = name then (site.graph.methods? n).map change else site.graph.methods? n
  boundaries : site'.boundaries = site.boundaries

theorem Redressed.refl (name : ClassName) (site : Site) : Redressed name id site site where
  outline := fun _ => rfl
  methods := fun n => by simp
  boundaries := rfl

theorem Redressed.trans {name : ClassName} {change change' : List Method → List Method}
    {site site' site'' : Site} (h : Redressed name change site site')
    (h' : Redressed name change' site' site'') :
    Redressed name (fun methods => change' (change methods)) site site'' where
  outline := fun n => (h'.outline n).trans (h.outline n)
  methods := fun n => by
    rw [h'.methods, h.methods]
    split
    · rw [Option.map_map]
      rfl
    · rfl
  boundaries := h'.boundaries.trans h.boundaries

private theorem setRole_eq_ok {name : ClassName} {signature : Signature} {role : ConstructorRole}
    {site site' : Site} (h : (setRole name signature role).on site = (.ok (), site')) :
    Redressed name (Method.giveRole signature role) site site' := by
  obtain ⟨g', hChange, rfl⟩ := onGraph_eq_ok.mp h
  cases hChange
  refine ⟨fun n => ?_, methods?_giveRole site.graph name signature role, rfl⟩
  apply outline?_modify_methods
  intro _
  rfl

/-- The methods of a class with a buddy constructor. -/
def withBuddy (name : ClassName) (superclass : Option ClassName) (methods : List Method) :
    List Method :=
  match superclass with
  | none => methods
  | some s => Method.giveRole Interceptor.buddySignature .wormhole
      ((wormhole name s).addOnce methods)

private theorem addWormhole_eq_ok {c : ClassDef} {site site' : Site}
    (h : (addWormhole c).on site = (.ok (), site')) :
    Redressed c.name (withBuddy c.name c.superclass) site site' := by
  unfold addWormhole at h
  split at h
  · next hNone =>
      cases h
      rw [hNone]
      exact Redressed.refl c.name site
  · next s hSome =>
      obtain ⟨_, middle, hAdd, hRole⟩ := Pass.on_bind_eq_ok.mp h
      obtain ⟨g', hMethod, rfl⟩ := onGraph_eq_ok.mp hAdd
      have hAdded : Redressed c.name (wormhole c.name s).addOnce site { site with graph := g' } :=
        ⟨outline?_addMethod hMethod, methods?_addMethod hMethod, rfl⟩
      rw [hSome]
      exact hAdded.trans (setRole_eq_ok hRole)

/-- A boundary is there, and its genesis class gets more marks; or it is made. -/
theorem openBoundary_eq_ok {component : ComponentType} {bottom : ClassDef} {site site' : Site}
    (h : (openBoundary component bottom).on site = (.ok (), site')) :
    (∃ b ∈ site.boundaries, b.bottom = bottom.name ∧ site'.boundaries = site.boundaries ∧
        site'.graph = site.graph.modify b.genesis fun c =>
          { c with marks := c.marks.mark component genesisRoles }) ∨
      ((∀ b ∈ site.boundaries, b.bottom ≠ bottom.name) ∧
        ∃ c, genesisClass site.graph component bottom = .ok c ∧
          site.graph.addClass c = .ok site'.graph ∧
          site'.boundaries =
            site.boundaries ++ [{ bottom := bottom.name, genesis := c.name }]) := by
  unfold openBoundary at h
  obtain ⟨_, _, hGet, h⟩ := Pass.on_bind_eq_ok.mp h
  cases hGet
  split at h
  · next b hFind =>
      obtain ⟨g', hChange, rfl⟩ := onGraph_eq_ok.mp h
      cases hChange
      have hBottom := List.find?_some hFind
      exact .inl ⟨b, List.mem_of_find?_eq_some hFind, by simpa using hBottom, rfl, rfl⟩
  · next hNone =>
      obtain ⟨c, _, hLift, h⟩ := Pass.on_bind_eq_ok.mp h
      obtain ⟨_, _, hAdd, hModify⟩ := Pass.on_bind_eq_ok.mp h
      cases hClass : genesisClass site.graph component bottom with
      | error e => rw [hClass] at hLift; cases hLift
      | ok c' =>
          rw [hClass] at hLift
          cases hLift
          obtain ⟨g', hAdded, rfl⟩ := onGraph_eq_ok.mp hAdd
          cases hModify
          refine .inr ⟨fun b hb => ?_, c, rfl, hAdded, rfl⟩
          have hNot := List.find?_eq_none.mp hNone b hb
          simpa using hNot

/-- A platform class that has no boundary yet, and the name of whose genesis class is free. -/
structure Unopened (site : Site) (bottom : ClassDef) : Prop where
  found : site.graph.find? bottom.name = some bottom
  unbounded : ∀ b ∈ site.boundaries, b.bottom ≠ bottom.name
  free : site.graph.find? (genesisName bottom.name) = none

/-- The boundary at a platform class is made, and the program has its genesis class. -/
def Opens (component : ComponentType) (bottom : ClassDef) (site : Site) (c : ClassDef) : Prop :=
  ∃ g', (openBoundary component bottom).on site = (.ok (), ⟨g', site.boundaries ++
      [{ bottom := bottom.name, genesis := genesisName bottom.name }]⟩) ∧
    g'.find? (genesisName bottom.name) = some c

section

variable {component : ComponentType} {bottom c : ClassDef} {site : Site}

private theorem name_genesisClass {g : ClassGraph} (h : genesisClass g component bottom = .ok c) :
    c.name = genesisName bottom.name :=
  congrArg ClassDef.name (outline_genesisClass h)

/-- A boundary that is not there yet is made if the program takes the genesis class. -/
theorem openBoundary_new (hNone : ∀ b ∈ site.boundaries, b.bottom ≠ bottom.name)
    (hClass : genesisClass site.graph component bottom = .ok c) :
    (∀ g', site.graph.addClass c = .ok g' → (openBoundary component bottom).on site =
        (.ok (), ⟨g', site.boundaries ++
          [{ bottom := bottom.name, genesis := genesisName bottom.name }]⟩)) ∧
      ∀ e, site.graph.addClass c = .error e →
        (openBoundary component bottom).on site = (.error (.graph e), site) := by
  have hFind : site.boundaries.find? (·.bottom == bottom.name) = none :=
    List.find?_eq_none.mpr fun b hb => by simpa using hNone b hb
  have hMade : (openBoundary.liftExcept (genesisClass site.graph component bottom)).on site =
      (.ok c, site) := by
    rw [hClass]
    rfl
  unfold openBoundary
  rw [Pass.on_get_bind]
  simp only [hFind]
  refine ⟨fun g' hAdd => ?_, fun e hAdd => ?_⟩
  · refine Pass.on_bind_eq_ok.mpr ⟨c, site, hMade, Pass.on_bind_eq_ok.mpr
      ⟨(), { site with graph := g' }, onGraph_eq_ok.mpr ⟨g', hAdd, rfl⟩, ?_⟩⟩
    rw [Pass.on_modify, name_genesisClass hClass]
  · have hRefused : (onGraph (·.addClass c)).on site = (.error (.graph e), site) := by
      rw [onGraph, Pass.on_atomic, hAdd]
      rfl
    rw [Pass.on_bind, hMade]
    simp only [Pass.on_bind, hRefused]

/-- A program takes a class under a superclass that it has, unless the name is taken. -/
theorem addClass_eq {g : ClassGraph} {superclass : ClassName}
    (hSuper : c.superclass = some superclass) (hFound : (g.find? superclass).isSome) :
    if (g.find? c.name).isSome then g.addClass c = .error (.duplicateClass c.name)
    else ∃ g', g.addClass c = .ok g' := by
  obtain ⟨d, hFind⟩ := Option.isSome_iff_exists.mp hFound
  have hGet : g.get superclass = .ok d := get_eq_ok.mpr hFind
  split
  · next hTaken => simp [addClass, hSuper, hGet, hTaken, bind, Except.bind]
  · next hFree => simp [addClass, hSuper, hGet, hFree, bind, Except.bind]

/-- The boundary of a platform class is made as soon as its genesis class can be built. -/
theorem Unopened.opens (h : Unopened site bottom)
    (hClass : genesisClass site.graph component bottom = .ok c) :
    Opens component bottom site c := by
  have hOutline := outline_genesisClass hClass
  have hSuper : c.superclass = some bottom.name := congrArg ClassDef.superclass hOutline
  have hLeaf : c.subclasses = [] := congrArg ClassDef.subclasses hOutline
  have hName := name_genesisClass hClass
  have hAdd := addClass_eq hSuper (Option.isSome_of_eq_some h.found)
  rw [if_neg (by rw [hName, h.free]; exact Bool.false_ne_true)] at hAdd
  obtain ⟨g', hAdd⟩ := hAdd
  refine ⟨g', (openBoundary_new h.unbounded hClass).1 g' hAdd, ?_⟩
  obtain ⟨_, _, _, hFind⟩ := find?_addClass hAdd
  rw [hFind, if_pos hName.symm]
  cases c
  cases hLeaf
  rfl

/-- No boundary is made where another class has the name of the genesis class. -/
theorem openBoundary_taken (hFound : (site.graph.find? bottom.name).isSome)
    (hNone : ∀ b ∈ site.boundaries, b.bottom ≠ bottom.name)
    (hTaken : (site.graph.find? (genesisName bottom.name)).isSome)
    (hClass : genesisClass site.graph component bottom = .ok c) :
    (openBoundary component bottom).on site =
      (.error (.graph (.duplicateClass (genesisName bottom.name))), site) := by
  have hSuper : c.superclass = some bottom.name :=
    congrArg ClassDef.superclass (outline_genesisClass hClass)
  have hName := name_genesisClass hClass
  have hAdd := addClass_eq hSuper hFound
  rw [hName, if_pos hTaken] at hAdd
  exact (openBoundary_new hNone hClass).2 _ hAdd

end

/-- The last part of a visit: the boundary above a class, if there is one. -/
def noteTop (component : ComponentType) (name : ClassName) (c : ClassDef) : Pass Site Unit := do
  match (← get).graph.parent? c with
  | none => return ()
  | some parent =>
      if parent.isLibrary then
        openBoundary component parent
        modify fun site => { site with boundaries := addTop parent.name name site.boundaries }

/-- The part of a visit behind the role of the constructor. -/
def giveBuddy (component : ComponentType) (name : ClassName) (c : ClassDef) :
    Pass Site Unit := do
  if (c.marks.get component).ancestor then addWormhole c
  noteTop component name c

/-- The boundary above a class is opened and has the class as a top, or there is none. -/
def TopNoted (component : ComponentType) (name : ClassName) (c : ClassDef) (site site' : Site) :
    Prop :=
  (site' = site ∧ ∀ parent, site.graph.parent? c = some parent → parent.isLibrary = false) ∨
    ∃ parent opened, site.graph.parent? c = some parent ∧ parent.isLibrary = true ∧
      (openBoundary component parent).on site = (.ok (), opened) ∧
      site' = { opened with boundaries := addTop parent.name name opened.boundaries }

private theorem noteTop_eq_ok {component : ComponentType} {name : ClassName} {c : ClassDef}
    {site site' : Site} (h : (noteTop component name c).on site = (.ok (), site')) :
    TopNoted component name c site site' := by
  unfold noteTop at h
  obtain ⟨_, _, hGet, h⟩ := Pass.on_bind_eq_ok.mp h
  cases hGet
  split at h
  · next hNone =>
      cases h
      exact .inl ⟨rfl, fun parent hParent => by rw [hNone] at hParent; cases hParent⟩
  · next parent hParent =>
      split at h
      · next hLibrary =>
          obtain ⟨_, opened, hOpen, hModify⟩ := Pass.on_bind_eq_ok.mp h
          cases hModify
          exact .inr ⟨parent, opened, hParent, hLibrary, hOpen, rfl⟩
      · next hProgram =>
          cases h
          refine .inl ⟨rfl, fun parent' hParent' => ?_⟩
          obtain rfl := Option.some.inj (hParent.symm.trans hParent')
          simpa using hProgram

/-- The methods of a class after a visit, but for the role of its constructor. -/
def buddied (roles : Roles) (c : ClassDef) (methods : List Method) : List Method :=
  if roles.ancestor then withBuddy c.name c.superclass methods else methods

/-- The methods of a class after a visit. -/
def dressed (roles : Roles) (c : ClassDef) (methods : List Method) : List Method :=
  buddied roles c
    (if roles.direct then Method.giveRole (.void []) .componentDirect methods else methods)

private theorem giveBuddy_eq_ok {component : ComponentType} {c : ClassDef} {site site' : Site}
    (h : (giveBuddy component c.name c).on site = (.ok (), site')) :
    ∃ middle : Site, Redressed c.name (buddied (c.marks.get component) c) site middle ∧
      TopNoted component c.name c middle site' := by
  unfold giveBuddy at h
  unfold buddied
  split at h
  · next hAncestor =>
      obtain ⟨_, middle, hAdd, hNote⟩ := Pass.on_bind_eq_ok.mp h
      simp only [hAncestor, if_true]
      exact ⟨middle, addWormhole_eq_ok hAdd, noteTop_eq_ok hNote⟩
  · next hNot =>
      simp only [hNot]
      exact ⟨site, Redressed.refl c.name site, noteTop_eq_ok h⟩

/-- A class that is visited only gets methods, and then its boundary is noted. -/
theorem visitClass_eq_ok {component : ComponentType} {name : ClassName} {site site' : Site}
    {c : ClassDef} (hFind : site.graph.find? name = some c)
    (h : (visitClass component name).on site = (.ok (), site')) :
    ∃ middle : Site, Redressed name (dressed (c.marks.get component) c) site middle ∧
      TopNoted component name c middle site' := by
  obtain rfl := name_of_find? hFind
  unfold visitClass at h
  obtain ⟨_, _, hGet, h⟩ := Pass.on_bind_eq_ok.mp h
  cases hGet
  simp only [hFind] at h
  unfold dressed
  split at h
  · next hDirect =>
      simp only [hDirect, if_true]
      split at h
      · obtain ⟨_, _, hThrow, _⟩ := Pass.on_bind_eq_ok.mp h
        cases hThrow
      · obtain ⟨_, start, hRole, hRest⟩ := Pass.on_bind_eq_ok.mp h
        obtain ⟨middle, hDressed, hNoted⟩ := giveBuddy_eq_ok hRest
        exact ⟨middle, (setRole_eq_ok hRole).trans hDressed, hNoted⟩
  · next hNot =>
      simp only [hNot]
      exact giveBuddy_eq_ok h

/-! ## Moves -/

/-- Outlines do not show methods. -/
theorem outline_eq_of_methods {g : ClassGraph} {name : ClassName} {methods : List Method}
    (n : ClassName) :
    (g.modify name fun c => { c with methods }).outline? n = g.outline? n := by
  apply outline?_modify_methods
  intro _
  rfl

/-- A class that is moved has the genesis class above it; no other class moves. -/
theorem moveClass_eq_ok {bottom genesis top : ClassName} {g g' : ClassGraph}
    (h : (moveClass bottom genesis top).on g = (.ok (), g')) :
    (∀ n, g'.superclassOf n = if n = top then some genesis else g.superclassOf n) ∧
      ∀ n, g'.stem? n = g.stem? n := by
  unfold moveClass at h
  obtain ⟨_, moved, hMove, h⟩ := Pass.on_bind_eq_ok.mp h
  obtain ⟨hSuper, hStem⟩ := reparent_eq_ok (Pass.on_atomic_eq_ok.mp hMove)
  obtain ⟨_, _, hGet, h⟩ := Pass.on_bind_eq_ok.mp h
  cases hGet
  split at h
  · cases h
    exact ⟨hSuper, hStem⟩
  · next c hFind =>
      obtain ⟨_, _, hModify, h⟩ := Pass.on_bind_eq_ok.mp h
      cases hModify
      split at h
      · cases h
        refine ⟨fun n => ?_, fun n => ?_⟩
        · rw [superclassOf_eq_outline, outline_eq_of_methods, ← superclassOf_eq_outline, hSuper]
        · rw [stem?_eq_outline, outline_eq_of_methods, ← stem?_eq_outline, hStem]
      · cases h

private theorem moveAll_eq_ok {bottom genesis : ClassName} :
    ∀ {tops : List ClassName} {g g' : ClassGraph},
      (moveAll bottom genesis tops).on g = (.ok (), g') →
      (∀ n, g'.superclassOf n = if n ∈ tops then some genesis else g.superclassOf n) ∧
        ∀ n, g'.stem? n = g.stem? n := by
  intro tops
  induction tops with
  | nil =>
      intro g g' h
      cases h
      exact ⟨fun n => by simp, fun n => rfl⟩
  | cons top rest ih =>
      intro g g' h
      obtain ⟨_, middle, hFirst, hRest⟩ := Pass.on_bind_eq_ok.mp h
      obtain ⟨hSuper, hStem⟩ := moveClass_eq_ok hFirst
      obtain ⟨hSuper', hStem'⟩ := ih hRest
      refine ⟨fun n => ?_, fun n => (hStem' n).trans (hStem n)⟩
      rw [hSuper', hSuper]
      by_cases hTop : n = top <;> by_cases hMem : n ∈ rest <;> simp [hTop, hMem]

/-- Every top of a boundary ends up under its genesis class, and nothing else moves. -/
theorem finish_eq_ok {boundaries : List Boundary} :
    ∀ {g g' : ClassGraph} {created : List ClassName},
      (finish boundaries).on g = (.ok created, g') →
      boundaries.Pairwise (fun b b' => ∀ n ∈ b.tops, n ∉ b'.tops) →
      created = boundaries.map (·.genesis) ∧
        (∀ b ∈ boundaries, ∀ n ∈ b.tops, g'.superclassOf n = some b.genesis) ∧
        (∀ n, (∀ b ∈ boundaries, n ∉ b.tops) → g'.superclassOf n = g.superclassOf n) ∧
        ∀ n, g'.stem? n = g.stem? n := by
  induction boundaries with
  | nil =>
      intro g g' created h _
      cases h
      exact ⟨rfl, nofun, fun _ _ => rfl, fun _ => rfl⟩
  | cons b rest ih =>
      intro g g' created h hApart
      obtain ⟨hFirst, hRest⟩ := List.pairwise_cons.mp hApart
      obtain ⟨_, middle, hMove, h⟩ := Pass.on_bind_eq_ok.mp h
      obtain ⟨others, _, hOthers, hReturn⟩ := Pass.on_bind_eq_ok.mp h
      cases hReturn
      obtain ⟨hSuper, hStem⟩ := moveAll_eq_ok hMove
      obtain ⟨rfl, hMoved, hStays, hStem'⟩ := ih hOthers hRest
      refine ⟨rfl, ?_, ?_, fun n => (hStem' n).trans (hStem n)⟩
      · intro b' hb' n hn
        rcases List.mem_cons.mp hb' with rfl | hb'
        · rw [hStays n fun b'' hb'' => hFirst b'' hb'' n hn, hSuper, if_pos hn]
        · exact hMoved b' hb' n hn
      · intro n hn
        rw [hStays n fun b' hb' => hn b' (List.mem_cons_of_mem b hb'), hSuper,
          if_neg (hn b List.mem_cons_self)]

end HotPatch.Genesis
