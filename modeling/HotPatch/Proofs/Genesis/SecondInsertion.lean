import HotPatch.Proofs.Genesis.Shapes

/-!
# A second insertion

An insertion that finds nothing to restructure changes no more than roles,
whatever its outcome (`agree_build`).  And when an insertion is over, the
classes that walks come to have all they are to get, and none of them extends
a library class any more.  So if the program is marked again, the next
insertion finds nothing (`Inserted.settles`).
-/

namespace HotPatch

/-- A class without the roles of its constructors. -/
def ClassDef.roleless (c : ClassDef) : ClassDef :=
  { c with methods := c.methods.map Method.withoutRole }

namespace ClassDef

variable {c c' : ClassDef}

private theorem shape_of_roleless (h : c'.roleless = c.roleless) : c'.shape = c.shape :=
  congrArg (fun d : ClassDef => { d with
    access := {}, methods := [], fields := [], disabled := false, vendorPush := false }) h

/-- Roles do not matter to what a method is found by. -/
theorem isSome_findMethod?_of_roleless (h : c'.roleless = c.roleless) (name : MemberName)
    (signature : Signature) :
    (c'.findMethod? name signature).isSome = (c.findMethod? name signature).isSome := by
  have hMethods : c'.methods.map Method.withoutRole = c.methods.map Method.withoutRole :=
    congrArg ClassDef.methods h
  have hAny := congrArg (List.any · fun m => m.isNamed name signature) hMethods
  rw [Method.any_isNamed_withoutRole, Method.any_isNamed_withoutRole] at hAny
  rw [findMethod?, findMethod?, List.isSome_find?, List.isSome_find?, hAny]

end ClassDef

namespace Genesis

open ClassGraph

/-! ## Nothing to do -/

/-- No class of the program is one that the insertion restructures. -/
def Settles (g : ClassGraph) : Prop := ∀ n, HasProgram g n → ¬ Restructures g n

/-- The site is the graph but for roles, and has no boundary. -/
structure Unmoved (g : ClassGraph) (site : Site) : Prop where
  graph : Agree ClassDef.roleless g site.graph
  boundaries : site.boundaries = []

namespace Unmoved

variable {g : ClassGraph} {site : Site} {component : ComponentType} {name : ClassName}

theorem start (g : ClassGraph) : Unmoved g { graph := g } := ⟨.refl g, rfl⟩

/-- The class of a name, with the roles it has by now. -/
theorem find (h : Unmoved g site) {c' : ClassDef} (hFind' : site.graph.find? name = some c') :
    ∃ c, g.find? name = some c ∧ c'.roleless = c.roleless := by
  obtain ⟨c, hFind, hSame⟩ := h.graph.symm.find hFind'
  exact ⟨c, hFind, hSame.symm⟩

theorem onGraph (h : Unmoved g site) {change : ClassGraph → Except GraphError ClassGraph}
    (hChange : ∀ g', change site.graph = .ok g' → Agree ClassDef.roleless site.graph g') :
    Unmoved g ((onGraph change).on site).2 := by
  rw [Genesis.onGraph, Pass.on_atomic]
  cases hNew : change site.graph with
  | error e => exact h
  | ok g' => exact ⟨h.graph.trans (hChange g' hNew), h.boundaries⟩

theorem setRole (h : Unmoved g site) (signature : Signature) (role : ConstructorRole) :
    Unmoved g ((setRole name signature role).on site).2 := by
  refine h.onGraph fun g' hNew => ?_
  cases hNew
  refine .modify (fun _ hc => hc) fun c _ => ?_
  have hMethods := Method.map_withoutRole_giveRole signature role c.methods
  exact congrArg (fun methods => ({ c with methods } : ClassDef)) hMethods

/-- A buddy constructor that is there already only takes its role. -/
theorem addWormhole (h : Unmoved g site) {c d : ClassDef} (hFind : g.find? c.name = some d)
    (hBuddy : ∀ s, c.superclass = some s →
      d.findMethod? .init Interceptor.buddySignature ≠ none) :
    Unmoved g ((addWormhole c).on site).2 := by
  unfold Genesis.addWormhole
  split
  · exact h
  · next s hs =>
      refine Pass.on_bind_snd (h.onGraph fun g' hAdd => ?_) fun _ _ _ hMiddle => hMiddle.setRole _ _
      obtain ⟨d', _, hFind', _⟩ := addMethod_eq_ok hAdd
      obtain ⟨e, he, hSame⟩ := h.find hFind'
      obtain rfl := Option.some.inj (hFind.symm.trans he)
      have hHas := ClassDef.isSome_findMethod?_of_roleless hSame .init Interceptor.buddySignature
      rw [Option.isSome_iff_ne_none.mpr (hBuddy s hs)] at hHas
      rw [addMethod_of_findMethod? hFind' (Option.isSome_iff_ne_none.mp hHas)] at hAdd
      cases hAdd
      refine .modify (fun _ _ => name_of_find? hFind') fun f hf => ?_
      obtain rfl := Option.some.inj (hFind'.symm.trans hf)
      rfl

/-- No boundary is opened above a class that extends no library class. -/
theorem noteTop (h : Unmoved g site) {c : ClassDef}
    (hNone : ∀ s, c.superclass = some s → ¬ HasLibrary g s) :
    Unmoved g ((noteTop component name c).on site).2 := by
  unfold Genesis.noteTop
  rw [Pass.on_get_bind]
  split
  · exact h
  · next parent' hParent' =>
      obtain ⟨s, hs, hFind'⟩ := Option.bind_eq_some_iff.mp hParent'
      obtain ⟨parent, hFind, hSame⟩ := h.find hFind'
      split
      · next hLibrary =>
          have hKind := congrArg ClassDef.isLibrary hSame
          exact absurd ⟨parent, hFind, hKind.symm.trans hLibrary⟩ (hNone s hs)
      · exact h

/-- A class that has its buddy constructor, or needs none, gets no other one. -/
theorem giveBuddy (h : Unmoved g site) {c d : ClassDef} (hFind : g.find? c.name = some d)
    (hBuddy : (c.marks.get component).ancestor = true → ∀ s, c.superclass = some s →
      d.findMethod? .init Interceptor.buddySignature ≠ none)
    (hNone : ∀ s, c.superclass = some s → ¬ HasLibrary g s) :
    Unmoved g ((giveBuddy component name c).on site).2 := by
  unfold Genesis.giveBuddy
  split
  · next hAncestor =>
      exact Pass.on_bind_snd (h.addWormhole hFind (hBuddy hAncestor)) fun _ _ _ hMiddle =>
        hMiddle.noteTop hNone
  · exact h.noteTop hNone

/-- One visit, of a class that walks come to.  Neither of the two reasons to restructure it is
there. -/
theorem visitClass (h : Unmoved g site) (hSettles : Settles g) {root : ClassName}
    (hRoot : component.platformRoot? = some root) (hReached : Reached g component root name)
    (hProgram : HasProgram g name) : Unmoved g ((visitClass component name).on site).2 := by
  unfold Genesis.visitClass
  rw [Pass.on_get_bind]
  split
  · exact h
  · next c' hFind' =>
      obtain ⟨c, hFind, hSame⟩ := h.find hFind'
      obtain rfl := name_of_find? hFind'
      have hSuper := ClassDef.superclass_of_shape (ClassDef.shape_of_roleless hSame)
      have hMarks := ClassDef.marks_of_shape (ClassDef.shape_of_roleless hSame)
      have hNot := hSettles c'.name hProgram
      have hNone : ∀ s, c'.superclass = some s → ¬ HasLibrary g s := fun s hs hLibrary =>
        hNot ⟨component, root, c, s, hRoot, hReached, hFind, hSuper ▸ hs, .inl hLibrary⟩
      have hBuddy : (c'.marks.get component).ancestor = true → ∀ s, c'.superclass = some s →
          c.findMethod? .init Interceptor.buddySignature ≠ none := by
        intro hAncestor s hs hLacks
        rw [hMarks] at hAncestor
        exact hNot ⟨component, root, c, s, hRoot, hReached, hFind, hSuper ▸ hs,
          .inr ⟨hAncestor, hLacks⟩⟩
      dsimp only
      split
      · split
        · exact h
        · exact Pass.on_bind_snd (h.setRole _ _) fun _ _ _ hMiddle =>
            hMiddle.giveBuddy hFind hBuddy hNone
      · exact h.giveBuddy hFind hBuddy hNone

/-- Visits of classes that are settled leave everything as it is. -/
theorem visitAll (hSettles : Settles g) {root : ClassName}
    (hRoot : component.platformRoot? = some root) {names : List ClassName} :
    ∀ {site : Site}, Unmoved g site →
      (∀ name ∈ names, Reached g component root name ∧ HasProgram g name) →
      Unmoved g ((visitAll component names).on site).2 := by
  induction names with
  | nil =>
      intro site h _
      exact h
  | cons name rest ih =>
      intro site h hNames
      obtain ⟨hReached, hProgram⟩ := hNames name List.mem_cons_self
      have hVisited := h.visitClass hSettles hRoot hReached hProgram
      refine Pass.on_bind_snd hVisited fun _ _ _ hMiddle => ?_
      exact ih hMiddle fun n hn => hNames n (List.mem_cons_of_mem name hn)

/-- Roles do not matter to a walk. -/
theorem visit (h : Unmoved g site) (hSettles : Settles g) {root : ClassName}
    (hRoot : component.platformRoot? = some root) :
    Unmoved g ((visit component root).on site).2 := by
  unfold Genesis.visit
  rw [Pass.on_get_bind]
  have hShapes : Agree ClassDef.shape site.graph g :=
    (h.graph.restrict ClassDef.shape fun _ => rfl).symm
  refine visitAll hSettles hRoot h fun name hName => ?_
  obtain ⟨hReached, c', hFind', hIs⟩ := reached_of_mem_walkWithin (.start site.graph) hName
  obtain ⟨c, hFind, hSame⟩ := hShapes.find hFind'
  have hKind := congrArg ClassDef.isProgram hSame
  exact ⟨hShapes.reached hReached, c, hFind, hKind.trans hIs⟩

/-- A settled graph is unmoved by all visits. -/
theorem visitEach (hSettles : Settles g) {visits : List (ComponentType × ClassName)} :
    ∀ {site : Site}, Unmoved g site →
      (∀ v ∈ visits, v.1.platformRoot? = some v.2) →
      Unmoved g ((visitEach visits).on site).2 := by
  induction visits with
  | nil =>
      intro site h _
      exact h
  | cons v rest ih =>
      intro site h hVisits
      have hRoot := hVisits v List.mem_cons_self
      refine Pass.on_bind_snd (h.visit hSettles hRoot) fun _ _ _ hMiddle => ?_
      exact ih hMiddle fun w hw => hVisits w (List.mem_cons_of_mem v hw)

end Unmoved

/-- **An insertion that finds nothing to restructure changes no more than roles**, whatever its
outcome. -/
theorem agree_build {g : ClassGraph} (hSettles : Settles g) :
    Agree ClassDef.roleless g (build.on g).2 := by
  have hVisits : ∀ v ∈ rootVisits ComponentType.all, v.1.platformRoot? = some v.2 :=
    fun _ hv => mem_rootVisits.mp hv
  have hSite := Unmoved.visitEach hSettles (.start g) hVisits
  rw [← visitRoots_eq] at hSite
  unfold build
  rw [Pass.on_get_bind, Pass.on_bind, Pass.on_set]
  dsimp only
  split
  · exact hSite.graph
  · rw [hSite.boundaries]
    exact hSite.graph

/-! ## Nothing left to do -/

/-- The first class has the second among its direct subclasses. -/
def Lists (g : ClassGraph) (n sub : ClassName) : Prop :=
  ∃ c, g.find? n = some c ∧ sub ∈ c.subclasses

section

variable {g g' : ClassGraph} {n sub : ClassName}

private theorem lists_of_modify {name : ClassName} {change : ClassDef → ClassDef}
    (h : Lists (g.modify name change) n sub) (hName : ∀ c, c.name = name → (change c).name = name)
    (hLess : ∀ c, sub ∈ (change c).subclasses → sub ∈ c.subclasses) : Lists g n sub := by
  obtain ⟨c', hFind', hSub⟩ := h
  rw [find?_modify hName] at hFind'
  split at hFind'
  · obtain ⟨c, hFind, rfl⟩ := Option.map_eq_some_iff.mp hFind'
    exact ⟨c, hFind, hLess c hSub⟩
  · exact ⟨c', hFind', hSub⟩

/-- Only the class that another one moves under has something new below it. -/
theorem lists_of_reparent {name s : ClassName} (h : g.reparent name s = .ok g') (hn : n ≠ s)
    (hLists : Lists g' n sub) : Lists g n sub := by
  unfold reparent at h
  cases hGet : g.get name with
  | error e => rw [hGet] at h; cases h
  | ok c =>
      cases hGet' : g.get s with
      | error e => simp [hGet, hGet', bind, Except.bind] at h
      | ok d =>
          simp only [hGet, hGet', bind, Except.bind, pure, Except.pure, Except.ok.injEq] at h
          subst h
          obtain ⟨c', hFind', hSub⟩ := hLists
          rw [find?_link, if_neg hn] at hFind'
          have hMoved : Lists _ n sub := ⟨c', hFind', hSub⟩
          have hUnlinked := lists_of_modify hMoved (fun _ hc => hc) fun _ hSub => hSub
          cases hSuper : c.superclass with
          | none =>
              rw [hSuper] at hUnlinked
              exact hUnlinked
          | some old =>
              rw [hSuper] at hUnlinked
              exact lists_of_modify hUnlinked (fun _ hc => hc) fun _ hSub =>
                List.mem_of_mem_filter hSub

private theorem lists_of_moveClass {bottom genesis top : ClassName}
    (h : (moveClass bottom genesis top).on g = (.ok (), g')) (hn : n ≠ genesis)
    (hLists : Lists g' n sub) : Lists g n sub := by
  unfold moveClass at h
  obtain ⟨_, moved, hMove, h⟩ := Pass.on_bind_eq_ok.mp h
  refine lists_of_reparent (Pass.on_atomic_eq_ok.mp hMove) hn ?_
  rw [Pass.on_get_bind] at h
  split at h
  · cases h
    exact hLists
  · obtain ⟨_, _, hModify, h⟩ := Pass.on_bind_eq_ok.mp h
    cases hModify
    split at h
    · cases h
      exact lists_of_modify hLists (fun _ hc => hc) fun _ hSub => hSub
    · cases h

private theorem lists_of_moveAll {bottom genesis : ClassName} (hn : n ≠ genesis)
    {tops : List ClassName} :
    ∀ {g : ClassGraph}, (moveAll bottom genesis tops).on g = (.ok (), g') → Lists g' n sub →
      Lists g n sub := by
  induction tops with
  | nil =>
      intro g h hLists
      cases h
      exact hLists
  | cons top rest ih =>
      intro g h hLists
      obtain ⟨_, middle, hFirst, hRest⟩ := Pass.on_bind_eq_ok.mp h
      exact lists_of_moveClass hFirst hn (ih hRest hLists)

/-- Moves put classes below genesis classes only. -/
theorem lists_of_finish {boundaries : List Boundary} :
    ∀ {g : ClassGraph} {created : List ClassName},
      (finish boundaries).on g = (.ok created, g') → (∀ b ∈ boundaries, n ≠ b.genesis) →
      Lists g' n sub → Lists g n sub := by
  induction boundaries with
  | nil =>
      intro g created h _ hLists
      cases h
      exact hLists
  | cons b rest ih =>
      intro g created h hn hLists
      obtain ⟨_, middle, hMove, h⟩ := Pass.on_bind_eq_ok.mp h
      obtain ⟨others, _, hOthers, hReturn⟩ := Pass.on_bind_eq_ok.mp h
      cases hReturn
      refine lists_of_moveAll (hn b List.mem_cons_self) hMove ?_
      exact ih hOthers (fun b' hb' => hn b' (List.mem_cons_of_mem b hb')) hLists

end

/-- An insertion from the marks to the moves. -/
structure Inserted (m : Manifest) (w g g' : ClassGraph) (site : Site) : Prop where
  marked : g = (m.mark w).2
  sync : InSync g
  acyclic : Acyclic g
  clothed : Clothed g (VisitedFor g (rootVisits ComponentType.all)) site
  laid : Laid site
  moves : (finish site.boundaries).on site.graph = (.ok site.created, g')

/-- What building a hierarchy from a marked graph comes to. -/
theorem inserted_of_build {m : Manifest} {w g' : ClassGraph} {created : List ClassName}
    (hSync : InSync w) (hAcyclic : Acyclic w) (h : build.on (m.mark w).2 = (.ok created, g')) :
    ∃ site, created = site.created ∧ Inserted m w (m.mark w).2 g' site := by
  have hRemarked := m.remarked_mark w
  have hSync' := hRemarked.inSync hSync
  have hAcyclic' := hRemarked.acyclic hAcyclic
  obtain ⟨site, hVisit, hFinish⟩ := build_eq_ok h
  have hClothed := clothed_of_visitEach hSync' hAcyclic' hVisit
  obtain ⟨rfl, _⟩ := hClothed.finish hFinish
  have hLaid : Laid site := siteAfter_of_visitEach hVisit ▸ laid_siteAfter _ _
  exact ⟨site, rfl, rfl, hSync', hAcyclic', hClothed, hLaid, hFinish⟩

/-- What an insertion goes by in a class. -/
structure Bearing where
  kind : ClassKind
  superclass : Option ClassName
  subclasses : List ClassName
  marks : ComponentMarks
  isGenesis : Bool
  hasBuddy : Bool

def bearing (c : ClassDef) : Bearing where
  kind := c.kind
  superclass := c.superclass
  subclasses := c.subclasses
  marks := c.marks
  isGenesis := c.isGenesis
  hasBuddy := (c.findMethod? .init Interceptor.buddySignature).isSome

namespace Inserted

variable {m : Manifest} {w g g' p : ClassGraph} {site : Site} {n : ClassName}

/-- Every class is where the visits say. -/
theorem moved (h : Inserted m w g g' site) :
    Moved g g' (fun t => ∃ component, VisitedFor g (rootVisits ComponentType.all) component t)
      site :=
  (h.clothed.finish h.moves).2

/-- A class that was not created was there before. -/
theorem before (h : Inserted m w g g' site) {c' : ClassDef} (hFind' : g'.find? n = some c')
    (hOld : n ∉ site.created) : ∃ c, g.find? n = some c ∧ c.stem = c'.stem := by
  have hNow := (h.clothed.isSome_iff n).mp
    ((h.moved.isSome_iff n).mp (Option.isSome_of_eq_some hFind'))
  have hFound := hNow.resolve_right hOld
  have hStem := (h.moved.stem n).trans (h.clothed.stem_eq hFound)
  rw [stem?, hFind', Option.map_some] at hStem
  exact Option.map_eq_some_iff.mp hStem.symm

/-- The classes created are genesis classes. -/
theorem isGenesis_of_created (h : Inserted m w g g' site) {c' : ClassDef}
    (hFind' : g'.find? n = some c') (hn : n ∈ site.created) : c'.isGenesis = true := by
  have hStem := h.moved.stem n
  rw [stem?, hFind', Option.map_some] at hStem
  obtain ⟨d, hd, hEq⟩ := Option.map_eq_some_iff.mp hStem.symm
  have hSame : c'.stem.isGenesis = d.stem.isGenesis := congrArg ClassDef.isGenesis hEq.symm
  have hIs := h.clothed.isGenesis_of_new (h.clothed.new_of_mem_created hn) hd
  exact hSame.trans hIs

private theorem not_mem_created (h : Inserted m w g g' site) (hFound : (g.find? n).isSome = true) :
    n ∉ site.created := by
  intro hn
  rw [h.clothed.new_of_mem_created hn] at hFound
  cases hFound

/-- Among the classes of before, no one has come under another. -/
theorem lists (h : Inserted m w g g' site) {sub : ClassName}
    (hFound : (g.find? n).isSome = true) (hSub : (g.find? sub).isSome = true)
    (hLists : Lists g' n sub) : Lists g n sub := by
  have hOther : ∀ b ∈ site.boundaries, n ≠ b.genesis := by
    rintro b hb rfl
    exact h.not_mem_created hFound (List.mem_map_of_mem hb)
  obtain ⟨c, hFind⟩ := Option.isSome_iff_exists.mp hFound
  obtain ⟨d, more, hd, hMore, hSame⟩ := h.clothed.find hFind
  obtain ⟨d', hd', hMem⟩ := lists_of_finish h.moves hOther hLists
  obtain rfl := Option.some.inj (hd.symm.trans hd')
  rw [hSame, List.mem_append] at hMem
  refine ⟨c, hFind, hMem.resolve_right fun hNew => ?_⟩
  exact h.not_mem_created hSub (hMore sub hNew)

/-- The way up from a class of before, but for genesis classes, is what it was. -/
theorem ancestors (h : Inserted m w g g' site) {name : ClassName}
    (hFound : (g.find? name).isSome = true) (hn : (g.find? n).isSome = true)
    (hMem : n ∈ g'.ancestors name) : n ∈ g.ancestors name := by
  obtain ⟨chain, hChain⟩ := ClassGraph.exists_lineage h.sync.rooted h.acyclic name
  obtain ⟨chain', hChain', rfl⟩ :=
    h.moved.exists_lineage h.clothed.toSurveyed h.sync.rooted hChain hFound
  rw [hChain'.ancestors_eq (h.moved.rooted h.clothed.toSurveyed h.sync.rooted)] at hMem
  rw [hChain.ancestors_eq h.sync.rooted, List.mem_filter]
  exact ⟨hMem, by simpa using h.not_mem_created hn⟩

/-- Marking the program again gives a class of before no new role. -/
theorem roles (h : Inserted m w g g' site) (hManifest : ∀ entry ∈ m, entry.2 ∉ site.created)
    (hEdges : Agree edges g' p) {c : ClassDef} (hFind : g.find? n = some c)
    (component : ComponentType) :
    ((m.roles p component n).direct = true → (c.marks.get component).direct = true) ∧
      ((m.roles p component n).ancestor = true → (c.marks.get component).ancestor = true) := by
  have hEdges₀ := (m.remarked_mark w).edges
  rw [← h.marked] at hEdges₀
  obtain ⟨_, _, _, hGet⟩ := m.exists_of_mark (h.marked ▸ hFind)
  rw [hGet]
  refine ⟨fun hDirect => ?_, fun hAncestor => ?_⟩
  · have hSame : (m.roles w component n).direct = true := hDirect
    simp [Roles.union, hSame]
  · obtain ⟨entry, hEntry, hIs⟩ := List.any_eq_true.mp hAncestor
    rw [Bool.and_eq_true, List.contains_iff_mem, hEdges.ancestors] at hIs
    have hThere : (g'.find? entry.2).isSome = true := by
      by_contra hAbsent
      rw [Manifest.ancestors_eq_nil (Option.not_isSome_iff_eq_none.mp hAbsent)] at hIs
      cases hIs.2
    have hFound : (g.find? entry.2).isSome = true := by
      have hNow := (h.clothed.isSome_iff _).mp ((h.moved.isSome_iff _).mp hThere)
      exact hNow.resolve_right (hManifest entry hEntry)
    have hAbove := h.ancestors hFound (Option.isSome_of_eq_some hFind) hIs.2
    rw [hEdges₀.ancestors] at hAbove
    have hSame : (m.roles w component n).ancestor = true := by
      refine List.any_eq_true.mpr ⟨entry, hEntry, ?_⟩
      rw [Bool.and_eq_true, List.contains_iff_mem]
      exact ⟨hIs.1, hAbove⟩
    simp [Roles.union, hSame]

/-- A class that a walk goes through when the program is marked again: a walk went through it
before, and the insertion has left it as it is now. -/
theorem onWalk_before (h : Inserted m w g g' site)
    (hManifest : ∀ entry ∈ m, entry.2 ∉ site.created) (hSame : Agree bearing g' p)
    {component : ComponentType} {d : ClassDef} (hd : (m.mark p).2.find? n = some d)
    (hOn : onWalk component d = true) :
    ∃ c c', g.find? n = some c ∧ g'.find? n = some c' ∧
      bearing d = { bearing c' with marks := d.marks } ∧ c.kind = c'.kind ∧
      onWalk component c = true ∧
      ((d.marks.get component).ancestor = true → (c.marks.get component).ancestor = true) := by
  obtain ⟨e, he, hMarked, hGet⟩ := m.exists_of_mark hd
  obtain ⟨c', hFind', hBearing⟩ := hSame.symm.find he
  have hGenesis : c'.isGenesis = e.isGenesis := congrArg Bearing.isGenesis hBearing
  have hMarks : c'.marks = e.marks := congrArg Bearing.marks hBearing
  have hIs : e.isGenesis = d.isGenesis := by rw [hMarked]
  rw [onWalk, Bool.and_eq_true, Bool.and_eq_true, Bool.not_eq_true', Bool.or_eq_true] at hOn
  obtain ⟨⟨hRole, hNot⟩, hOutside⟩ := hOn
  have hNot' : c'.isGenesis = false := (hGenesis.trans hIs).trans hNot
  have hOld : n ∉ site.created := by
    intro hn
    rw [h.isGenesis_of_created hFind' hn] at hNot'
    cases hNot'
  obtain ⟨c, hFind, hStem⟩ := h.before hFind' hOld
  have hKind : c.stem.kind = c'.stem.kind := congrArg ClassDef.kind hStem
  have hKept : c.stem.marks = c'.stem.marks := congrArg ClassDef.marks hStem
  have hIsNot : c.stem.isGenesis = c'.stem.isGenesis := congrArg ClassDef.isGenesis hStem
  have hEdges : Agree edges g' p :=
    hSame.restrict (fun b => (b.superclass, b.subclasses)) fun _ => rfl
  obtain ⟨hDirect, hAncestor⟩ := h.roles hManifest hEdges hFind component
  have hUnion : d.marks.get component = (c.marks.get component).union (m.roles p component n) := by
    rw [hGet, ← hMarks]
    exact congrArg (fun marks : ComponentMarks => (marks.get component).union _) hKept.symm
  have hDirect' : (d.marks.get component).direct = true →
      (c.marks.get component).direct = true := by
    rw [hUnion, Roles.union, Bool.or_eq_true]
    exact fun hOr => hOr.elim id hDirect
  have hAncestor' : (d.marks.get component).ancestor = true →
      (c.marks.get component).ancestor = true := by
    rw [hUnion, Roles.union, Bool.or_eq_true]
    exact fun hOr => hOr.elim id hAncestor
  refine ⟨c, c', hFind, hFind', ?_, hKind, ?_, hAncestor'⟩
  · rw [hBearing, hMarked]
    rfl
  · rw [onWalk, Bool.and_eq_true, Bool.and_eq_true, Bool.not_eq_true', Bool.or_eq_true]
    rw [name_of_find? hd, ← name_of_find? hFind] at hOutside
    exact ⟨⟨hRole.imp hDirect' hAncestor', hIsNot.trans hNot'⟩, hOutside⟩

/-- Walks come to no new class when the program is marked again. -/
theorem reached_before (h : Inserted m w g g' site)
    (hManifest : ∀ entry ∈ m, entry.2 ∉ site.created) (hSame : Agree bearing g' p)
    {component : ComponentType} {root : ClassName}
    (hReached : Reached (m.mark p).2 component root n) : Reached g component root n := by
  induction hReached with
  | here hd hOn =>
      obtain ⟨c, _, hFind, _, _, _, hOn', _⟩ := h.onWalk_before hManifest hSame hd hOn
      exact .here hFind hOn'
  | @through root child n d hd hOn hChild _ ih =>
      obtain ⟨c, c', hFind, hFind', hBearing, _, hOn', _⟩ := h.onWalk_before hManifest hSame hd hOn
      have hBelow : d.subclasses = c'.subclasses := congrArg Bearing.subclasses hBearing
      have hLists : Lists g' root child := ⟨c', hFind', hBelow ▸ hChild⟩
      obtain ⟨d', hd', hMem⟩ := h.lists (Option.isSome_of_eq_some hFind) ih.found hLists
      obtain rfl := Option.some.inj (hFind.symm.trans hd')
      exact .through hFind hOn' hMem ih

/-- No class that walks come to is left under a library class. -/
theorem not_hasLibrary (h : Inserted m w g g' site) {component : ComponentType}
    (hVisited : VisitedFor g (rootVisits ComponentType.all) component n) {s : ClassName}
    (hs : g'.superclassOf n = some s) : ¬ HasLibrary g' s := by
  intro hLibrary
  rcases h.moved.superclassOf_cases h.clothed.toSurveyed hVisited.2.found with
    ⟨s', _, hBottom, hs'⟩ | ⟨hStays, hNone⟩
  · obtain rfl := Option.some.inj (hs.symm.trans hs')
    obtain ⟨c, hc, _, _, hProgram⟩ := h.moved.exists_genesis h.clothed.toSurveyed hBottom
    obtain ⟨c', hc', hIs⟩ := hLibrary
    obtain rfl := Option.some.inj (hc.symm.trans hc')
    rw [ClassDef.isProgram, beq_iff_eq] at hProgram
    rw [ClassDef.isLibrary, hProgram] at hIs
    cases hIs
  · have hs₀ := hStays.symm.trans hs
    have hThere := h.sync.rooted n s hs₀
    exact hNone s ⟨component, hVisited⟩ hs₀
      ((h.moved.hasLibrary_iff h.clothed.toSurveyed hThere).mp hLibrary)

/-- Beside roles and code, the methods that a class has after the moves are those that the visits
have left it. -/
theorem forall₂_methods (h : Inserted m w g g' site) {c' : ClassDef}
    (hFind' : g'.find? n = some c') :
    ∃ methods, roleless? site.graph n = some methods ∧
      List.Forall₂ (fun m m' => m' = { m with body := m'.body, role := m'.role }) methods
        c'.methods := by
  rcases h.laid.shifted_or_kept h.moves n with ⟨b, hb, _, hShifted⟩ | ⟨_, _, hKept⟩
  · obtain ⟨methods, hMethods, hMoved⟩ :=
      (h.laid.stands b hb).forall₂ hShifted (methods?_of_find? hFind')
    refine ⟨_, by rw [roleless?, hMethods, Option.map_some], ?_⟩
    rw [List.forall₂_map_left_iff]
    refine hMoved.imp fun m m' hMethod => ?_
    rw [hMethod.frame]
    rfl
  · rw [methods?_of_find? hFind'] at hKept
    refine ⟨_, by rw [roleless?, ← hKept, Option.map_some], ?_⟩
    rw [List.forall₂_map_left_iff, List.forall₂_same]
    exact fun _ _ => rfl

/-- A method of a class is one of before, roles and code apart, or a buddy constructor. -/
theorem mem_methods (h : Inserted m w g g' site) {c c' : ClassDef} (hFind : g.find? n = some c)
    (hFind' : g'.find? n = some c') {m' : Method} (hm' : m' ∈ c'.methods) :
    ∃ m₀, (m₀ ∈ c.methods ∨ ∃ s, m₀ = wormhole n s) ∧
      m' = { m₀ with body := m'.body, role := m'.role } := by
  obtain ⟨methods, hMethods, hSame⟩ := h.forall₂_methods hFind'
  obtain ⟨m₁, hm₁, hFrame⟩ := exists_left_of_forall₂ hSame hm'
  have hBefore : m₁ ∈ c.methods.map Method.withoutRole ∨ ∃ s, m₁ = wormhole n s := by
    rcases h.clothed.given_or_bare hFind with hNow | hNow
    · obtain rfl := Option.some.inj (hMethods.symm.trans hNow)
      cases hSuper : c.superclass with
      | none =>
          rw [hSuper] at hm₁
          exact .inl hm₁
      | some s =>
          rw [hSuper, worn, Method.addOnce] at hm₁
          split at hm₁
          · exact .inl hm₁
          · rw [List.mem_append, List.mem_singleton] at hm₁
            exact hm₁.imp_right fun hEq => ⟨s, hEq⟩
    · obtain rfl := Option.some.inj (hMethods.symm.trans hNow)
      exact .inl hm₁
  rcases hBefore with hMem | hBuddy
  · obtain ⟨m₀, hm₀, rfl⟩ := List.mem_map.mp hMem
    exact ⟨m₀, .inl hm₀, hFrame⟩
  · exact ⟨m₁, .inr hBuddy, hFrame⟩

/-- An ancestor of components that walks come to has a buddy constructor. -/
theorem hasBuddy (h : Inserted m w g g' site) {component : ComponentType} {c c' : ClassDef}
    (hVisited : VisitedFor g (rootVisits ComponentType.all) component n)
    (hFind : g.find? n = some c) (hAncestor : (c.marks.get component).ancestor = true)
    {s : ClassName} (hs : c.superclass = some s) (hFind' : g'.find? n = some c') :
    (c'.findMethod? .init Interceptor.buddySignature).isSome = true := by
  obtain ⟨methods, hMethods, hSame⟩ := h.forall₂_methods hFind'
  have hGiven := h.clothed.given hFind hVisited hAncestor
  rw [hMethods, hs, Option.some.injEq] at hGiven
  have hAny : methods.any (·.isNamed .init Interceptor.buddySignature) = true := by
    rw [hGiven]
    exact Method.addOnce_eq_self_iff.mp (Method.addOnce_addOnce (wormhole n s) _)
  obtain ⟨buddy, hMem, hNamed⟩ := List.any_eq_true.mp hAny
  obtain ⟨buddy', hMem', hFrame⟩ := exists_left_of_forall₂ hSame.flip hMem
  rw [ClassDef.findMethod?, List.isSome_find?, List.any_eq_true]
  refine ⟨buddy', hMem', ?_⟩
  rw [hFrame]
  exact hNamed

/-- **When the program is marked again, an insertion finds nothing to restructure.** -/
theorem settles (h : Inserted m w g g' site) (hManifest : ∀ entry ∈ m, entry.2 ∉ site.created)
    (hSame : Agree bearing g' p) : Settles (m.mark p).2 := by
  rintro n ⟨d₀, hd₀, hProgram⟩ ⟨component, root, d, s, hRoot, hReached, hd, hs, hWhy⟩
  obtain rfl := Option.some.inj (hd.symm.trans hd₀)
  obtain ⟨d', hd', hOn⟩ := hReached.onWalk
  obtain rfl := Option.some.inj (hd.symm.trans hd')
  obtain ⟨c, c', hFind, hFind', hBearing, hKind, _, hAncestor⟩ :=
    h.onWalk_before hManifest hSame hd hOn
  have hVisited : VisitedFor g (rootVisits ComponentType.all) component n := by
    have hBefore := h.reached_before hManifest hSame hReached
    refine ⟨⟨root, mem_rootVisits.mpr hRoot, hBefore⟩, c, hFind, ?_⟩
    have hSameKind : d.kind = c'.kind := congrArg Bearing.kind hBearing
    rw [ClassDef.isProgram, hKind, ← hSameKind]
    exact hProgram
  have hSuper : d.superclass = c'.superclass := congrArg Bearing.superclass hBearing
  have hs' : g'.superclassOf n = some s := by rw [superclassOf_of_find? hFind', ← hSuper, hs]
  rcases hWhy with hLibrary | ⟨hIs, hLacks⟩
  · obtain ⟨q, hq, hIs⟩ := hLibrary
    obtain ⟨e, he, hMarked, _⟩ := m.exists_of_mark hq
    obtain ⟨q', hq', hBearing'⟩ := hSame.symm.find he
    have hKind' : q'.kind = e.kind := congrArg Bearing.kind hBearing'
    refine h.not_hasLibrary hVisited hs' ⟨q', hq', ?_⟩
    rw [hMarked] at hIs
    rw [ClassDef.isLibrary, hKind']
    exact hIs
  · have hAbove : ∃ s₀, c.superclass = some s₀ := by
      rw [← superclassOf_of_find? hFind]
      rcases h.moved.superclassOf_cases h.clothed.toSurveyed hVisited.2.found with
        ⟨s₀, hs₀, _⟩ | ⟨hStays, _⟩
      · exact ⟨s₀, hs₀⟩
      · exact ⟨s, hStays.symm.trans hs'⟩
    obtain ⟨s₀, hs₀⟩ := hAbove
    have hHas := h.hasBuddy hVisited hFind (hAncestor hIs) hs₀ hFind'
    have hBuddy : (d.findMethod? .init Interceptor.buddySignature).isSome =
        (c'.findMethod? .init Interceptor.buddySignature).isSome :=
      congrArg Bearing.hasBuddy hBearing
    rw [hHas, hLacks] at hBuddy
    cases hBuddy

end Inserted

end Genesis

end HotPatch
