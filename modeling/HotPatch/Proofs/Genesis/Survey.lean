import HotPatch.Proofs.Genesis.Growth

/-!
# What the visits find

`Surveyed` says what the boundaries are after visits of some classes: one for
each library class that a visited class extends, with all of these classes as
its tops.  Each step of a visit adds the class it visits, so after a run of
visits the boundaries are those of all program classes reached.
-/

namespace HotPatch.Genesis

open ClassGraph

/-- A class of the platform in the graph. -/
def HasLibrary (g : ClassGraph) (name : ClassName) : Prop :=
  ∃ c, g.find? name = some c ∧ c.isLibrary = true

theorem HasLibrary.found {g : ClassGraph} {name : ClassName} (h : HasLibrary g name) :
    (g.find? name).isSome = true := by
  obtain ⟨c, hc, _⟩ := h
  exact Option.isSome_of_eq_some hc

/-- A library class that one of the classes extends. -/
def IsBottom (g : ClassGraph) (V : ClassName → Prop) (s : ClassName) : Prop :=
  (∃ t, V t ∧ g.superclassOf t = some s) ∧ HasLibrary g s

/-- The boundaries are those of the classes visited so far, each with all of its tops. -/
structure Surveyed (g : ClassGraph) (V : ClassName → Prop) (site : Site) : Prop
    extends Grown g site where
  tops : ∀ b ∈ site.boundaries, ∀ t, t ∈ b.tops ↔ V t ∧ g.superclassOf t = some b.bottom
  mem_bottoms : ∀ s, s ∈ site.bottoms ↔ IsBottom g V s

section

variable {g : ClassGraph} {site site' : Site} {V : ClassName → Prop}

/-- The parent that a visit finds is the superclass of before, and of the library if that was. -/
theorem Grown.isLibrary_iff (h : Grown g site) (hRooted : Rooted g) {name : ClassName}
    {c parent : ClassDef} (hSuper : c.superclass = g.superclassOf name)
    (hParent : site.graph.parent? c = some parent) :
    g.superclassOf name = some parent.name ∧
      (parent.isLibrary = true ↔ HasLibrary g parent.name) := by
  obtain ⟨s, hs, hFind⟩ := Option.bind_eq_some_iff.mp hParent
  obtain rfl := name_of_find? hFind
  rw [hSuper] at hs
  obtain ⟨p, hp⟩ := Option.isSome_iff_exists.mp (hRooted _ _ hs)
  obtain ⟨p', _, hp', _, hSame⟩ := h.find hp
  obtain rfl := Option.some.inj (hFind.symm.trans hp')
  have hLibrary : parent.isLibrary = p.isLibrary := by rw [hSame]; rfl
  refine ⟨hs, fun hParent => ⟨p, hp, hLibrary ▸ hParent⟩, fun ⟨q, hq, hIs⟩ => ?_⟩
  obtain rfl := Option.some.inj (hp.symm.trans hq)
  exact hLibrary.trans hIs

private theorem Grown.exists_parent (h : Grown g site) {name s : ClassName} {c : ClassDef}
    (hSuper : c.superclass = g.superclassOf name) (hs : g.superclassOf name = some s)
    (hLibrary : HasLibrary g s) :
    ∃ parent, site.graph.parent? c = some parent ∧ parent.name = s := by
  obtain ⟨p, hp, _⟩ := hLibrary
  obtain ⟨parent, _, hFind, _⟩ := h.find hp
  refine ⟨parent, ?_, name_of_find? hFind⟩
  rw [parent?, hSuper, hs]
  exact hFind

theorem Surveyed.start (g : ClassGraph) : Surveyed g (fun _ => False) { graph := g } where
  toGrown := Grown.start g
  tops := nofun
  mem_bottoms := fun s => by simp [Site.bottoms, IsBottom]

theorem Surveyed.congr {V' : ClassName → Prop} (h : Surveyed g V site)
    (hSame : ∀ t, V t ↔ V' t) : Surveyed g V' site := by
  obtain rfl : V = V' := funext fun t => propext (hSame t)
  exact h

/-- Methods do not matter. -/
theorem Surveyed.of_outline (h : Surveyed g V site)
    (hOutline : ∀ n, site'.graph.outline? n = site.graph.outline? n)
    (hSame : site'.boundaries = site.boundaries) : Surveyed g V site' where
  toGrown := h.toGrown.of_outline hOutline hSame
  tops := by rw [hSame]; exact h.tops
  mem_bottoms := by rw [Site.bottoms, hSame]; exact h.mem_bottoms

/-- A class under no library class is visited. -/
theorem Surveyed.skip (h : Surveyed g V site) {name : ClassName}
    (hNone : ∀ s, g.superclassOf name = some s → ¬ HasLibrary g s) :
    Surveyed g (fun t => V t ∨ t = name) site where
  toGrown := h.toGrown
  tops := fun b hb t => by
    have hLibrary : HasLibrary g b.bottom := ((h.mem_bottoms _).mp (List.mem_map_of_mem hb)).2
    rw [h.tops b hb]
    refine ⟨fun ⟨hV, hs⟩ => ⟨.inl hV, hs⟩, ?_⟩
    rintro ⟨hV | rfl, hs⟩
    · exact ⟨hV, hs⟩
    · exact absurd hLibrary (hNone _ hs)
  mem_bottoms := fun s => by
    rw [h.mem_bottoms]
    refine ⟨fun ⟨⟨t, hV, hs⟩, hLibrary⟩ => ⟨⟨t, .inl hV, hs⟩, hLibrary⟩, ?_⟩
    rintro ⟨⟨t, hV | rfl, hs⟩, hLibrary⟩
    · exact ⟨⟨t, hV, hs⟩, hLibrary⟩
    · exact absurd hLibrary (hNone _ hs)

/-- What a new top changes: the tops of one boundary. -/
theorem mem_addTop {s name : ClassName} {boundaries : List Boundary} {b' : Boundary}
    (h : b' ∈ addTop s name boundaries) :
    ∃ b ∈ boundaries, b'.bottom = b.bottom ∧ b'.genesis = b.genesis ∧
      ∀ t, t ∈ b'.tops ↔ t ∈ b.tops ∨ t = name ∧ b.bottom = s := by
  obtain ⟨b, hb, rfl⟩ := List.mem_map.mp h
  refine ⟨b, hb, ?_⟩
  split
  · next hNew =>
      refine ⟨rfl, rfl, fun t => ?_⟩
      simp [hNew.1]
  · next hOld =>
      refine ⟨rfl, rfl, fun t => ⟨.inl, ?_⟩⟩
      rintro (ht | ⟨rfl, hBottom⟩)
      · exact ht
      · by_contra hNot
        exact hOld ⟨hBottom, hNot⟩

/-- Noting who is to move changes nothing else about a boundary. -/
theorem map_addTop {s name : ClassName} {boundaries : List Boundary} {view : Boundary → ClassName}
    (hView : ∀ (b : Boundary) (tops : List ClassName), view { b with tops } = view b) :
    (addTop s name boundaries).map view = boundaries.map view := by
  rw [addTop, List.map_map]
  refine List.map_congr_left fun b _ => ?_
  rw [Function.comp_apply]
  split
  · exact hView b _
  · rfl

/-- The boundary at a library class is there once it was opened, and no other one is new. -/
theorem Surveyed.open (h : Surveyed g V site) {component : ComponentType} {parent : ClassDef}
    (hLibrary : HasLibrary g parent.name)
    (hOpen : (openBoundary component parent).on site = (.ok (), site')) :
    Grown g site' ∧
      (∀ b ∈ site'.boundaries, ∀ t, t ∈ b.tops ↔ V t ∧ g.superclassOf t = some b.bottom) ∧
      ∀ s, s ∈ site'.bottoms ↔ IsBottom g V s ∨ s = parent.name := by
  rcases openBoundary_eq_ok hOpen with
    ⟨b, hb, hBottom, hSame, hGraph⟩ | ⟨hOther, c, hClass, hAdd, hMore⟩
  · refine ⟨h.toGrown.mark hb hSame hGraph, by rw [hSame]; exact h.tops, fun s => ?_⟩
    rw [Site.bottoms, hSame, ← Site.bottoms, h.mem_bottoms]
    refine ⟨.inl, ?_⟩
    rintro (hs | rfl)
    · exact hs
    · rw [← h.mem_bottoms, ← hBottom]
      exact List.mem_map_of_mem hb
  · have hNot : parent.name ∉ site.bottoms := by
      intro hMem
      obtain ⟨b, hb, hBottom⟩ := List.mem_map.mp hMem
      exact hOther b hb hBottom
    refine ⟨h.toGrown.append (outline_genesisClass hClass) hAdd hMore hLibrary.found hNot, ?_, ?_⟩
    · intro b hb t
      rw [hMore, List.mem_append, List.mem_singleton] at hb
      rcases hb with hb | rfl
      · exact h.tops b hb t
      · refine ⟨fun hMem => (List.not_mem_nil hMem).elim, ?_⟩
        rintro ⟨hV, hs⟩
        exact absurd ((h.mem_bottoms _).mpr ⟨⟨t, hV, hs⟩, hLibrary⟩) hNot
    · intro s
      rw [Site.bottoms, hMore, List.map_append, List.mem_append, ← Site.bottoms, h.mem_bottoms]
      simp

/-- A class under a library class is visited. -/
theorem Surveyed.top (h : Surveyed g V site) {component : ComponentType} {name : ClassName}
    {parent : ClassDef} {opened : Site} (hSuper : g.superclassOf name = some parent.name)
    (hLibrary : HasLibrary g parent.name)
    (hOpen : (openBoundary component parent).on site = (.ok (), opened)) :
    Surveyed g (fun t => V t ∨ t = name)
      { opened with boundaries := addTop parent.name name opened.boundaries } := by
  obtain ⟨hGrown, hTops, hBottoms⟩ := h.open hLibrary hOpen
  have hSameBottoms : (addTop parent.name name opened.boundaries).map (·.bottom) =
      opened.bottoms := map_addTop fun _ _ => rfl
  have hSameCreated : (addTop parent.name name opened.boundaries).map (·.genesis) =
      opened.created := map_addTop fun _ _ => rfl
  refine ⟨hGrown.congr (fun _ => rfl) hSameBottoms hSameCreated fun b' hb' => ?_,
    fun b' hb' t => ?_, fun s => ?_⟩
  · obtain ⟨b, hb, hBottom, hGenesis, _⟩ := mem_addTop hb'
    exact ⟨b, hb, hBottom, hGenesis⟩
  · obtain ⟨b, hb, hBottom, _, hMem⟩ := mem_addTop hb'
    rw [hMem, hBottom, hTops b hb]
    constructor
    · rintro (⟨hV, hs⟩ | ⟨rfl, hs⟩)
      · exact ⟨.inl hV, hs⟩
      · exact ⟨.inr rfl, hs ▸ hSuper⟩
    · rintro ⟨hV | rfl, hs⟩
      · exact .inl ⟨hV, hs⟩
      · exact .inr ⟨rfl, Option.some.inj (hs.symm.trans hSuper)⟩
  · rw [Site.bottoms, hSameBottoms, hBottoms]
    constructor
    · rintro (⟨⟨t, hV, hs⟩, hIs⟩ | rfl)
      · exact ⟨⟨t, .inl hV, hs⟩, hIs⟩
      · exact ⟨⟨name, .inr rfl, hSuper⟩, hLibrary⟩
    · rintro ⟨⟨t, hV | rfl, hs⟩, hIs⟩
      · exact .inl ⟨⟨t, hV, hs⟩, hIs⟩
      · exact .inr (Option.some.inj (hs.symm.trans hSuper))

/-! ## Runs of visits -/

/-- One more class has been visited. -/
theorem Surveyed.visitClass (h : Surveyed g V site) (hRooted : Rooted g)
    {component : ComponentType} {name : ClassName} (hFound : (g.find? name).isSome = true)
    (hVisit : (visitClass component name).on site = (.ok (), site')) :
    Surveyed g (fun t => V t ∨ t = name) site' := by
  obtain ⟨c, hc⟩ := Option.isSome_iff_exists.mp (h.isSome_of_isSome hFound)
  have hSuper : c.superclass = g.superclassOf name := by
    rw [← superclassOf_of_find? hc, h.superclassOf_eq hFound]
  obtain ⟨middle, hDressed, hNoted⟩ := visitClass_eq_ok hc hVisit
  have hMiddle := h.of_outline hDressed.outline hDressed.boundaries
  rcases hNoted with ⟨rfl, hNone⟩ | ⟨parent, opened, hParent, hIs, hOpen, rfl⟩
  · refine hMiddle.skip fun s hs hLibrary => ?_
    obtain ⟨parent, hParent, rfl⟩ := hMiddle.exists_parent hSuper hs hLibrary
    have hIs := (hMiddle.isLibrary_iff hRooted hSuper hParent).2.mpr hLibrary
    rw [hNone parent hParent] at hIs
    cases hIs
  · obtain ⟨hs, hLibrary⟩ := hMiddle.isLibrary_iff hRooted hSuper hParent
    exact hMiddle.top hs (hLibrary.mp hIs) hOpen

/-- All classes of a list have been visited. -/
theorem Surveyed.visitAll (hRooted : Rooted g) {component : ComponentType}
    {names : List ClassName} :
    ∀ {V : ClassName → Prop} {site : Site}, Surveyed g V site →
      (∀ name ∈ names, (g.find? name).isSome = true) →
      (visitAll component names).on site = (.ok (), site') →
      Surveyed g (fun t => V t ∨ t ∈ names) site' := by
  induction names with
  | nil =>
      intro V site h _ hVisit
      cases hVisit
      exact h.congr fun t => by simp
  | cons name rest ih =>
      intro V site h hFound hVisit
      obtain ⟨_, middle, hFirst, hRest⟩ := Pass.on_bind_eq_ok.mp hVisit
      have hMiddle := h.visitClass hRooted (hFound name List.mem_cons_self) hFirst
      have hEnd := ih hMiddle (fun n hn => hFound n (List.mem_cons_of_mem name hn)) hRest
      exact hEnd.congr fun t => by simp [or_assoc]

/-- A visit comes to the classes that a walk reaches, and to no others. -/
theorem Surveyed.visit (hSync : InSync g) (hAcyclic : Acyclic g) (h : Surveyed g V site)
    {component : ComponentType} {root : ClassName}
    (hVisit : (visit component root).on site = (.ok (), site')) :
    Surveyed g (fun t => V t ∨ Reached g component root t ∧ HasProgram g t) site' := by
  obtain ⟨_, _, hGet, hAll⟩ := Pass.on_bind_eq_ok.mp hVisit
  cases hGet
  have hWalk : ∀ t, t ∈ walk site.graph component root ↔
      Reached g component root t ∧ HasProgram g t := fun t => mem_walk_iff hSync hAcyclic h.toGrown
  have hFound : ∀ t ∈ walk site.graph component root, (g.find? t).isSome = true := by
    intro t ht
    exact ((hWalk t).mp ht).2.found
  exact (Surveyed.visitAll hSync.rooted h hFound hAll).congr fun t => by rw [hWalk]

/-- Visits one after the other. -/
def visitEach : List (ComponentType × ClassName) → Pass Site Unit
  | [] => return ()
  | (component, root) :: rest => do
      visit component root
      visitEach rest

/-- A program class that one of the visits comes to. -/
def Visited (g : ClassGraph) (visits : List (ComponentType × ClassName)) (name : ClassName) :
    Prop :=
  (∃ visit ∈ visits, Reached g visit.1 visit.2 name) ∧ HasProgram g name

/-- After a list of visits, the boundaries are those of the classes visited. -/
theorem Surveyed.visitEach (hSync : InSync g) (hAcyclic : Acyclic g)
    {visits : List (ComponentType × ClassName)} :
    ∀ {V : ClassName → Prop} {site : Site}, Surveyed g V site →
      (visitEach visits).on site = (.ok (), site') →
      Surveyed g (fun t => V t ∨ Visited g visits t) site' := by
  induction visits with
  | nil =>
      intro V site h hVisit
      cases hVisit
      exact h.congr fun t => by simp [Visited]
  | cons visit rest ih =>
      intro V site h hVisit
      obtain ⟨_, middle, hFirst, hRest⟩ := Pass.on_bind_eq_ok.mp hVisit
      refine (ih (h.visit hSync hAcyclic hFirst) hRest).congr fun t => ?_
      simp only [Visited, List.exists_mem_cons_iff, or_and_right, or_assoc]

/-- **What a run of visits finds.** -/
theorem surveyed_of_visitEach (hSync : InSync g) (hAcyclic : Acyclic g)
    {visits : List (ComponentType × ClassName)}
    (hVisit : (Genesis.visitEach visits).on { graph := g } = (.ok (), site)) :
    Surveyed g (Visited g visits) site :=
  (Surveyed.visitEach hSync hAcyclic (Surveyed.start g) hVisit).congr fun t => by simp

end

end HotPatch.Genesis
