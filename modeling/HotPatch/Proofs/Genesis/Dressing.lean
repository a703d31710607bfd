import HotPatch.Proofs.Genesis.Boundaries

/-!
# What the visits give to classes

`Equipped` adds to what a survey finds the constructors that visits give: an
ancestor of components has a buddy constructor that calls the one of its
superclass, every genesis class one that dispatches, and no other class has
any; and only classes visited have a constructor that the platform calls.

A class that is visited again, for another component type, keeps the buddy
constructor it has.
-/

namespace HotPatch.Genesis

open ClassGraph

/-- The method is a buddy constructor. -/
def isBuddy (m : Method) : Bool := m.isNamed .init Interceptor.buddySignature

/-- The buddy constructors of a class; there is one at most. -/
def buddies? (g : ClassGraph) (n : ClassName) : Option (List Method) :=
  (g.methods? n).map (·.filter isBuddy)

/-- The buddy constructor that visits give to a class. -/
def passUp (name superclass : ClassName) : Method :=
  { wormhole name superclass with role := .wormhole }

/-- The method is a constructor that the platform calls by itself. -/
def CalledByPlatform (m : Method) : Prop :=
  m.isConstructor = true ∧ m.role = .componentDirect

/-! ## Methods of one class -/

section

variable {methods : List Method} {roles : Roles} {c : ClassDef}

private theorem filter_giveRole_buddy (role : ConstructorRole) (methods : List Method) :
    (Method.giveRole Interceptor.buddySignature role methods).filter isBuddy =
      (methods.filter isBuddy).map fun m => { m with role } := by
  refine (Method.filter_giveRole _ role _ methods).trans ?_
  refine List.map_congr_left fun m hm => ?_
  exact if_pos (List.mem_filter.mp hm).2

private theorem filter_giveRole_plain (role : ConstructorRole) (methods : List Method) :
    (Method.giveRole (.void []) role methods).filter isBuddy = methods.filter isBuddy := by
  refine (Method.filter_giveRole _ role _ methods).trans ?_
  rw [List.map_congr_left (g := id), List.map_id]
  · rfl
  · intro m hm
    refine if_neg fun hPlain => ?_
    have hSame := (Method.isNamed_iff.mp (List.mem_filter.mp hm).2).2
    rw [(Method.isNamed_iff.mp hPlain).2] at hSame
    cases hSame

/-- A buddy constructor is given once. -/
theorem filter_withBuddy {name s : ClassName}
    (h : methods.filter isBuddy = [] ∨ methods.filter isBuddy = [passUp name s]) :
    (withBuddy name (some s) methods).filter isBuddy = [passUp name s] := by
  have hAdded : ((wormhole name s).addOnce methods).filter isBuddy = [wormhole name s] ∨
      ((wormhole name s).addOnce methods).filter isBuddy = [passUp name s] := by
    rw [Method.addOnce]
    split
    · next hAny =>
        refine .inr (h.resolve_left fun hNone => ?_)
        obtain ⟨m, hm, hNamed⟩ := List.any_eq_true.mp hAny
        exact List.filter_eq_nil_iff.mp hNone m hm hNamed
    · next hNot =>
        have hNone : methods.filter isBuddy = [] := by
          refine List.filter_eq_nil_iff.mpr fun m hm hNamed => hNot ?_
          exact List.any_eq_true.mpr ⟨m, hm, hNamed⟩
        left
        rw [List.filter_append, hNone]
        rfl
  rw [withBuddy, filter_giveRole_buddy]
  rcases hAdded with hAdded | hAdded <;> rw [hAdded] <;> rfl

/-- A visit of a class that is no ancestor changes no buddy constructor. -/
theorem filter_dressed_of_not (h : roles.ancestor = false) :
    (dressed roles c methods).filter isBuddy = methods.filter isBuddy := by
  simp only [dressed, buddied, h, Bool.false_eq_true, if_false]
  split
  · exact filter_giveRole_plain _ methods
  · rfl

private theorem filter_dressed {s : ClassName} (hSuper : c.superclass = some s)
    (hAncestor : roles.ancestor = true)
    (h : methods.filter isBuddy = [] ∨ methods.filter isBuddy = [passUp c.name s]) :
    (dressed roles c methods).filter isBuddy = [passUp c.name s] := by
  simp only [dressed, buddied, hAncestor, if_true, hSuper]
  refine filter_withBuddy ?_
  split
  · rw [filter_giveRole_plain]
    exact h
  · exact h

end

/-! ## Dispatchers -/

/-- The buddy constructor of the genesis class of `bottom`. -/
def IsDispatcher (bottom : ClassName) (m : Method) : Prop :=
  ∃ constructors buddy, dispatcher bottom constructors = .ok buddy ∧
    m = { buddy with role := .wormhole }

/-- A genesis class dispatches, unless the library class has a buddy constructor itself. -/
theorem buddies_genesisClass {g : ClassGraph} {component : ComponentType} {bottom c : ClassDef}
    (h : genesisClass g component bottom = .ok c) (hNone : bottom.methods.filter isBuddy = []) :
    ∃ m, IsDispatcher bottom.name m ∧ c.methods.filter isBuddy = [m] := by
  obtain ⟨constructors, buddy, hRedeclares, hBuddy, hNamed, _⟩ := genesisClass_eq_ok h
  have hIs := dispatcher_own hBuddy
  have hOthers : ∀ m ∈ constructors, ¬ isBuddy m = true := by
    intro m hm hIsBuddy
    obtain ⟨⟨m₀, k⟩, hEntry, hNew⟩ := exists_left_of_forall₂ hRedeclares hm
    have hMem := List.mem_of_getElem? (List.mem_zipIdx_iff_getElem?.mp hEntry)
    rw [inheritable, List.mem_mergeSort, List.mem_filter] at hMem
    obtain ⟨hDeclared, hInheritable⟩ := hMem
    simp only [isInheritable, Method.isConstructor, Bool.and_eq_true, MemberName.isInit,
      beq_iff_eq] at hInheritable
    refine List.filter_eq_nil_iff.mp hNone m₀ hDeclared (Method.isNamed_iff.mpr ⟨?_, ?_⟩)
    · exact hInheritable.1.1
    · exact (redeclare_own hNew).signature.symm.trans (Method.isNamed_iff.mp hIsBuddy).2
  have hFind : (constructors ++ [buddy]).find? isBuddy = some buddy := by
    rw [List.find?_append, List.find?_eq_none.mpr hOthers, Option.none_or]
    exact List.find?_cons_of_pos (Method.isNamed_iff.mpr ⟨hIs.name, hIs.signature⟩)
  have hSeal : sealBuddy buddy = { buddy with role := .wormhole } :=
    if_pos (Method.isNamed_iff.mpr ⟨hIs.name, hIs.signature⟩)
  refine ⟨{ buddy with role := .wormhole }, ⟨constructors, buddy, hBuddy, rfl⟩, ?_⟩
  refine (hNamed Interceptor.buddySignature).trans ?_
  refine (congrArg (fun found => (Option.map sealBuddy found).toList) hFind).trans ?_
  rw [Option.map_some, hSeal]
  rfl

/-! ## Sites -/

/-- What the visits so far have given to the classes of the graph. -/
structure Dressed (g : ClassGraph) (done : ComponentType → ClassName → Prop) (site : Site) :
    Prop where
  program : ∀ {component n}, done component n → HasProgram g n
  /-- Ancestors of components pass the call up. -/
  passes : ∀ {component n c s}, g.find? n = some c → c.superclass = some s →
    done component n → (c.marks.get component).ancestor = true →
    buddies? site.graph n = some [passUp n s]
  /-- No other class of before has a buddy constructor. -/
  bare : ∀ {n c}, g.find? n = some c →
    (∀ component, done component n → (c.marks.get component).ancestor = false) →
    buddies? site.graph n = some []
  called : ∀ {n methods m}, site.graph.methods? n = some methods → m ∈ methods →
    CalledByPlatform m → ∃ component, done component n
  dispatches : ∀ b ∈ site.boundaries, ∃ m, IsDispatcher b.bottom m ∧
    buddies? site.graph b.genesis = some [m]

section

variable {g : ClassGraph} {done : ComponentType → ClassName → Prop} {site site' : Site}

/-- One more class has been visited. -/
def alsoDone (done : ComponentType → ClassName → Prop) (component : ComponentType)
    (name : ClassName) (component' : ComponentType) (n : ClassName) : Prop :=
  done component' n ∨ component' = component ∧ n = name

theorem buddies?_congr {g g' : ClassGraph} {n : ClassName} (h : g'.methods? n = g.methods? n) :
    buddies? g' n = buddies? g n := by
  rw [buddies?, buddies?, h]

/-- A class has no buddy constructor, or the one that visits give. -/
theorem Dressed.buddies_or (h : Dressed g done site) {n s : ClassName} {c : ClassDef}
    (hFind : g.find? n = some c) (hSuper : c.superclass = some s) :
    buddies? site.graph n = some [] ∨ buddies? site.graph n = some [passUp n s] := by
  by_cases hSome : ∃ component, done component n ∧ (c.marks.get component).ancestor = true
  · obtain ⟨component, hDone, hAncestor⟩ := hSome
    exact .inr (h.passes hFind hSuper hDone hAncestor)
  · refine .inl (h.bare hFind fun component hDone => ?_)
    rw [← Bool.not_eq_true]
    exact fun hAncestor => hSome ⟨component, hDone, hAncestor⟩

/-- A class gets its methods. -/
theorem Dressed.dress (h : Dressed g done site) (hGrown : Grown g site)
    {component : ComponentType} {name : ClassName} {c' : ClassDef} (hProgram : HasProgram g name)
    (hFind' : site.graph.find? name = some c')
    (hDressed : Redressed name (dressed (c'.marks.get component) c') site site') :
    Dressed g (alsoDone done component name) site' := by
  obtain ⟨c, hFind, hIs⟩ := hProgram
  obtain ⟨c₁, more, hFound, _, hSame⟩ := hGrown.find hFind
  obtain rfl := Option.some.inj (hFind'.symm.trans hFound)
  have hMarks : c'.marks = c.marks := by rw [hSame]
  have hName : c'.name = name := name_of_find? hFind'
  have hSuperclass : c'.superclass = c.superclass := by rw [hSame]
  rw [hMarks] at hDressed
  have hBefore : buddies? site.graph name = some (c'.methods.filter isBuddy) := by
    rw [buddies?, methods?_of_find? hFind', Option.map_some]
  have hAfter : buddies? site'.graph name =
      some ((dressed (c.marks.get component) c' c'.methods).filter isBuddy) := by
    rw [buddies?, hDressed.methods, if_pos rfl, methods?_of_find? hFind', Option.map_some,
      Option.map_some]
  have hOthers : ∀ {n}, n ≠ name → site'.graph.methods? n = site.graph.methods? n := by
    intro n hn
    rw [hDressed.methods, if_neg hn]
  refine ⟨?_, ?_, ?_, ?_, ?_⟩
  · rintro component' n (hDone | ⟨_, rfl⟩)
    · exact h.program hDone
    · exact ⟨c, hFind, hIs⟩
  · intro component' n d s hd hSuper hDone hAncestor
    by_cases hn : n = name
    · subst hn
      obtain rfl := Option.some.inj (hFind.symm.trans hd)
      rw [hAfter, Option.some.injEq, ← hName]
      cases hThis : (c.marks.get component).ancestor with
      | true =>
          refine filter_dressed (hSuperclass.trans hSuper) hThis ?_
          have hOr := h.buddies_or hFind hSuper
          rw [hBefore, Option.some.injEq, Option.some.injEq] at hOr
          rw [hName]
          exact hOr
      | false =>
          rw [filter_dressed_of_not hThis, hName]
          rcases hDone with hDone | ⟨rfl, _⟩
          · have hPasses := h.passes hFind hSuper hDone hAncestor
            rw [hBefore, Option.some.injEq] at hPasses
            exact hPasses
          · rw [hThis] at hAncestor
            cases hAncestor
    · rw [buddies?_congr (hOthers hn)]
      exact h.passes hd hSuper (hDone.resolve_right fun hEq => hn hEq.2) hAncestor
  · intro n d hd hNone
    by_cases hn : n = name
    · subst hn
      obtain rfl := Option.some.inj (hFind.symm.trans hd)
      rw [hAfter, filter_dressed_of_not (hNone component (.inr ⟨rfl, rfl⟩)), ← hBefore]
      exact h.bare hFind fun component' hDone => hNone component' (.inl hDone)
    · rw [buddies?_congr (hOthers hn)]
      exact h.bare hd fun component' hDone => hNone component' (.inl hDone)
  · intro n methods m hMethods hm hCalled
    by_cases hn : n = name
    · exact ⟨component, .inr ⟨rfl, hn⟩⟩
    · rw [hOthers hn] at hMethods
      obtain ⟨component', hDone⟩ := h.called hMethods hm hCalled
      exact ⟨component', .inl hDone⟩
  · intro b hb
    rw [hDressed.boundaries] at hb
    obtain ⟨m, hDispatcher, hBuddies⟩ := h.dispatches b hb
    have hNew : b.genesis ≠ name := by
      rintro rfl
      rw [hGrown.new_of_mem_created (List.mem_map_of_mem hb)] at hFind
      cases hFind
    exact ⟨m, hDispatcher, (buddies?_congr (hOthers hNew)).trans hBuddies⟩

/-- Nothing happens to the classes of before. -/
theorem Dressed.of_methods (h : Dressed g done site)
    (hOld : ∀ {n d}, g.find? n = some d → site'.graph.methods? n = site.graph.methods? n)
    (hNew : ∀ {n methods}, site'.graph.methods? n = some methods →
      site.graph.methods? n = some methods ∨ ∀ m ∈ methods, m.role ≠ .componentDirect)
    (hDispatches : ∀ b ∈ site'.boundaries, ∃ m, IsDispatcher b.bottom m ∧
      buddies? site'.graph b.genesis = some [m]) : Dressed g done site' where
  program := h.program
  passes := fun hd hSuper hDone hAncestor =>
    (buddies?_congr (hOld hd)).trans (h.passes hd hSuper hDone hAncestor)
  bare := fun hd hNone => (buddies?_congr (hOld hd)).trans (h.bare hd hNone)
  called := fun {n methods m} hHas hm hCalled => by
    rcases hNew hHas with hHad | hNone
    · exact h.called hHad hm hCalled
    · exact (hNone m hm hCalled.2).elim
  dispatches := hDispatches

/-- A boundary leaves the methods of the classes of before alone. -/
theorem Grown.methods_open (hGrown : Grown g site) {component : ComponentType} {parent : ClassDef}
    (hOpen : (openBoundary component parent).on site = (.ok (), site')) {n : ClassName}
    {d : ClassDef} (hd : g.find? n = some d) :
    site'.graph.methods? n = site.graph.methods? n := by
  rcases openBoundary_eq_ok hOpen with ⟨b, _, _, _, hGraph⟩ | ⟨_, c, hClass, hAdd, _⟩
  · rw [hGraph]
    apply methods?_modify_of_eq
    · intro _ hc
      exact hc
    · intro _
      rfl
  · have hSuper : c.superclass = some parent.name :=
      congrArg ClassDef.superclass (outline_genesisClass hClass)
    rw [methods?_addClass hSuper hAdd, if_neg]
    rintro rfl
    obtain ⟨d', _, hd', _⟩ := hGrown.find hd
    rw [(addClass_eq_ok hSuper hAdd).1] at hd'
    cases hd'

/-- A genesis class is made, or there already. -/
theorem Dressed.open (h : Dressed g done site) (hGrown : Grown g site)
    {component : ComponentType} {parent : ClassDef} (hLibrary : HasLibrary g parent.name)
    (hParent : site.graph.find? parent.name = some parent)
    (hOpen : (openBoundary component parent).on site = (.ok (), site')) :
    Dressed g done site' := by
  rcases openBoundary_eq_ok hOpen with
    ⟨b, hb, hBottom, hSame, hGraph⟩ | ⟨hOther, c, hClass, hAdd, hMore⟩
  · have hMethods : ∀ n, site'.graph.methods? n = site.graph.methods? n := by
      intro n
      rw [hGraph]
      apply methods?_modify_of_eq
      · intro _ hc
        exact hc
      · intro _
        rfl
    refine h.of_methods (fun _ => hMethods _) (fun hHas => .inl (hMethods _ ▸ hHas)) ?_
    intro b' hb'
    rw [hSame] at hb'
    obtain ⟨m, hDispatcher, hBuddies⟩ := h.dispatches b' hb'
    exact ⟨m, hDispatcher, (buddies?_congr (hMethods _)).trans hBuddies⟩
  · have hOutline := outline_genesisClass hClass
    have hSuper : c.superclass = some parent.name := congrArg ClassDef.superclass hOutline
    have hMethods := methods?_addClass hSuper hAdd
    have hAbsent := (addClass_eq_ok hSuper hAdd).1
    refine h.of_methods (hGrown.methods_open hOpen) ?_ ?_
    · intro n methods hHas
      rw [hMethods] at hHas
      split at hHas
      · obtain ⟨_, _, _, _, _, hNone⟩ := genesisClass_eq_ok hClass
        obtain rfl := Option.some.inj hHas
        exact .inr hNone
      · exact .inl hHas
    · intro b hb
      rw [hMore, List.mem_append, List.mem_singleton] at hb
      rcases hb with hb | rfl
      · obtain ⟨m, hDispatcher, hBuddies⟩ := h.dispatches b hb
        refine ⟨m, hDispatcher, (buddies?_congr ?_).trans hBuddies⟩
        rw [hMethods, if_neg]
        intro hEq
        rw [hEq, buddies?, methods?, hAbsent] at hBuddies
        cases hBuddies
      · obtain ⟨p, hp, hIs⟩ := hLibrary
        have hBare := h.bare hp fun component' hDone => by
          obtain ⟨p', hp', hProgram⟩ := h.program hDone
          obtain rfl := Option.some.inj (hp.symm.trans hp')
          rw [ClassDef.isLibrary, beq_iff_eq] at hIs
          rw [ClassDef.isProgram, hIs] at hProgram
          cases hProgram
        rw [buddies?, methods?_of_find? hParent, Option.map_some, Option.some.injEq] at hBare
        obtain ⟨m, hDispatcher, hBuddies⟩ := buddies_genesisClass hClass hBare
        refine ⟨m, hDispatcher, ?_⟩
        rw [buddies?, hMethods, if_pos rfl, Option.map_some, hBuddies]

/-- Who is to move plays no part. -/
theorem Dressed.addTop (h : Dressed g done site) (s name : ClassName) :
    Dressed g done { site with boundaries := addTop s name site.boundaries } := by
  refine ⟨h.program, h.passes, h.bare, h.called, fun b' hb' => ?_⟩
  obtain ⟨b, hb, hBottom, hGenesis, _⟩ := mem_addTop hb'
  rw [hBottom, hGenesis]
  exact h.dispatches b hb

/-! ## Runs of visits -/

/-- The class is one that a visit of the component type comes to. -/
def VisitedFor (g : ClassGraph) (visits : List (ComponentType × ClassName))
    (component : ComponentType) (t : ClassName) : Prop :=
  (∃ root, (component, root) ∈ visits ∧ Reached g component root t) ∧ HasProgram g t

private theorem visitedFor_cons {component component' : ComponentType} {root t : ClassName}
    {rest : List (ComponentType × ClassName)} :
    VisitedFor g ((component, root) :: rest) component' t ↔
      (component' = component ∧ Reached g component root t ∧ HasProgram g t) ∨
        VisitedFor g rest component' t := by
  constructor
  · rintro ⟨⟨root', hMem, hReached⟩, hProgram⟩
    rcases List.mem_cons.mp hMem with hEq | hMem
    · cases hEq
      exact .inl ⟨rfl, hReached, hProgram⟩
    · exact .inr ⟨⟨root', hMem, hReached⟩, hProgram⟩
  · rintro (⟨rfl, hReached, hProgram⟩ | ⟨⟨root', hMem, hReached⟩, hProgram⟩)
    · exact ⟨⟨root, List.mem_cons_self, hReached⟩, hProgram⟩
    · exact ⟨⟨root', List.mem_cons_of_mem _ hMem, hReached⟩, hProgram⟩

section

variable {holds : (ComponentType → ClassName → Prop) → Site → Prop}
  (hStep : ∀ {done component name site site'}, holds done site → HasProgram g name →
    (visitClass component name).on site = (.ok (), site') →
    holds (alsoDone done component name) site')

include hStep

private theorem visitAll_induct {component : ComponentType} {names : List ClassName} :
    ∀ {done : ComponentType → ClassName → Prop} {site : Site}, holds done site →
      (∀ name ∈ names, HasProgram g name) →
      (visitAll component names).on site = (.ok (), site') →
      holds (fun component' t => done component' t ∨ component' = component ∧ t ∈ names) site' := by
  induction names with
  | nil =>
      intro done site h _ hVisit
      cases hVisit
      simpa using h
  | cons name rest ih =>
      intro done site h hProgram hVisit
      obtain ⟨_, middle, hFirst, hRest⟩ := Pass.on_bind_eq_ok.mp hVisit
      have hMiddle := hStep h (hProgram name List.mem_cons_self) hFirst
      have hEnd := ih hMiddle (fun n hn => hProgram n (List.mem_cons_of_mem name hn)) hRest
      simpa only [alsoDone, List.mem_cons, or_assoc, and_or_left] using hEnd

/-- **What the visit of a class keeps, a run of visits keeps**, with all classes reached among
those done in the end. -/
theorem visitEach_induct (hSync : InSync g) (hAcyclic : Acyclic g)
    (hGrown : ∀ {done site}, holds done site → Grown g site)
    {visits : List (ComponentType × ClassName)} :
    ∀ {done : ComponentType → ClassName → Prop} {site : Site}, holds done site →
      (visitEach visits).on site = (.ok (), site') →
      holds (fun component t => done component t ∨ VisitedFor g visits component t) site' := by
  induction visits with
  | nil =>
      intro done site h hVisit
      cases hVisit
      simpa [VisitedFor] using h
  | cons v rest ih =>
      intro done site h hVisit
      obtain ⟨component, root⟩ := v
      obtain ⟨_, middle, hFirst, hRest⟩ := Pass.on_bind_eq_ok.mp hVisit
      obtain ⟨_, _, hGet, hAll⟩ := Pass.on_bind_eq_ok.mp hFirst
      cases hGet
      have hWalk : ∀ t, t ∈ walk site.graph component root ↔
          Reached g component root t ∧ HasProgram g t :=
        fun t => mem_walk_iff hSync hAcyclic (hGrown h)
      have hMiddle := visitAll_induct hStep h (fun t ht => ((hWalk t).mp ht).2) hAll
      have hEnd := ih hMiddle hRest
      simpa only [visitedFor_cons, hWalk, or_assoc] using hEnd

end

/-- The boundaries, when one more class has been visited. -/
theorem Surveyed.alsoVisit
    (h : Surveyed g (fun t => ∃ component, done component t) site) (hRooted : Rooted g)
    {component : ComponentType} {name : ClassName} (hProgram : HasProgram g name)
    (hVisit : (Genesis.visitClass component name).on site = (.ok (), site')) :
    Surveyed g (fun t => ∃ component', alsoDone done component name component' t) site' := by
  refine (h.visitClass hRooted hProgram.found hVisit).congr fun t => ?_
  constructor
  · rintro (⟨component', hDone⟩ | rfl)
    · exact ⟨component', .inl hDone⟩
    · exact ⟨component, .inr ⟨rfl, rfl⟩⟩
  · rintro ⟨component', hDone | ⟨_, rfl⟩⟩
    · exact .inl ⟨component', hDone⟩
    · exact .inr rfl

/-- What a run of visits leaves: the boundaries, and the constructors. -/
structure Equipped (g : ClassGraph) (done : ComponentType → ClassName → Prop) (site : Site) :
    Prop extends Surveyed g (fun t => ∃ component, done component t) site, Dressed g done site

theorem Equipped.congr {done' : ComponentType → ClassName → Prop} (h : Equipped g done site)
    (hSame : ∀ component t, done component t ↔ done' component t) : Equipped g done' site := by
  obtain rfl : done = done' :=
    funext fun component => funext fun t => propext (hSame component t)
  exact h

/-- A class that is visited gets the buddy constructor that it is to have. -/
theorem Equipped.visitClass (h : Equipped g done site) (hRooted : Rooted g)
    {component : ComponentType} {name : ClassName} (hProgram : HasProgram g name)
    (hVisit : (visitClass component name).on site = (.ok (), site')) :
    Equipped g (alsoDone done component name) site' := by
  refine ⟨h.toSurveyed.alsoVisit hRooted hProgram hVisit, ?_⟩
  obtain ⟨c', hc'⟩ := Option.isSome_iff_exists.mp (h.isSome_of_isSome hProgram.found)
  have hSuper : c'.superclass = g.superclassOf name := by
    rw [← superclassOf_of_find? hc', h.superclassOf_eq hProgram.found]
  obtain ⟨middle, hDressed, hNoted⟩ := visitClass_eq_ok hc' hVisit
  have hMiddle := h.toDressed.dress h.toGrown hProgram hc' hDressed
  have hGrown := (h.toSurveyed.of_outline hDressed.outline hDressed.boundaries).toGrown
  rcases hNoted with ⟨rfl, _⟩ | ⟨parent, opened, hParent, hIs, hOpen, rfl⟩
  · exact hMiddle
  · obtain ⟨_, hLibrary⟩ := hGrown.isLibrary_iff hRooted hSuper hParent
    obtain ⟨s, _, hFindParent⟩ := Option.bind_eq_some_iff.mp hParent
    obtain rfl := name_of_find? hFindParent
    exact (hMiddle.open hGrown (hLibrary.mp hIs) hFindParent hOpen).addTop _ _

/-- After all visits, the classes that they come to are equipped. -/
theorem Equipped.visitEach (hSync : InSync g) (hAcyclic : Acyclic g)
    {visits : List (ComponentType × ClassName)} (h : Equipped g done site)
    (hVisit : (visitEach visits).on site = (.ok (), site')) :
    Equipped g (fun component t => done component t ∨ VisitedFor g visits component t) site' := by
  refine visitEach_induct (fun h hProgram hVisit => ?_) hSync hAcyclic ?_ h hVisit
  · exact h.visitClass hSync.rooted hProgram hVisit
  · intro _ _ h
    exact h.toGrown

/-- A graph without buddy constructors and without roles. -/
theorem Equipped.start (hBare : ∀ n c, g.find? n = some c → c.methods.filter isBuddy = [])
    (hRoles : ∀ n c, g.find? n = some c → ∀ m ∈ c.methods, ¬ CalledByPlatform m) :
    Equipped g (fun _ _ => False) { graph := g } where
  toSurveyed := (Surveyed.start g).congr fun t => by simp
  program := nofun
  passes := nofun
  bare := fun {n c} hFind _ => by
    rw [buddies?, methods?_of_find? hFind, Option.map_some, hBare n c hFind]
  called := fun {n methods m} hHas hm hCalled => by
    obtain ⟨c, hc, rfl⟩ := Option.map_eq_some_iff.mp hHas
    exact (hRoles n c hc m hm hCalled).elim
  dispatches := nofun

end

end HotPatch.Genesis
