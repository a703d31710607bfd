import HotPatch.Proofs.Genesis.Steps

/-!
# Programs with genesis classes

`Grown` relates a program with genesis classes to the program before: the
classes of before stay where they are, and all others are the genesis classes
of different boundaries.  The walk does not see these (`mem_walk_iff`), so
every visit goes through the same classes as it would have in the beginning.
-/

namespace HotPatch.Genesis

open ClassGraph

/-- The genesis classes made so far. -/
def Site.created (site : Site) : List ClassName := site.boundaries.map (·.genesis)

/-- The library classes that have a boundary. -/
def Site.bottoms (site : Site) : List ClassName := site.boundaries.map (·.bottom)

/-- The site holds the classes of the graph, and a genesis class for each boundary. -/
structure Grown (g : ClassGraph) (site : Site) : Prop where
  kept : ∀ {n : ClassName} {o : ClassDef}, g.outline? n = some o →
    ∃ more, (∀ m ∈ more, m ∈ site.created) ∧
      site.graph.outline? n = some { o with subclasses := o.subclasses ++ more }
  added : ∀ {n : ClassName}, g.outline? n = none → n ∉ site.created →
    site.graph.outline? n = none
  genesis : ∀ b ∈ site.boundaries, b.genesis = genesisName b.bottom ∧
    g.outline? b.genesis = none ∧ ∃ o, site.graph.outline? b.genesis = some o ∧
      o.superclass = some b.bottom ∧ o.isGenesis = true ∧ o.isProgram = true
  distinct : site.bottoms.Nodup

namespace Grown

variable {g : ClassGraph} {site site' : Site}

theorem start (g : ClassGraph) : Grown g { graph := g } where
  kept := fun {_ o} h => ⟨[], nofun, by rw [List.append_nil]; exact h⟩
  added := fun h _ => h
  genesis := nofun
  distinct := List.nodup_nil

/-- Methods and tops do not matter. -/
theorem congr (h : Grown g site)
    (hOutline : ∀ n, site'.graph.outline? n = site.graph.outline? n)
    (hBottoms : site'.bottoms = site.bottoms) (hCreated : site'.created = site.created)
    (hFrom : ∀ b' ∈ site'.boundaries, ∃ b ∈ site.boundaries,
      b'.bottom = b.bottom ∧ b'.genesis = b.genesis) : Grown g site' where
  kept := fun hOld => by rw [hOutline, hCreated]; exact h.kept hOld
  added := fun hNone hNew => by rw [hOutline]; rw [hCreated] at hNew; exact h.added hNone hNew
  genesis := fun b' hb' => by
    obtain ⟨b, hb, hBottom, hGenesis⟩ := hFrom b' hb'
    rw [hBottom, hGenesis, hOutline]
    exact h.genesis b hb
  distinct := by rw [hBottoms]; exact h.distinct

/-- Growth is seen from the outlines of classes alone. -/
theorem of_outline (h : Grown g site)
    (hOutline : ∀ n, site'.graph.outline? n = site.graph.outline? n)
    (hSame : site'.boundaries = site.boundaries) : Grown g site' := by
  refine h.congr hOutline ?_ ?_ ?_
  · rw [Site.bottoms, hSame, Site.bottoms]
  · rw [Site.created, hSame, Site.created]
  · rw [hSame]
    exact fun b hb => ⟨b, hb, rfl, rfl⟩

/-- A class of before is still there, and has got genesis classes below it at most. -/
theorem find (h : Grown g site) {n : ClassName} {c : ClassDef} (hFind : g.find? n = some c) :
    ∃ c' more, site.graph.find? n = some c' ∧ (∀ m ∈ more, m ∈ site.created) ∧
      c' = { c with methods := c'.methods, subclasses := c.subclasses ++ more } := by
  have hOld : g.outline? n = some c.outline := by rw [outline?, hFind]; rfl
  obtain ⟨more, hMore, hNow⟩ := h.kept hOld
  obtain ⟨c', hFind', hOutline⟩ := Option.map_eq_some_iff.mp hNow
  exact ⟨c', more, hFind', hMore, congrArg ({ · with methods := c'.methods }) hOutline⟩

/-- A class of before is still there. -/
theorem isSome_of_isSome (h : Grown g site) {n : ClassName} (hFound : (g.find? n).isSome = true) :
    (site.graph.find? n).isSome = true := by
  obtain ⟨c, hc⟩ := Option.isSome_iff_exists.mp hFound
  obtain ⟨c', _, hc', _⟩ := h.find hc
  exact Option.isSome_of_eq_some hc'

/-- Classes that were there extend what they did. -/
theorem superclassOf_eq (h : Grown g site) {n : ClassName} (hFound : (g.find? n).isSome = true) :
    site.graph.superclassOf n = g.superclassOf n := by
  obtain ⟨c, hc⟩ := Option.isSome_iff_exists.mp hFound
  obtain ⟨c', _, hc', _, hSame⟩ := h.find hc
  rw [superclassOf_of_find? hc, superclassOf_of_find? hc', hSame]

/-- Classes that were there are what they were, methods and edges apart. -/
theorem stem_eq (h : Grown g site) {n : ClassName} (hFound : (g.find? n).isSome = true) :
    site.graph.stem? n = g.stem? n := by
  obtain ⟨c, hc⟩ := Option.isSome_iff_exists.mp hFound
  obtain ⟨c', _, hc', _, hSame⟩ := h.find hc
  rw [stem?, stem?, hc, hc', hSame]
  rfl

/-- Genesis classes are new. -/
theorem new_of_mem_created (h : Grown g site) {n : ClassName} (hn : n ∈ site.created) :
    g.find? n = none := by
  obtain ⟨b, hb, rfl⟩ := List.mem_map.mp hn
  exact outline?_eq_none.mp (h.genesis b hb).2.1

/-- The classes are those of before and the genesis classes. -/
theorem isSome_iff (h : Grown g site) (n : ClassName) :
    (site.graph.find? n).isSome = true ↔ (g.find? n).isSome = true ∨ n ∈ site.created := by
  constructor
  · intro hFound
    by_contra hNot
    rw [not_or, Option.not_isSome_iff_eq_none, ← outline?_eq_none] at hNot
    rw [outline?_eq_none.mp (h.added hNot.1 hNot.2)] at hFound
    cases hFound
  · rintro (hFound | hn)
    · exact h.isSome_of_isSome hFound
    · obtain ⟨b, hb, rfl⟩ := List.mem_map.mp hn
      obtain ⟨_, _, o, ho, _⟩ := h.genesis b hb
      obtain ⟨c, hc, _⟩ := Option.map_eq_some_iff.mp ho
      exact Option.isSome_of_eq_some hc

/-- A class that was not there before is a genesis class. -/
theorem isGenesis_of_new (h : Grown g site) {n : ClassName} {c' : ClassDef}
    (hNew : g.find? n = none) (hFind : site.graph.find? n = some c') : c'.isGenesis = true := by
  have hNow := (h.isSome_iff n).mp (Option.isSome_of_eq_some hFind)
  rw [hNew] at hNow
  obtain ⟨b, hb, rfl⟩ := List.mem_map.mp (hNow.resolve_left nofun)
  obtain ⟨_, _, o, hOutline, _, hGenesis, _⟩ := h.genesis b hb
  rw [outline?, hFind, Option.map_some, Option.some.injEq] at hOutline
  subst hOutline
  exact hGenesis

/-- One more component at a boundary that is there. -/
theorem mark (h : Grown g site) {b : Boundary} (hb : b ∈ site.boundaries)
    {component : ComponentType} (hSame : site'.boundaries = site.boundaries)
    (hGraph : site'.graph = site.graph.modify b.genesis fun c =>
      { c with marks := c.marks.mark component genesisRoles }) : Grown g site' := by
  have hOutline : ∀ n, site'.graph.outline? n =
      if n = b.genesis then (site.graph.outline? n).map fun c =>
        { c with methods := [], marks := c.marks.mark component genesisRoles }
      else site.graph.outline? n := by
    intro n
    rw [hGraph]
    apply outline?_modify
    · intro _ hc
      exact hc
    · intro _
      rfl
  have hCreated : site'.created = site.created := by rw [Site.created, hSame, Site.created]
  have hMarked : b.genesis ∈ site.created := List.mem_map_of_mem hb
  refine ⟨fun {n o} hOld => ?_, fun {n} hNone hNew => ?_, fun b' hb' => ?_, ?_⟩
  · have hn : n ≠ b.genesis := by
      rintro rfl
      rw [(h.genesis b hb).2.1] at hOld
      cases hOld
    rw [hOutline, if_neg hn, hCreated]
    exact h.kept hOld
  · rw [hCreated] at hNew
    have hn : n ≠ b.genesis := by
      rintro rfl
      exact hNew hMarked
    rw [hOutline, if_neg hn]
    exact h.added hNone hNew
  · rw [hSame] at hb'
    obtain ⟨hName, hNew, o, hFound, hSuper, hGenesis, hProgram⟩ := h.genesis b' hb'
    refine ⟨hName, hNew, ?_⟩
    rw [hOutline]
    split
    · rw [hFound]
      exact ⟨_, rfl, hSuper, hGenesis, hProgram⟩
    · exact ⟨o, hFound, hSuper, hGenesis, hProgram⟩
  · rw [Site.bottoms, hSame]
    exact h.distinct

/-- A new boundary, at a class of before. -/
theorem append (h : Grown g site) {c : ClassDef} {s : ClassName} {component : ComponentType}
    (hClass : c.outline = (bareClass component s).outline)
    (hAdd : site.graph.addClass c = .ok site'.graph)
    (hBoundaries : site'.boundaries = site.boundaries ++ [{ bottom := s, genesis := c.name }])
    (hOld : (g.find? s).isSome = true) (hOther : s ∉ site.bottoms) : Grown g site' := by
  have hName : c.name = genesisName s := congrArg ClassDef.name hClass
  have hSuper : c.superclass = some s := congrArg ClassDef.superclass hClass
  have hGenesis : c.isGenesis = true := congrArg ClassDef.isGenesis hClass
  have hKind : c.kind = .program := congrArg ClassDef.kind hClass
  have hOutline := outline?_addClass hSuper hAdd
  have hAbsent : site.graph.outline? c.name = none :=
    outline?_eq_none.mpr (addClass_eq_ok hSuper hAdd).1
  have hNew : g.outline? c.name = none := by
    cases hWas : g.outline? c.name with
    | none => rfl
    | some o =>
        obtain ⟨more, _, hNow⟩ := h.kept hWas
        rw [hAbsent] at hNow
        cases hNow
  have hCreated : site'.created = site.created ++ [c.name] := by
    rw [Site.created, hBoundaries, List.map_append]
    rfl
  refine ⟨fun {n o} hWas => ?_, fun {n} hNone hOut => ?_, fun b hb => ?_, ?_⟩
  · obtain ⟨more, hMore, hNow⟩ := h.kept hWas
    have hn : n ≠ c.name := by
      rintro rfl
      rw [hNew] at hWas
      cases hWas
    rw [hOutline, if_neg hn, hNow, hCreated]
    split
    · refine ⟨more ++ [c.name], fun m hm => ?_, by simp⟩
      rcases List.mem_append.mp hm with hm | hm
      · exact List.mem_append_left _ (hMore m hm)
      · exact List.mem_append_right _ hm
    · exact ⟨more, fun m hm => List.mem_append_left _ (hMore m hm), rfl⟩
  · rw [hCreated, List.mem_append, not_or, List.mem_singleton] at hOut
    have hNow := h.added hNone hOut.1
    rw [hOutline, if_neg hOut.2, hNow]
    simp
  · rw [hBoundaries, List.mem_append, List.mem_singleton] at hb
    rcases hb with hb | rfl
    · obtain ⟨hNamed, hUnknown, o, hFound, hAbove, hIs, hProgram⟩ := h.genesis b hb
      have hApart : b.genesis ≠ c.name := by
        intro hEq
        rw [hEq, hAbsent] at hFound
        cases hFound
      have hBelow : b.genesis ≠ s := by
        intro hEq
        rw [← hEq, outline?_eq_none.mp hUnknown] at hOld
        cases hOld
      rw [hOutline, if_neg hApart, if_neg hBelow]
      exact ⟨hNamed, hUnknown, o, hFound, hAbove, hIs, hProgram⟩
    · refine ⟨hName, hNew, _, (hOutline c.name).trans (if_pos rfl), hSuper, hGenesis, ?_⟩
      simp [ClassDef.isProgram, hKind]
  · rw [Site.bottoms, hBoundaries, List.map_append, List.nodup_append]
    refine ⟨h.distinct, by simp, fun a ha b hb => ?_⟩
    rw [List.map_singleton, List.mem_singleton] at hb
    rw [hb]
    rintro rfl
    exact hOther ha

end Grown

/-! ## Walks -/

/-- The walk from the first class comes to the second. -/
inductive Reached (g : ClassGraph) (component : ComponentType) :
    ClassName → ClassName → Prop where
  | here {name : ClassName} {c : ClassDef} : g.find? name = some c →
      onWalk component c = true → Reached g component name name
  | through {root child name : ClassName} {c : ClassDef} : g.find? root = some c →
      onWalk component c = true → child ∈ c.subclasses → Reached g component child name →
      Reached g component root name

/-- A class of the program in the graph. -/
def HasProgram (g : ClassGraph) (name : ClassName) : Prop :=
  ∃ c, g.find? name = some c ∧ c.isProgram = true

theorem HasProgram.found {g : ClassGraph} {name : ClassName} (h : HasProgram g name) :
    (g.find? name).isSome = true := by
  obtain ⟨c, hc, _⟩ := h
  exact Option.isSome_of_eq_some hc

theorem Reached.found {g : ClassGraph} {component : ComponentType} {root name : ClassName}
    (h : Reached g component root name) : (g.find? root).isSome = true := by
  cases h with
  | here hFind _ => exact Option.isSome_of_eq_some hFind
  | through hFind _ _ _ => exact Option.isSome_of_eq_some hFind

/-- The walk goes through what it comes to. -/
theorem Reached.onWalk {g : ClassGraph} {component : ComponentType} {root name : ClassName}
    (h : Reached g component root name) :
    ∃ c, g.find? name = some c ∧ onWalk component c = true := by
  induction h with
  | here hFind hOn => exact ⟨_, hFind, hOn⟩
  | through _ _ _ _ ih => exact ih

section

variable {g : ClassGraph} {site : Site} {component : ComponentType}

/-- The walk through a class of before, in the graph as it is now. -/
theorem walkWithin_kept (h : Grown g site) {root : ClassName} {c : ClassDef}
    (hFind : g.find? root = some c) :
    ∃ more, (∀ m ∈ more, m ∈ site.created) ∧ ∀ depth,
      walkWithin site.graph component (depth + 1) root =
        if onWalk component c then (if c.isProgram then [root] else []) ++
          (c.subclasses ++ more).flatMap (walkWithin site.graph component depth)
        else [] := by
  obtain ⟨c', more, hFind', hMore, hSame⟩ := h.find hFind
  refine ⟨more, hMore, fun depth => ?_⟩
  have hWalk : onWalk component c' = onWalk component c := by rw [hSame]; rfl
  have hProgram : c'.isProgram = c.isProgram := by rw [hSame]; rfl
  have hBelow : c'.subclasses = c.subclasses ++ more := by rw [hSame]
  simp only [walkWithin, hFind', hWalk, hProgram, hBelow]

/-- The walk does not enter a genesis class. -/
theorem walkWithin_new (h : Grown g site) {root : ClassName} (hNew : g.find? root = none)
    (depth : Nat) : walkWithin site.graph component depth root = [] := by
  cases depth with
  | zero => rfl
  | succ depth =>
      rw [walkWithin]
      cases hFind : site.graph.find? root with
      | none => rfl
      | some c' => simp [onWalk, h.isGenesis_of_new hNew hFind]

/-- A walk among genesis classes comes to nothing that a walk without them would not.  What is new
below a class is a genesis class, and leads back. -/
theorem reached_of_mem_walkWithin (h : Grown g site) {n : ClassName} :
    ∀ {depth : Nat} {root : ClassName}, n ∈ walkWithin site.graph component depth root →
      Reached g component root n ∧ HasProgram g n := by
  intro depth
  induction depth with
  | zero => intro root hn; cases hn
  | succ depth ih =>
      intro root hn
      cases hFind : g.find? root with
      | none => rw [walkWithin_new h hFind] at hn; cases hn
      | some c =>
          obtain ⟨more, hMore, hWalk⟩ := walkWithin_kept h hFind
          rw [hWalk] at hn
          split at hn
          · next hOn =>
              rcases List.mem_append.mp hn with hn | hn
              · split at hn
                · next hProgram =>
                    obtain rfl := List.mem_singleton.mp hn
                    exact ⟨.here hFind hOn, c, hFind, hProgram⟩
                · cases hn
              · obtain ⟨child, hChild, hn⟩ := List.mem_flatMap.mp hn
                obtain ⟨hReached, hProgram⟩ := ih hn
                rcases List.mem_append.mp hChild with hChild | hChild
                · exact ⟨.through hFind hOn hChild hReached, hProgram⟩
                · have hFound := hReached.found
                  rw [h.new_of_mem_created (hMore child hChild)] at hFound
                  cases hFound
          · cases hn

/-- A class that is reached has the chain of the root in its own, and the walk finds it within as
many levels as there are classes between. -/
theorem Reached.exists_lineage (hSync : InSync g) (h : Grown g site) {root n : ClassName}
    (hReached : Reached g component root n) :
    ∀ {chain : List ClassName}, Lineage g root chain →
      ∃ between, Lineage g n (between ++ chain) ∧
        (HasProgram g n → ∀ depth, between.length < depth →
          n ∈ walkWithin site.graph component depth root) := by
  induction hReached with
  | @here name c hFind hOn =>
      intro chain hChain
      refine ⟨[], hChain, fun ⟨c', hFind', hProgram⟩ depth hDepth => ?_⟩
      obtain rfl := Option.some.inj (hFind.symm.trans hFind')
      obtain ⟨more, _, hWalk⟩ := walkWithin_kept h hFind
      obtain ⟨depth, rfl⟩ := Nat.exists_eq_succ_of_ne_zero (Nat.ne_of_gt hDepth)
      rw [hWalk, if_pos hOn, if_pos hProgram]
      exact List.mem_cons_self
  | @through root child name c hFind hOn hChild _ ih =>
      intro chain hChain
      obtain ⟨between, hLineage, hWithin⟩ := ih (.under (hSync.down hFind hChild) hChain)
      refine ⟨between ++ [root], by simpa using hLineage, fun hProgram depth hDepth => ?_⟩
      rw [List.length_append, List.length_singleton] at hDepth
      obtain ⟨more, _, hWalk⟩ := walkWithin_kept h hFind
      obtain ⟨depth, rfl⟩ := Nat.exists_eq_succ_of_ne_zero (Nat.ne_zero_of_lt hDepth)
      rw [hWalk, if_pos hOn]
      refine List.mem_append_right _ (List.mem_flatMap.mpr ⟨child, ?_, ?_⟩)
      · exact List.mem_append_left more hChild
      · exact hWithin hProgram depth (by omega)

/-- **The walk finds the program classes reached in the graph of before.**  Its depth is enough,
since the classes between the root and a class that is reached are all different. -/
theorem mem_walk_iff (hSync : InSync g) (hAcyclic : Acyclic g) (h : Grown g site)
    {root n : ClassName} :
    n ∈ walk site.graph component root ↔ Reached g component root n ∧ HasProgram g n := by
  refine ⟨reached_of_mem_walkWithin h, fun ⟨hReached, hProgram⟩ => ?_⟩
  obtain ⟨chain, hChain⟩ := ClassGraph.exists_lineage hSync.rooted hAcyclic root
  obtain ⟨between, hLineage, hWithin⟩ := hReached.exists_lineage hSync h hChain
  refine hWithin hProgram _ ?_
  have hFound : ∀ m ∈ n :: (between ++ chain), (site.graph.find? m).isSome = true := by
    intro m hm
    refine h.isSome_of_isSome ?_
    rcases List.mem_cons.mp hm with rfl | hm
    · exact hProgram.found
    · exact hLineage.found hSync.rooted m hm
  have hLength := length_le_of_found (List.nodup_cons.mpr ⟨hLineage.not_mem, hLineage.nodup⟩) hFound
  rw [List.length_cons, List.length_append] at hLength
  omega

end

end HotPatch.Genesis
