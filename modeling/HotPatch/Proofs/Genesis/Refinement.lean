import HotPatch.Proofs.Genesis.Survey

/-!
# The insertion refines the hierarchy

When the visits are over, the tops of every boundary move under its genesis
class.  `Refines` says what has become of the hierarchy then: chains of
superclasses have genesis classes put in and are the same otherwise, each
library class that a visited class extended has one genesis class below it,
and no visited class is left under a library class.
-/

namespace HotPatch.Genesis

open ClassGraph

/-- The second graph is the first one with genesis classes between the classes visited and the
library classes above them. -/
structure Refines (g g' : ClassGraph) (V : ClassName → Prop) (created : List ClassName) :
    Prop where
  /-- Without the new classes, every chain is what it was. -/
  chains : ∀ name, (g.find? name).isSome = true →
    (g'.ancestors name).filter (· ∉ created) = g.ancestors name
  /-- The new classes are no more than those created. -/
  names : ∀ n, (g'.find? n).isSome = true ↔ (g.find? n).isSome = true ∨ n ∈ created
  fresh : ∀ n ∈ created, g.find? n = none
  /-- The classes created are the genesis classes of different library classes, namely of all
  that a visited class extended. -/
  genesis : ∃ bottoms : List ClassName, created = bottoms.map genesisName ∧ bottoms.Nodup ∧
    created.Nodup ∧ ∀ s, s ∈ bottoms ↔ IsBottom g V s
  /-- A genesis class extends its library class. -/
  above : ∀ s, IsBottom g V s → ∃ c, g'.find? (genesisName s) = some c ∧
    c.superclass = some s ∧ c.isGenesis = true ∧ c.isProgram = true
  /-- The classes visited under a library class extend its genesis class. -/
  moved : ∀ t s, V t → g.superclassOf t = some s → IsBottom g V s →
    g'.superclassOf t = some (genesisName s)
  /-- No boundary is left open. -/
  closed : ∀ t s, V t → g'.superclassOf t = some s → ¬ HasLibrary g' s
  /-- No class moves that was not visited. -/
  stays : ∀ n, (g.find? n).isSome = true → ¬ V n → g'.superclassOf n = g.superclassOf n

section

variable {g g' : ClassGraph} {V : ClassName → Prop} {site : Site} {created : List ClassName}

/-- Two boundaries have no top in common, as it would be under two library classes. -/
theorem Surveyed.apart (h : Surveyed g V site) :
    site.boundaries.Pairwise fun b b' => ∀ n ∈ b.tops, n ∉ b'.tops := by
  have hApart := List.pairwise_map.mp h.distinct
  refine hApart.imp_of_mem fun {b b'} hb hb' hNe n hn hn' => hNe ?_
  have hs := ((h.tops b hb n).mp hn).2
  have hs' := ((h.tops b' hb' n).mp hn').2
  exact Option.some.inj (hs.symm.trans hs')

private theorem Surveyed.created_eq (h : Surveyed g V site) :
    site.created = site.bottoms.map genesisName := by
  rw [Site.created, Site.bottoms, List.map_map]
  exact List.map_congr_left fun b hb => (h.genesis b hb).1

/-- What the moves make of a surveyed graph. -/
structure Moved (g g' : ClassGraph) (V : ClassName → Prop) (site : Site) : Prop where
  below : ∀ t s, V t → g.superclassOf t = some s → IsBottom g V s →
    g'.superclassOf t = some (genesisName s)
  others : ∀ n, (∀ s, V n → g.superclassOf n = some s → ¬ HasLibrary g s) →
    g'.superclassOf n = site.graph.superclassOf n
  stem : ∀ n, g'.stem? n = site.graph.stem? n

/-- Moves that all succeed make the genesis classes known and put the classes below them. -/
theorem Surveyed.finish (h : Surveyed g V site)
    (hFinish : (finish site.boundaries).on site.graph = (.ok created, g')) :
    created = site.created ∧ Moved g g' V site := by
  obtain ⟨hCreated, hMoved, hStays, hStem⟩ := finish_eq_ok hFinish h.apart
  refine ⟨hCreated, fun t s hV hs hBottom => ?_, fun n hNone => ?_, hStem⟩
  · obtain ⟨b, hb, rfl⟩ := List.mem_map.mp ((h.mem_bottoms s).mpr hBottom)
    rw [hMoved b hb t ((h.tops b hb t).mpr ⟨hV, hs⟩), (h.genesis b hb).1]
  · refine hStays n fun b hb hn => ?_
    obtain ⟨hV, hs⟩ := (h.tops b hb n).mp hn
    exact hNone _ hV hs ((h.mem_bottoms _).mp (List.mem_map_of_mem hb)).2

private theorem hasLibrary_iff_stem {name : ClassName} :
    HasLibrary g name ↔ ∃ o, g.stem? name = some o ∧ o.isLibrary = true := by
  rw [HasLibrary, stem?]
  cases g.find? name with
  | none => simp
  | some c => simp [ClassDef.stem, ClassDef.isLibrary]

namespace Moved

variable (hMoved : Moved g g' V site) (h : Surveyed g V site)

include hMoved

/-- Moves neither add classes nor remove any. -/
theorem isSome_iff (n : ClassName) :
    (g'.find? n).isSome = true ↔ (site.graph.find? n).isSome = true := by
  have hStem := congrArg Option.isSome (hMoved.stem n)
  rw [stem?, stem?, Option.isSome_map, Option.isSome_map] at hStem
  rw [hStem]

include h

/-- A class of before moved under a genesis class, or has the superclass it had. -/
theorem superclassOf_cases {n : ClassName} (hFound : (g.find? n).isSome = true) :
    (∃ s, g.superclassOf n = some s ∧ IsBottom g V s ∧
        g'.superclassOf n = some (genesisName s)) ∨
      g'.superclassOf n = g.superclassOf n ∧
        ∀ s, V n → g.superclassOf n = some s → ¬ HasLibrary g s := by
  by_cases hTop : ∃ s, V n ∧ g.superclassOf n = some s ∧ HasLibrary g s
  · obtain ⟨s, hV, hs, hLibrary⟩ := hTop
    have hBottom : IsBottom g V s := ⟨⟨n, hV, hs⟩, hLibrary⟩
    exact .inl ⟨s, hs, hBottom, hMoved.below n s hV hs hBottom⟩
  · have hNone : ∀ s, V n → g.superclassOf n = some s → ¬ HasLibrary g s :=
      fun s hV hs hLibrary => hTop ⟨s, hV, hs, hLibrary⟩
    exact .inr ⟨(hMoved.others n hNone).trans (h.superclassOf_eq hFound), hNone⟩

/-- The genesis class of a library class, when all have moved. -/
theorem exists_genesis {s : ClassName} (hBottom : IsBottom g V s) :
    ∃ c, g'.find? (genesisName s) = some c ∧ c.superclass = some s ∧ c.isGenesis = true ∧
      c.isProgram = true := by
  obtain ⟨b, hb, rfl⟩ := List.mem_map.mp ((h.mem_bottoms s).mpr hBottom)
  obtain ⟨hName, hNew, o, ho, hAbove, hIs, hProgram⟩ := h.genesis b hb
  rw [hName] at hNew ho
  have hStays : g'.superclassOf (genesisName b.bottom) = some b.bottom := by
    rw [hMoved.others, superclassOf_eq_outline, ho]
    · exact hAbove
    · intro s _ hs
      rw [superclassOf_eq_outline, hNew] at hs
      cases hs
  have hStem : g'.stem? (genesisName b.bottom) = some o.stem := by
    rw [hMoved.stem, stem?_eq_outline, ho]
    rfl
  obtain ⟨c, hc, hEq⟩ := Option.map_eq_some_iff.mp hStem
  have hGenesis : c.stem.isGenesis = o.stem.isGenesis := congrArg ClassDef.isGenesis hEq
  have hKind : c.stem.isProgram = o.stem.isProgram := congrArg ClassDef.isProgram hEq
  refine ⟨c, hc, ?_, hGenesis.trans hIs, hKind.trans hProgram⟩
  rw [← superclassOf_of_find? hc, hStays]

/-- Classes that were there are of the library as before. -/
theorem hasLibrary_iff {s : ClassName} (hFound : (g.find? s).isSome = true) :
    HasLibrary g' s ↔ HasLibrary g s := by
  rw [hasLibrary_iff_stem, hasLibrary_iff_stem, hMoved.stem, h.stem_eq hFound]

/-- Every superclass is still in the graph. -/
theorem rooted (hRooted : Rooted g) : Rooted g' := by
  intro n s hs
  by_cases hFound : (g.find? n).isSome = true
  · rcases hMoved.superclassOf_cases h hFound with ⟨s', _, hBottom, hs'⟩ | ⟨hSame, _⟩
    · obtain rfl := Option.some.inj (hs.symm.trans hs')
      obtain ⟨c, hc, _⟩ := hMoved.exists_genesis h hBottom
      exact Option.isSome_of_eq_some hc
    · rw [hMoved.isSome_iff, h.isSome_iff]
      exact .inl (hRooted n s (hSame ▸ hs))
  · have hNow := (h.isSome_iff n).mp ((hMoved.isSome_iff n).mp (isSome_of_superclassOf hs))
    have hMem := hNow.resolve_left hFound
    rw [h.created_eq, List.mem_map] at hMem
    obtain ⟨bottom, hMem, rfl⟩ := hMem
    have hBottom := (h.mem_bottoms bottom).mp hMem
    obtain ⟨c, hc, hSuper, _⟩ := hMoved.exists_genesis h hBottom
    rw [superclassOf_of_find? hc, hSuper] at hs
    obtain rfl := Option.some.inj hs
    rw [hMoved.isSome_iff, h.isSome_iff]
    exact .inl hBottom.2.found

/-- The chain of a class, with genesis classes put in. -/
theorem exists_lineage (hRooted : Rooted g) {name : ClassName} {chain : List ClassName}
    (hLineage : Lineage g name chain) :
    (g.find? name).isSome = true →
      ∃ chain', Lineage g' name chain' ∧ chain'.filter (· ∉ site.created) = chain := by
  induction hLineage with
  | top hNone =>
      intro hFound
      rcases hMoved.superclassOf_cases h hFound with ⟨s, hs, _⟩ | ⟨hSame, _⟩
      · rw [hNone] at hs
        cases hs
      · exact ⟨[], .top (hSame.trans hNone), rfl⟩
  | @under name s chain hs _ ih =>
      intro hFound
      have hAbove := hRooted name s hs
      have hOld : s ∉ site.created := by
        intro hMem
        rw [h.new_of_mem_created hMem] at hAbove
        cases hAbove
      obtain ⟨rest, hRest, hFilter⟩ := ih hAbove
      rcases hMoved.superclassOf_cases h hFound with ⟨s', hs', hBottom, hNow⟩ | ⟨hSame, _⟩
      · obtain rfl := Option.some.inj (hs.symm.trans hs')
        obtain ⟨c, hc, hSuper, _⟩ := hMoved.exists_genesis h hBottom
        have hMem : genesisName s ∈ site.created := by
          rw [h.created_eq]
          exact List.mem_map_of_mem ((h.mem_bottoms s).mpr hBottom)
        refine ⟨genesisName s :: s :: rest, .under hNow (.under ?_ hRest), ?_⟩
        · rw [superclassOf_of_find? hc, hSuper]
        · simp only [List.filter_cons, hMem, hOld, hFilter, not_true_eq_false, not_false_eq_true,
            decide_false, decide_true, if_true, Bool.false_eq_true, if_false]
      · refine ⟨s :: rest, .under (hSame.trans hs) hRest, ?_⟩
        simp only [List.filter_cons, hOld, hFilter, not_false_eq_true, decide_true, if_true]

end Moved

/-- **The insertion refines the hierarchy and leaves no boundary open.**  For any visits of a
graph without cycles that all succeed, and the moves after them. -/
theorem refines_of_visitEach_finish (hSync : InSync g) (hAcyclic : Acyclic g)
    {visits : List (ComponentType × ClassName)}
    (hVisit : (visitEach visits).on { graph := g } = (.ok (), site))
    (hFinish : (finish site.boundaries).on site.graph = (.ok created, g')) :
    Refines g g' (Visited g visits) created := by
  have h := surveyed_of_visitEach hSync hAcyclic hVisit
  obtain ⟨rfl, hMoved⟩ := h.finish hFinish
  have hFound : ∀ t, Visited g visits t → (g.find? t).isSome = true := by
    rintro t ⟨_, hProgram⟩
    exact hProgram.found
  refine ⟨fun name hName => ?_, fun n => ?_, fun n hn => h.new_of_mem_created hn, ?_,
    fun s hBottom => hMoved.exists_genesis h hBottom, hMoved.below, fun t s hV hs hLibrary => ?_,
    fun n hName hNot => ?_⟩
  · obtain ⟨chain, hChain⟩ := ClassGraph.exists_lineage hSync.rooted hAcyclic name
    obtain ⟨chain', hChain', hFilter⟩ := hMoved.exists_lineage h hSync.rooted hChain hName
    rw [hChain'.ancestors_eq (hMoved.rooted h hSync.rooted), hChain.ancestors_eq hSync.rooted,
      hFilter]
  · rw [hMoved.isSome_iff, h.isSome_iff]
  · refine ⟨site.bottoms, h.created_eq, h.distinct, ?_, h.mem_bottoms⟩
    rw [h.created_eq]
    exact h.distinct.map fun _ _ => genesisName_injective
  · rcases hMoved.superclassOf_cases h (hFound t hV) with ⟨s', _, hBottom, hs'⟩ | ⟨hSame, hNone⟩
    · obtain rfl := Option.some.inj (hs.symm.trans hs')
      obtain ⟨c, hc, _, _, hProgram⟩ := hMoved.exists_genesis h hBottom
      obtain ⟨c', hc', hIs⟩ := hLibrary
      obtain rfl := Option.some.inj (hc.symm.trans hc')
      rw [ClassDef.isProgram, beq_iff_eq] at hProgram
      rw [ClassDef.isLibrary, hProgram] at hIs
      cases hIs
    · have hs₀ := hSame.symm.trans hs
      exact hNone s hV hs₀ ((hMoved.hasLibrary_iff h (hSync.rooted t s hs₀)).mp hLibrary)
  · rw [hMoved.others n fun s hV => absurd hV hNot, h.superclassOf_eq hName]

end

/-- A constructor that only calls the one of the superclass. -/
def plainConstructor (owner superclass : ClassName) : Method where
  owner := owner
  name := .init
  signature := .void []
  access := { pub := true, isInitializer := true }
  body := some
    ⟨0, 1, [.invoke .direct .fixed [.p 0] ⟨superclass, .init, .void []⟩, .returnVoid], 0⟩

def topName : ClassName := .of "java/lang/Object"
def screenName : ClassName := .of "android/app/Activity"
def mainName : ClassName := .of "a/Main"
def detailName : ClassName := .of "a/Detail"
def helperName : ClassName := .of "a/Helper"

/-- Two components under a library class, one below the other, and a class without a role. -/
def screens : ClassGraph := ⟨[
  { name := topName, kind := .library, access := {}, subclasses := [screenName] },
  { name := screenName, kind := .library, access := {}, superclass := some topName
    subclasses := [mainName, helperName], methods := [plainConstructor screenName topName]
    marks := (ComponentMarks.none.mark .activity { ancestor := true }).mark .service
      { ancestor := true } },
  { name := mainName, kind := .program, access := {}, superclass := some screenName
    subclasses := [detailName], methods := [plainConstructor mainName screenName]
    marks := (ComponentMarks.none.mark .activity { direct := true, ancestor := true }).mark .service
      { ancestor := true } },
  { name := detailName, kind := .program, access := {}, superclass := some mainName
    methods := [plainConstructor detailName mainName]
    marks := ComponentMarks.none.mark .activity { direct := true } },
  { name := helperName, kind := .program, access := {}, superclass := some screenName
    methods := [plainConstructor helperName screenName] }]⟩

def screenVisits : List (ComponentType × ClassName) :=
  [(.activity, screenName), (.service, screenName)]

/-- The second visit comes to a boundary that the first one has opened. -/
theorem refines_of_visitEach_finish_screens :
    ∃ site g', InSync screens ∧ Acyclic screens ∧
      (visitEach screenVisits).on { graph := screens } = (.ok (), site) ∧
      (finish site.boundaries).on site.graph = (.ok [genesisName screenName], g') ∧
      Refines screens g' (Visited screens screenVisits) [genesisName screenName] := by
  have hSync : InSync screens := by decide +kernel
  have hAcyclic : Acyclic screens := by decide +kernel
  have hVisit : ((visitEach screenVisits).on { graph := screens }).1 = .ok () := by
    decide +kernel
  obtain ⟨site, hSite⟩ : ∃ site, site = ((visitEach screenVisits).on { graph := screens }).2 :=
    ⟨_, rfl⟩
  have hFinish : ((finish site.boundaries).on site.graph).1 = .ok [genesisName screenName] := by
    subst hSite
    decide +kernel
  have hVisit' : (visitEach screenVisits).on { graph := screens } = (.ok (), site) :=
    Prod.ext hVisit hSite.symm
  have hFinish' : (finish site.boundaries).on site.graph =
      (.ok [genesisName screenName], ((finish site.boundaries).on site.graph).2) :=
    Prod.ext hFinish rfl
  exact ⟨site, _, hSync, hAcyclic, hVisit', hFinish',
    refines_of_visitEach_finish hSync hAcyclic hVisit' hFinish'⟩

end HotPatch.Genesis
