import HotPatch.Proofs.Genesis.Survey
import HotPatch.Proofs.Genesis.Synthesis
import HotPatch.Proofs.Program.ComponentMarks

/-!
# Boundaries, whatever becomes of the visits

A visit that meets a fault keeps what it has done, and the classes noted by
then can still be moved.  This module says what holds of the boundaries after
any visits, of any graph: `Laid` is kept by every step, whether or not it is
the last one before a fault.

Each step leaves all classes where they are with the methods they have, and
gives roles and methods to the program's own classes only (`Later`).
-/

namespace HotPatch

/-- A class of the program that is not a genesis class. -/
def ClassDef.isOwn (c : ClassDef) : Bool := c.isProgram && !c.isGenesis

/-- Library classes are not own classes. -/
theorem isOwn_of_isLibrary {c : ClassDef} (h : c.isLibrary = true) : c.isOwn = false := by
  rw [ClassDef.isLibrary, beq_iff_eq] at h
  simp [ClassDef.isOwn, ClassDef.isProgram, h]

namespace Genesis

open ClassGraph

/-! ## Graphs later on -/

/-- A class later on: at the same place, with the methods it had and maybe more, but only an own
class has got roles or methods. -/
structure SameRole (c c' : ClassDef) : Prop where
  frame : c'.unmarked.stem = c.unmarked.stem
  superclass : c'.superclass = c.superclass
  methods : c.isOwn = false → c'.methods = c.methods
  grown : ∃ more, c'.methods.map Method.withoutRole = c.methods.map Method.withoutRole ++ more

namespace SameRole

theorem refl (c : ClassDef) : SameRole c c :=
  ⟨rfl, rfl, fun _ => rfl, [], (List.append_nil _).symm⟩

theorem kind {c c' : ClassDef} (h : SameRole c c') : c'.kind = c.kind := by
  have hKind : c'.unmarked.stem.kind = c.unmarked.stem.kind := congrArg ClassDef.kind h.frame
  exact hKind

theorem isGenesis {c c' : ClassDef} (h : SameRole c c') : c'.isGenesis = c.isGenesis := by
  have hGenesis : c'.unmarked.stem.isGenesis = c.unmarked.stem.isGenesis :=
    congrArg ClassDef.isGenesis h.frame
  exact hGenesis

theorem disabled {c c' : ClassDef} (h : SameRole c c') : c'.disabled = c.disabled := by
  have hDisabled : c'.unmarked.stem.disabled = c.unmarked.stem.disabled :=
    congrArg ClassDef.disabled h.frame
  exact hDisabled

theorem isOwn {c c' : ClassDef} (h : SameRole c c') : c'.isOwn = c.isOwn := by
  rw [ClassDef.isOwn, ClassDef.isOwn, ClassDef.isProgram, ClassDef.isProgram, h.kind, h.isGenesis]

theorem isLibrary {c c' : ClassDef} (h : SameRole c c') : c'.isLibrary = c.isLibrary := by
  rw [ClassDef.isLibrary, ClassDef.isLibrary, h.kind]

theorem trans {c c' c'' : ClassDef} (h : SameRole c c') (h' : SameRole c' c'') :
    SameRole c c'' where
  frame := h'.frame.trans h.frame
  superclass := h'.superclass.trans h.superclass
  methods := fun hOther => (h'.methods (h.isOwn.trans hOther)).trans (h.methods hOther)
  grown := by
    obtain ⟨more, hMore⟩ := h.grown
    obtain ⟨more', hMore'⟩ := h'.grown
    exact ⟨more ++ more', by rw [hMore', hMore, List.append_assoc]⟩

end SameRole

/-- All classes are still there. -/
def Later (g g' : ClassGraph) : Prop :=
  ∀ n c, g.find? n = some c → ∃ c', g'.find? n = some c' ∧ SameRole c c'

/-- An own class, and the superclass it has. -/
def OwnUnder (g : ClassGraph) (name : ClassName) (superclass : Option ClassName) : Prop :=
  ∃ c, g.find? name = some c ∧ c.isOwn = true ∧ c.superclass = superclass

theorem OwnUnder.isOwn {g : ClassGraph} {name : ClassName} {superclass : Option ClassName}
    (h : OwnUnder g name superclass) {c : ClassDef} (hFind : g.find? name = some c) :
    c.isOwn = true := by
  obtain ⟨c', hFind', hOwn, _⟩ := h
  obtain rfl := Option.some.inj (hFind.symm.trans hFind')
  exact hOwn

/-- Own classes stay where they are as long as nothing moves. -/
theorem OwnUnder.later {g g' : ClassGraph} {name : ClassName} {superclass : Option ClassName}
    (h : OwnUnder g name superclass) (hLater : Later g g') : OwnUnder g' name superclass := by
  obtain ⟨c, hFind, hOwn, hSuper⟩ := h
  obtain ⟨c', hFind', hSame⟩ := hLater name c hFind
  exact ⟨c', hFind', hSame.isOwn.trans hOwn, hSame.superclass.trans hSuper⟩

namespace Later

variable {g g' g'' : ClassGraph}

theorem refl (g : ClassGraph) : Later g g := fun _ c hFind => ⟨c, hFind, .refl c⟩

theorem trans (h : Later g g') (h' : Later g' g'') : Later g g'' := by
  intro n c hFind
  obtain ⟨c', hFind', hSame⟩ := h n c hFind
  obtain ⟨c'', hFind'', hSame'⟩ := h' n c' hFind'
  exact ⟨c'', hFind'', hSame.trans hSame'⟩

theorem modify {name : ClassName} {change : ClassDef → ClassDef}
    (hName : ∀ c, c.name = name → (change c).name = name)
    (hSame : ∀ c, g.find? name = some c → SameRole c (change c)) :
    Later g (g.modify name change) := by
  intro n c hFind
  rw [find?_modify hName]
  split
  · next hn =>
      subst hn
      rw [hFind]
      exact ⟨_, rfl, hSame c hFind⟩
  · exact ⟨c, hFind, .refl c⟩

theorem addMethod {m : Method} {s : Option ClassName} (h : g.addMethod m = .ok g')
    (hOwn : OwnUnder g m.owner s) : Later g g' := by
  obtain ⟨c₀, c₁, hFind₀, hAdd, hFind'⟩ := addMethod_eq_ok h
  intro n c hFind
  rw [hFind']
  split
  · next hn =>
      subst hn
      obtain rfl := Option.some.inj (hFind₀.symm.trans hFind)
      have hOutline := outline_addMethod hAdd
      have hFrame : c₁.outline.unmarked.stem = c₀.outline.unmarked.stem :=
        congrArg (fun c => c.unmarked.stem) hOutline
      have hSuper : c₁.outline.superclass = c₀.outline.superclass :=
        congrArg ClassDef.superclass hOutline
      refine ⟨c₁, rfl, hFrame, hSuper, fun hOther => ?_, ?_⟩
      · rw [hOwn.isOwn hFind] at hOther
        cases hOther
      · rw [ClassDef.methods_addMethod hAdd]
        exact Method.exists_addOnce _ _
  · exact ⟨c, hFind, .refl c⟩

theorem addClass {c : ClassDef} {s : ClassName} (hSuper : c.superclass = some s)
    (h : g.addClass c = .ok g') : Later g g' := by
  obtain ⟨hNew, _, rfl⟩ := addClass_eq_ok hSuper h
  intro n d hFind
  have hn : n ≠ c.name := by
    rintro rfl
    rw [hNew] at hFind
    cases hFind
  rw [find?_link, find?_append (c := { c with subclasses := [] }) hNew, if_neg hn]
  split
  · rw [hFind]
    exact ⟨_, rfl, rfl, rfl, fun _ => rfl, [], (List.append_nil _).symm⟩
  · exact ⟨d, hFind, .refl d⟩

end Later

/-! ## Boundaries -/

/-- A boundary as it was made: between a library class and classes of the program that extend it,
with a genesis class that offers the constructors of the library class. -/
structure Stands (g : ClassGraph) (b : Boundary) : Prop where
  named : b.genesis = genesisName b.bottom
  once : b.tops.Nodup
  tops : ∀ t ∈ b.tops, OwnUnder g t (some b.bottom)
  ends : ∃ p c, g.find? b.bottom = some p ∧ p.isLibrary = true ∧
    g.find? b.genesis = some c ∧ c.isGenesis = true ∧ Offers p c
  /-- The genesis class is one of the program's, and not left alone. -/
  enabled : ∃ c, g.find? b.genesis = some c ∧ c.isProgram = true ∧ c.disabled = false

/-- Boundaries stay. -/
theorem Stands.later {g g' : ClassGraph} {b : Boundary} (h : Stands g b) (hLater : Later g g') :
    Stands g' b where
  named := h.named
  once := h.once
  tops := fun t ht => (h.tops t ht).later hLater
  ends := by
    obtain ⟨p, c, hp, hLibrary, hc, hGenesis, hOffers⟩ := h.ends
    obtain ⟨p', hp', hSame⟩ := hLater _ p hp
    obtain ⟨c', hc', hSame'⟩ := hLater _ c hc
    have hOther : c.isOwn = false := by simp [ClassDef.isOwn, hGenesis]
    refine ⟨p', c', hp', hSame.isLibrary.trans hLibrary, hc', hSame'.isGenesis.trans hGenesis, ?_⟩
    refine hOffers.congr ?_ (hSame.methods (isOwn_of_isLibrary hLibrary)) (hSame'.methods hOther)
    rw [name_of_find? hp, name_of_find? hp']
  enabled := by
    obtain ⟨c, hc, hProgram, hEnabled⟩ := h.enabled
    obtain ⟨c', hc', hSame⟩ := hLater _ c hc
    refine ⟨c', hc', ?_, hSame.disabled.trans hEnabled⟩
    rw [ClassDef.isProgram, hSame.kind]
    exact hProgram

/-- The boundaries are at different library classes, and each stands. -/
structure Laid (site : Site) : Prop where
  distinct : site.bottoms.Nodup
  stands : ∀ b ∈ site.boundaries, Stands site.graph b

theorem Laid.start (g : ClassGraph) : Laid { graph := g } where
  distinct := List.nodup_nil
  stands := nofun

/-- What visits do to a site. -/
structure Builds (site site' : Site) : Prop where
  later : Later site.graph site'.graph
  laid : Laid site → Laid site'

namespace Builds

theorem refl (site : Site) : Builds site site := ⟨.refl _, id⟩

theorem trans {site site' site'' : Site} (h : Builds site site') (h' : Builds site' site'') :
    Builds site site'' :=
  ⟨h.later.trans h'.later, fun hLaid => h'.laid (h.laid hLaid)⟩

/-- Two steps, the first of which may stop at a fault. -/
theorem bind {α β : Type} {site : Site} {pass : Pass Site α} {next : α → Pass Site β}
    (hFirst : Builds site (pass.on site).2)
    (hNext : ∀ a middle, pass.on site = (.ok a, middle) → Builds site middle →
      Builds middle ((next a).on middle).2) : Builds site ((pass >>= next).on site).2 := by
  rw [Pass.on_bind]
  cases hOn : pass.on site with
  | mk answer middle =>
      rw [hOn] at hFirst
      cases answer with
      | error e => exact hFirst
      | ok a => exact hFirst.trans (hNext a middle hOn hFirst)

/-- A change of the graph alone. -/
theorem of_later {site site' : Site} (h : Later site.graph site'.graph)
    (hSame : site'.boundaries = site.boundaries) : Builds site site' := by
  refine ⟨h, fun hLaid => ⟨?_, ?_⟩⟩
  · rw [Site.bottoms, hSame]
    exact hLaid.distinct
  · rw [hSame]
    exact fun b hb => (hLaid.stands b hb).later h

theorem onGraph {change : ClassGraph → Except GraphError ClassGraph} {site : Site}
    (h : ∀ g', change site.graph = .ok g' → Later site.graph g') :
    Builds site ((onGraph change).on site).2 := by
  rw [Genesis.onGraph, Pass.on_atomic]
  cases hChange : change site.graph with
  | error e => exact refl site
  | ok g' => exact of_later (h g' hChange) rfl

/-- One more boundary. -/
theorem append {site : Site} {b : Boundary} (hNew : b.bottom ∉ site.bottoms)
    (h : Stands site.graph b) : Builds site { site with boundaries := site.boundaries ++ [b] } := by
  refine ⟨.refl _, fun hLaid => ⟨?_, fun b' hb' => ?_⟩⟩
  · rw [Site.bottoms, List.map_append, List.map_singleton, List.nodup_append]
    refine ⟨hLaid.distinct, List.nodup_singleton _, fun s hs s' hs' hEq => ?_⟩
    rw [List.mem_singleton.mp hs'] at hEq
    exact hNew (hEq ▸ hs)
  · rcases List.mem_append.mp hb' with hb' | hb'
    · exact hLaid.stands b' hb'
    · rw [List.mem_singleton.mp hb']
      exact h

/-- One more top of a boundary. -/
theorem addTop {site : Site} {s name : ClassName} (hUnder : OwnUnder site.graph name (some s)) :
    Builds site { site with boundaries := addTop s name site.boundaries } := by
  refine ⟨.refl _, fun hLaid => ⟨?_, fun b' hb' => ?_⟩⟩
  · have hSame : (Genesis.addTop s name site.boundaries).map (·.bottom) = site.bottoms :=
      map_addTop fun _ _ => rfl
    rw [Site.bottoms, hSame]
    exact hLaid.distinct
  · obtain ⟨b, hb, rfl⟩ := List.mem_map.mp hb'
    have hStands := hLaid.stands b hb
    split
    · next hTop =>
        refine ⟨hStands.named, ?_, fun t ht => ?_, hStands.ends, hStands.enabled⟩
        · rw [List.nodup_append]
          refine ⟨hStands.once, List.nodup_singleton _, fun t ht t' ht' hEq => ?_⟩
          rw [List.mem_singleton.mp ht'] at hEq
          exact hTop.2 (hEq ▸ ht)
        · rcases List.mem_append.mp ht with ht | ht
          · exact hStands.tops t ht
          · rw [List.mem_singleton.mp ht]
            exact hTop.1 ▸ hUnder
    · exact hStands

theorem openBoundary {component : ComponentType} {bottom : ClassDef} {site : Site}
    (hFind : site.graph.find? bottom.name = some bottom) (hLibrary : bottom.isLibrary = true) :
    Builds site ((openBoundary component bottom).on site).2 := by
  unfold Genesis.openBoundary
  rw [Pass.on_get_bind]
  split
  · refine onGraph fun g' hChange => ?_
    cases hChange
    refine Later.modify (fun _ hc => hc) fun c _ => ?_
    exact ⟨rfl, rfl, fun _ => rfl, [], (List.append_nil _).symm⟩
  · next hNone =>
      cases hClass : genesisClass site.graph component bottom with
      | error e => exact refl site
      | ok c =>
          have hOutline := outline_genesisClass hClass
          have hName : c.name = genesisName bottom.name := congrArg ClassDef.name hOutline
          have hSuper : c.superclass = some bottom.name :=
            congrArg ClassDef.superclass hOutline
          have hGenesis : c.isGenesis = true := congrArg ClassDef.isGenesis hOutline
          have hKind : c.isProgram = true := congrArg ClassDef.isProgram hOutline
          have hEnabled : c.disabled = false := congrArg ClassDef.disabled hOutline
          simp only [openBoundary.liftExcept, pure_bind]
          refine bind (onGraph fun g' hAdd => .addClass hSuper hAdd) ?_
          intro _ middle hAdded hBuilds
          obtain ⟨g', hAdd, rfl⟩ := onGraph_eq_ok.mp hAdded
          have hNot : bottom.name ∉ site.bottoms := by
            intro hMem
            obtain ⟨b, hb, hBottom⟩ := List.mem_map.mp hMem
            exact List.find?_eq_none.mp hNone b hb (by simp [hBottom])
          obtain ⟨bottom', hFind', hSame⟩ := hBuilds.later _ _ hFind
          have hFindClass : g'.find? c.name = some { c with subclasses := [] } := by
            obtain ⟨hNew, _, rfl⟩ := addClass_eq_ok hSuper hAdd
            have hApart : c.name ≠ bottom.name := by
              intro hEq
              rw [hEq, hFind] at hNew
              cases hNew
            rw [find?_link, if_neg hApart, find?_append (c := { c with subclasses := [] }) hNew,
              if_pos rfl]
          refine append hNot ⟨hName, List.nodup_nil, nofun, ⟨bottom', _, hFind',
            hSame.isLibrary.trans hLibrary, hFindClass, hGenesis, ?_⟩,
            _, hFindClass, hKind, hEnabled⟩
          refine (offers_genesisClass hClass).congr ?_ ?_ rfl
          · exact name_of_find? hFind'
          · exact hSame.methods (isOwn_of_isLibrary hLibrary)

/-! ## Visits -/

theorem setRole {name : ClassName} {signature : Signature} {role : ConstructorRole} {site : Site}
    {s : Option ClassName} (hUnder : OwnUnder site.graph name s) :
    Builds site ((setRole name signature role).on site).2 := by
  refine onGraph fun g' hChange => ?_
  cases hChange
  refine Later.modify (fun _ hc => hc) fun c hc => ⟨rfl, rfl, fun hOther => ?_, [], ?_⟩
  · rw [hUnder.isOwn hc] at hOther
    cases hOther
  · rw [List.append_nil]
    exact Method.map_withoutRole_giveRole signature role c.methods

theorem addWormhole {c : ClassDef} {site : Site} {s : Option ClassName}
    (hUnder : OwnUnder site.graph c.name s) : Builds site ((addWormhole c).on site).2 := by
  unfold Genesis.addWormhole
  split
  · exact refl site
  · refine bind (onGraph fun g' hAdd => .addMethod hAdd hUnder) fun _ middle _ hBuilds => ?_
    exact setRole (hUnder.later hBuilds.later)

theorem noteTop {component : ComponentType} {name : ClassName} {c : ClassDef} {site : Site}
    (hUnder : OwnUnder site.graph name c.superclass) :
    Builds site ((noteTop component name c).on site).2 := by
  unfold Genesis.noteTop
  rw [Pass.on_get_bind]
  split
  · exact refl site
  · next parent hParent =>
      obtain ⟨s, hSuper, hFind⟩ := Option.bind_eq_some_iff.mp hParent
      obtain rfl := name_of_find? hFind
      split
      · next hLibrary =>
          refine bind (openBoundary hFind hLibrary) fun _ middle _ hBuilds => ?_
          exact addTop (hSuper ▸ hUnder.later hBuilds.later)
      · exact refl site

theorem giveBuddy {component : ComponentType} {c : ClassDef} {site : Site}
    (hUnder : OwnUnder site.graph c.name c.superclass) :
    Builds site ((giveBuddy component c.name c).on site).2 := by
  unfold Genesis.giveBuddy
  split
  · refine bind (addWormhole hUnder) fun _ middle _ hBuilds => ?_
    exact noteTop (hUnder.later hBuilds.later)
  · exact noteTop hUnder

/-- A visit of an own class builds, up to the fault it meets. -/
theorem visitClass {component : ComponentType} {name : ClassName} {site : Site}
    {s : Option ClassName} (hUnder : OwnUnder site.graph name s) :
    Builds site ((visitClass component name).on site).2 := by
  obtain ⟨c, hFind, hOwn, rfl⟩ := hUnder
  obtain rfl := name_of_find? hFind
  have hUnder : OwnUnder site.graph c.name c.superclass := ⟨c, hFind, hOwn, rfl⟩
  unfold Genesis.visitClass
  rw [Pass.on_get_bind]
  simp only [hFind]
  split
  · split
    · exact refl site
    · refine bind (setRole hUnder) fun _ middle _ hBuilds => ?_
      exact giveBuddy (hUnder.later hBuilds.later)
  · exact giveBuddy hUnder

theorem visitAll {component : ComponentType} {names : List ClassName} :
    ∀ {site : Site}, (∀ name ∈ names, ∃ s, OwnUnder site.graph name s) →
      Builds site ((visitAll component names).on site).2 := by
  induction names with
  | nil =>
      intro site _
      exact refl site
  | cons name rest ih =>
      intro site hOwn
      obtain ⟨s, hFirst⟩ := hOwn name List.mem_cons_self
      refine bind (visitClass hFirst) fun _ middle _ hBuilds => ?_
      apply ih
      intro n hn
      obtain ⟨s', hUnder⟩ := hOwn n (List.mem_cons_of_mem name hn)
      exact ⟨s', hUnder.later hBuilds.later⟩

end Builds

/-- The walk finds own classes only. -/
theorem ownUnder_of_mem_walkWithin {g : ClassGraph} {component : ComponentType} {n : ClassName} :
    ∀ {depth : Nat} {root : ClassName}, n ∈ walkWithin g component depth root →
      ∃ s, OwnUnder g n s := by
  intro depth
  induction depth with
  | zero =>
      intro root hn
      cases hn
  | succ depth ih =>
      intro root hn
      rw [walkWithin] at hn
      split at hn
      · cases hn
      · next c hFind =>
          split at hn
          · next hWalk =>
              rcases List.mem_append.mp hn with hn | hn
              · split at hn
                · next hProgram =>
                    obtain rfl := List.mem_singleton.mp hn
                    simp only [onWalk, Bool.and_eq_true, Bool.not_eq_true'] at hWalk
                    exact ⟨_, c, hFind, by simp [ClassDef.isOwn, hProgram, hWalk], rfl⟩
                · cases hn
              · obtain ⟨child, _, hn⟩ := List.mem_flatMap.mp hn
                exact ih hn
          · cases hn

/-- Visits only build: they add classes and methods, and move nothing. -/
theorem Builds.visit (component : ComponentType) (root : ClassName) (site : Site) :
    Builds site ((visit component root).on site).2 := by
  unfold Genesis.visit
  rw [Pass.on_get_bind]
  exact visitAll fun _ hn => ownUnder_of_mem_walkWithin hn

/-- The site after some visits, each of which may have stopped at a fault. -/
def siteAfter (g : ClassGraph) (visits : List (ComponentType × ClassName)) : Site :=
  visits.foldl (fun site v => ((visit v.1 v.2).on site).2) { graph := g }

/-- Lists of visits only build, too. -/
theorem builds_siteAfter (g : ClassGraph) (visits : List (ComponentType × ClassName)) :
    Builds { graph := g } (siteAfter g visits) := by
  have hRun : ∀ (visits : List (ComponentType × ClassName)) (site : Site),
      Builds site (visits.foldl (fun site v => ((visit v.1 v.2).on site).2) site) := by
    intro visits
    induction visits with
    | nil =>
        intro site
        exact .refl site
    | cons v rest ih =>
        intro site
        exact (Builds.visit v.1 v.2 site).trans (ih _)
  exact hRun visits _

/-- **After any visits, the boundaries stand.** -/
theorem laid_siteAfter (g : ClassGraph) (visits : List (ComponentType × ClassName)) :
    Laid (siteAfter g visits) :=
  (builds_siteAfter g visits).laid (Laid.start g)

end Genesis

end HotPatch
