import HotPatch.Proofs.Genesis.Steps

/-!
# The changes that the insertion makes

All that visits and moves do to a program is a sequence of changes of six kinds
(`Change`).  What each of them keeps up, the whole insertion keeps up, wherever
it stops (`Change.guards_build`); nothing but the changes has to be looked at.
-/

namespace HotPatch.Genesis

open ClassGraph

/-- One change of a program on the way of the insertion. -/
inductive Change : ClassGraph → ClassGraph → Prop where
  | role (g : ClassGraph) (name : ClassName) (signature : Signature) (role : ConstructorRole) :
      Change g (g.modify name (·.modifyMethod .init signature fun m => { m with role }))
  | mark (g : ClassGraph) (name : ClassName) (component : ComponentType) :
      Change g (g.modify name fun c => { c with marks := c.marks.mark component genesisRoles })
  | method {g g' : ClassGraph} {m : Method} : g.addMethod m = .ok g' → Change g g'
  /-- The program that the genesis class was made for may be one of before. -/
  | made {g g' seen : ClassGraph} {component : ComponentType} {bottom c : ClassDef} :
      genesisClass seen component bottom = .ok c → g.addClass c = .ok g' → Change g g'
  | moved {g g' : ClassGraph} {top genesis : ClassName} : g.reparent top genesis = .ok g' →
      Change g g'
  | retargeted {g : ClassGraph} {top : ClassName} {c : ClassDef} (bottom genesis : ClassName) :
      g.find? top = some c → Change g (g.modify top fun d =>
        { d with methods := (retargetMethods bottom genesis c.methods).2 })

private theorem liftExcept_eq_ok {α : Type} {answer : Except Fault α} {a : α} {site site' : Site}
    (h : (openBoundary.liftExcept answer).on site = (.ok a, site')) :
    answer = .ok a ∧ site' = site := by
  cases answer with
  | error e => cases h
  | ok b =>
      cases h
      exact ⟨rfl, rfl⟩

/-- The program of a site has a property. -/
def Site.Holds (holds : ClassGraph → Prop) (site : Site) : Prop := holds site.graph

namespace Change

section

variable {holds : ClassGraph → Prop}
  (hChange : ∀ {g g' : ClassGraph}, Change g g' → holds g → holds g')

include hChange

/-! ## Visits -/

private theorem guards_onGraph {change : ClassGraph → Except GraphError ClassGraph}
    (h : ∀ g g', change g = .ok g' → Change g g') :
    Pass.Guards (Site.Holds holds) (onGraph change) := by
  refine Pass.guards_atomic fun site site' hHolds hNew => ?_
  cases hGraph : change site.graph with
  | error e =>
      rw [hGraph] at hNew
      cases hNew
  | ok g' =>
      rw [hGraph] at hNew
      cases hNew
      exact hChange (h _ g' hGraph) hHolds

private theorem guards_setRole (name : ClassName) (signature : Signature) (role : ConstructorRole) :
    Pass.Guards (Site.Holds holds) (setRole name signature role) := by
  refine guards_onGraph hChange fun g g' h => ?_
  cases h
  exact .role g name signature role

private theorem guards_addWormhole (c : ClassDef) :
    Pass.Guards (Site.Holds holds) (addWormhole c) := by
  unfold addWormhole
  split
  · exact Pass.guards_pure ()
  · exact Pass.guards_bind (guards_onGraph hChange fun _ _ h => .method h) fun _ =>
      guards_setRole hChange _ _ _

private theorem guards_openBoundary (component : ComponentType) (bottom : ClassDef) :
    Pass.Guards (Site.Holds holds) (openBoundary component bottom) := by
  unfold openBoundary
  refine Pass.guards_bind Pass.guards_get fun site => ?_
  split
  · refine guards_onGraph hChange fun g g' h => ?_
    cases h
    exact .mark g _ component
  · intro start hHolds
    refine Pass.on_bind_snd ?_ fun c middle hLift hMiddle => ?_
    · cases genesisClass site.graph component bottom <;> exact hHolds
    · obtain ⟨hClass, rfl⟩ := liftExcept_eq_ok hLift
      refine Pass.guards_bind (guards_onGraph hChange fun g g' hAdd => ?_) (fun _ => ?_) middle
        hMiddle
      · exact .made hClass hAdd
      · exact Pass.guards_modify fun _ h => h

private theorem guards_noteTop (component : ComponentType) (name : ClassName) (c : ClassDef) :
    Pass.Guards (Site.Holds holds) (noteTop component name c) := by
  unfold noteTop
  refine Pass.guards_bind Pass.guards_get fun site => ?_
  split
  · exact Pass.guards_pure ()
  · split
    · exact Pass.guards_bind (guards_openBoundary hChange component _) fun _ =>
        Pass.guards_modify fun _ h => h
    · exact Pass.guards_pure ()

private theorem guards_giveBuddy (component : ComponentType) (name : ClassName) (c : ClassDef) :
    Pass.Guards (Site.Holds holds) (giveBuddy component name c) := by
  unfold giveBuddy
  split
  · exact Pass.guards_bind (guards_addWormhole hChange c) fun _ =>
      guards_noteTop hChange component name c
  · exact guards_noteTop hChange component name c

private theorem guards_visitClass (component : ComponentType) (name : ClassName) :
    Pass.Guards (Site.Holds holds) (visitClass component name) := by
  unfold visitClass
  refine Pass.guards_bind Pass.guards_get fun site => ?_
  split
  · exact Pass.guards_pure ()
  · next c _ =>
      dsimp only
      split
      · split
        · exact Pass.guards_throw _
        · exact Pass.guards_bind (guards_setRole hChange _ _ _) fun _ =>
            guards_giveBuddy hChange component name c
      · exact guards_giveBuddy hChange component name c

private theorem guards_visitAll (component : ComponentType) (names : List ClassName) :
    Pass.Guards (Site.Holds holds) (visitAll component names) := by
  induction names with
  | nil => exact Pass.guards_pure ()
  | cons name rest ih =>
      exact Pass.guards_bind (guards_visitClass hChange component name) fun _ => ih

/-- A condition that each change of a visit keeps is kept by the visit, however it ends. -/
theorem guards_visit (component : ComponentType) (root : ClassName) :
    Pass.Guards (Site.Holds holds) (visit component root) :=
  Pass.guards_bind Pass.guards_get fun _ => guards_visitAll hChange component _

private theorem guards_visitRoots (components : List ComponentType) :
    Pass.Guards (Site.Holds holds) (visitRoots components) := by
  induction components with
  | nil => exact Pass.guards_pure ()
  | cons component rest ih =>
      unfold visitRoots
      dsimp only
      split
      · exact ih
      · refine Pass.guards_bind Pass.guards_get fun site => ?_
        split
        · exact Pass.guards_bind (guards_visit hChange component _) fun _ => ih
        · exact ih

/-! ## Moves -/

private theorem guards_moveClass (bottom genesis top : ClassName) :
    Pass.Guards holds (moveClass bottom genesis top) := by
  refine Pass.guards_bind (Pass.guards_atomic fun g g' hHolds h => hChange (.moved h) hHolds)
    fun _ g hHolds => ?_
  rw [Pass.on_get_bind]
  split
  · exact hHolds
  · next c hFind =>
      refine Pass.on_bind_snd (hChange (.retargeted bottom genesis hFind) hHolds)
        fun _ middle _ hMiddle => ?_
      split <;> exact hMiddle

private theorem guards_moveAll (bottom genesis : ClassName) (tops : List ClassName) :
    Pass.Guards holds (moveAll bottom genesis tops) := by
  induction tops with
  | nil => exact Pass.guards_pure ()
  | cons top rest ih =>
      exact Pass.guards_bind (guards_moveClass hChange bottom genesis top) fun _ => ih

/-- A condition that each change of the moves keeps is kept by them, however they end. -/
theorem guards_finish (boundaries : List Boundary) : Pass.Guards holds (finish boundaries) := by
  induction boundaries with
  | nil => exact Pass.guards_pure []
  | cons boundary rest ih =>
      refine Pass.guards_bind (guards_moveAll hChange _ _ _) fun _ => ?_
      exact Pass.guards_bind ih fun _ => Pass.guards_pure _

/-- **What every change keeps up, the insertion keeps up**, whatever its outcome. -/
theorem guards_build : Pass.Guards holds build := by
  intro g hHolds
  unfold build
  rw [Pass.on_get_bind]
  have hVisited := guards_visitRoots hChange ComponentType.all { graph := g } hHolds
  refine Pass.on_bind_snd hVisited fun _ middle _ hMiddle => ?_
  split
  · exact hMiddle
  · exact guards_finish hChange _ middle hMiddle

end

end Change

end HotPatch.Genesis
