import HotPatch.Proofs.Genesis.Changes
import HotPatch.Proofs.Genesis.Synthesis
import HotPatch.Proofs.Program.Onward

/-!
# The insertion takes classes onward

Visits, moves and the whole insertion of genesis classes make of every class
what it may become (`ClassDef.Onward`), wherever they stop.  What they give to
classes of the program goes through operations that a closed class refuses, or
is a role or a body; a genesis class declares its methods one by one.
-/

namespace HotPatch.Genesis

open ClassGraph

/-! ## Genesis classes -/

private theorem apart_declareAll {methods : List Method} :
    ∀ {c c' : ClassDef}, declareAll c methods = .ok c' → Method.Apart c.methods →
      Method.Apart c'.methods := by
  induction methods with
  | nil =>
      intro c c' h hApart
      cases h
      exact hApart
  | cons m rest ih =>
      intro c c' h hApart
      obtain ⟨c₁, hAdd, hRest⟩ := declareAll_cons h
      exact ih hRest ((ClassDef.Onward.of_edited (ClassDef.edited_of_addMethod hAdd)).apart hApart)

private theorem apart_genesisClass {g : ClassGraph} {component : ComponentType}
    {bottom c : ClassDef}
    (h : genesisClass g component bottom = .ok c) : Method.Apart c.methods := by
  obtain ⟨methods, _, h⟩ := bind_eq_ok.mp h
  obtain ⟨c₁, hDeclare, h⟩ := bind_eq_ok.mp h
  cases h
  rw [mapError_eq_ok] at hDeclare
  have hApart := apart_declareAll hDeclare List.Pairwise.nil
  refine hApart.map (fun m => ?_) fun m => ?_
  · split <;> rfl
  · split <;> rfl

/-! ## Bodies that move -/

private theorem retargetMethod_frame {bottom genesis : ClassName} {m m' : Method}
    (h : retargetMethod bottom genesis m = .ok m') : m' = { m with body := m'.body } := by
  unfold retargetMethod at h
  split at h
  · cases h
    rfl
  · split at h
    · cases h
    · cases h
      rfl

private theorem frame_retargetMethods (bottom genesis : ClassName) (methods : List Method) :
    List.Forall₂ (fun m m' => m' = { m with body := m'.body }) methods
      (retargetMethods bottom genesis methods).2 := by
  induction methods with
  | nil => exact .nil
  | cons m rest ih =>
      unfold retargetMethods
      split
      · exact List.forall₂_same.mpr fun _ _ => rfl
      · next m' hRetarget => exact .cons (retargetMethod_frame hRetarget) ih

/-! ## The insertion -/

/-- Every change of the insertion leads onward. -/
theorem Change.onward {g g' : ClassGraph} (h : Change g g') : g.Onward g' := by
  cases h with
  | role name signature role =>
      refine Onward.modify (fun c => .modifyMethod fun _ m _ _ => ?_) g
      exact ⟨⟨rfl, rfl, rfl, fun _ hk => hk⟩, rfl⟩
  | mark name component =>
      refine Onward.modify (fun c => ?_) g
      exact .of_same rfl rfl rfl rfl id
  | method h => exact .of_editedAt (editedAt_of_edit (fun _ _ => ClassDef.edited_of_addMethod) h)
  | made hClass hAdd => exact .addClass (apart_genesisClass hClass) hAdd
  | moved h => exact .reparent h
  | @retargeted top c bottom genesis hFind =>
      refine Onward.modifyFound (fun _ hd => hd) fun d hd => ?_
      obtain rfl := Option.some.inj (hFind.symm.trans hd)
      refine .of_methods rfl (fun _ => ?_) fun h => ⟨h, rfl, rfl⟩
      refine (frame_retargetMethods bottom genesis c.methods).imp fun m m' h => ?_
      exact ⟨(Method.lasts_of_frame h).1, fun _ => (Method.lasts_of_frame h).2⟩

section

variable {base : ClassGraph}

theorem guards_visit (component : ComponentType) (root : ClassName) :
    Pass.Guards (Site.Holds (Onward base)) (visit component root) :=
  Change.guards_visit (fun hChange hOnward => hOnward.trans hChange.onward) component root

theorem guards_finish (boundaries : List Boundary) :
    Pass.Guards (Onward base) (finish boundaries) :=
  Change.guards_finish (fun hChange hOnward => hOnward.trans hChange.onward) boundaries

/-- **The insertion of genesis classes takes all classes onward.** -/
theorem guards_build : Pass.Guards (Onward base) build :=
  Change.guards_build fun hChange hOnward => hOnward.trans hChange.onward

end

end HotPatch.Genesis
