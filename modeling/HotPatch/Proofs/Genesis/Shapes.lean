import HotPatch.Proofs.Genesis.Additions

/-!
# What the insertion goes by

Marks and walks depend on the edges between classes, on where classes come
from and on their marks.  That is the shape of a class.  Programs whose
classes have the same shapes get the same marks, and the insertion finds the
same classes to restructure in them.
-/

namespace HotPatch

open ClassGraph Genesis

/-- All that marks and walks depend on. -/
def ClassDef.shape (c : ClassDef) : ClassDef :=
  { c with
    access := {}, methods := [], fields := []
    disabled := false, vendorPush := false }

namespace ClassDef

variable {c c' : ClassDef}

theorem name_of_shape (h : c'.shape = c.shape) : c'.name = c.name := by
  have hName : c'.shape.name = c.shape.name := congrArg ClassDef.name h
  exact hName

theorem superclass_of_shape (h : c'.shape = c.shape) : c'.superclass = c.superclass := by
  have hSuper : c'.shape.superclass = c.shape.superclass := congrArg ClassDef.superclass h
  exact hSuper

theorem marks_of_shape (h : c'.shape = c.shape) : c'.marks = c.marks := by
  have hMarks : c'.shape.marks = c.shape.marks := congrArg ClassDef.marks h
  exact hMarks

end ClassDef

namespace ClassGraph.Agree

variable {g g' : ClassGraph}

theorem edges (h : Agree ClassDef.shape g g') : Agree edges g g' :=
  h.restrict ClassGraph.edges fun _ => rfl

/-- Graphs of the same shape are marked alike. -/
theorem mark {m : Manifest} (h : Agree ClassDef.shape g g') :
    Agree ClassDef.shape (m.mark g).2 (m.mark g').2 := by
  have hMarked : m.marked g' = m.marked g := by
    funext c
    simp only [Manifest.marked, Manifest.roles, h.edges.ancestors]
  have hShape : ∀ (base : ClassGraph) (n : ClassName),
      ((base.find? n).map (m.marked g)).map ClassDef.shape =
        ((base.find? n).map ClassDef.shape).map (m.marked g) := by
    intro base n
    rw [Option.map_map, Option.map_map]
    rfl
  refine ⟨?_, fun n => ?_⟩
  · rw [(Manifest.remarked_mark m g).length, (Manifest.remarked_mark m g').length, h.length]
  · rw [Manifest.find?_mark, Manifest.find?_mark, hMarked, hShape, hShape, h.classes]

/-- Walks see shapes only. -/
theorem reached (h : Agree ClassDef.shape g g') {component : ComponentType} {root n : ClassName}
    (hReached : Reached g component root n) : Reached g' component root n := by
  induction hReached with
  | here hFind hOn =>
      obtain ⟨c', hFind', hShape⟩ := h.find hFind
      have hSame := congrArg (onWalk component) hShape
      exact .here hFind' (hSame.trans hOn)
  | through hFind hOn hChild _ ih =>
      obtain ⟨c', hFind', hShape⟩ := h.find hFind
      have hSame := congrArg (onWalk component) hShape
      have hBelow := congrArg ClassDef.subclasses hShape
      exact .through hFind' (hSame.trans hOn) (hBelow ▸ hChild) ih

private theorem hasLibrary (h : Agree ClassDef.shape g g') {n : ClassName}
    (hLibrary : HasLibrary g n) :
    HasLibrary g' n := by
  obtain ⟨c, hFind, hIs⟩ := hLibrary
  obtain ⟨c', hFind', hShape⟩ := h.find hFind
  have hSame := congrArg ClassDef.isLibrary hShape
  exact ⟨c', hFind', hSame.trans hIs⟩

/-- Beside its shape, only the methods of the class itself matter to the insertion. -/
theorem restructures (h : Agree ClassDef.shape g g') {n : ClassName}
    (hMethods : g'.methods? n = g.methods? n) (hRestructures : Restructures g n) :
    Restructures g' n := by
  obtain ⟨component, root, c, s, hRoot, hReached, hFind, hs, hWhy⟩ := hRestructures
  obtain ⟨c', hFind', hShape⟩ := h.find hFind
  rw [methods?_of_find? hFind, methods?_of_find? hFind', Option.some.injEq] at hMethods
  refine ⟨component, root, c', s, hRoot, h.reached hReached, hFind',
    (ClassDef.superclass_of_shape hShape).trans hs, ?_⟩
  refine hWhy.imp h.hasLibrary fun hLacks => ?_
  rw [ClassDef.marks_of_shape hShape, ClassDef.findMethod?, hMethods]
  exact hLacks

/-- Whether a class is restructured depends on the shape of the graph and its own methods. -/
theorem restructures_iff (h : Agree ClassDef.shape g g') {n : ClassName}
    (hMethods : g'.methods? n = g.methods? n) : Restructures g' n ↔ Restructures g n :=
  ⟨h.symm.restructures hMethods.symm, h.restructures hMethods⟩

end ClassGraph.Agree

end HotPatch
