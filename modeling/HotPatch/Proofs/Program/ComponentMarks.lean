import HotPatch.Manifest
import HotPatch.Proofs.Program.Hierarchy
import HotPatch.Proofs.Program.PackedMarks

/-!
# The marks of components

Marking the declared classes and all classes above them changes nothing but
marks (`Remarked`), so the chains are the same all the way through.  In the
end the roles of a class are those that the manifest gives it as a whole
(`mark_eq_mapClasses`), and above a class with a role stand ancestors only.
-/

namespace HotPatch

namespace ClassDef

/-- A class without its marks. -/
def unmarked (c : ClassDef) : ClassDef := { c with marks := {} }

theorem eq_of_unmarked {c c' : ClassDef} (h : c'.unmarked = c.unmarked) :
    c' = { c with marks := c'.marks } :=
  congrArg ({ · with marks := c'.marks }) h

end ClassDef

namespace ClassGraph

/-- The two graphs differ in marks only. -/
abbrev Remarked (g g' : ClassGraph) : Prop := Agree ClassDef.unmarked g g'

namespace Remarked

variable {g g' : ClassGraph}

/-- A class is what it was, with other marks. -/
theorem find (h : Remarked g g') {n : ClassName} {c : ClassDef} (hFind : g.find? n = some c) :
    ∃ marks, g'.find? n = some { c with marks } := by
  obtain ⟨c', hFind', hEq⟩ := Agree.find h hFind
  exact ⟨c'.marks, by rw [hFind', ← ClassDef.eq_of_unmarked hEq]⟩

theorem symm (h : Remarked g g') : Remarked g' g := Agree.symm h

/-- Marks are no edges. -/
theorem edges (h : Remarked g g') : Agree edges g g' :=
  h.restrict ClassGraph.edges fun _ => rfl

theorem superclassOf (h : Remarked g g') (n : ClassName) :
    g'.superclassOf n = g.superclassOf n :=
  h.edges.superclassOf n

theorem inSync (h : Remarked g g') (hSync : InSync g) : InSync g' := h.edges.inSync hSync

theorem acyclic (h : Remarked g g') (hAcyclic : Acyclic g) : Acyclic g' :=
  h.edges.acyclic hAcyclic

end Remarked

/-! ## Ways up -/

section

variable {g : ClassGraph} {n s : ClassName}

/-- Whatever is above a class or one of its ancestors is an ancestor. -/
theorem mem_ancestors_of_superclassOf (hRooted : Rooted g) (hAcyclic : Acyclic g)
    {name : ClassName} (hn : n = name ∨ n ∈ g.ancestors name) (hs : g.superclassOf n = some s) :
    s ∈ g.ancestors name := by
  obtain ⟨chain, hChain⟩ := exists_lineage hRooted hAcyclic name
  rw [hChain.ancestors_eq hRooted] at hn ⊢
  have hNext : ∀ {rest : List ClassName}, Lineage g n rest → s ∈ rest := by
    intro rest hRest
    cases hRest with
    | top hNone =>
        rw [hs] at hNone
        cases hNone
    | under hs' _ =>
        obtain rfl := Option.some.inj (hs.symm.trans hs')
        exact List.mem_cons_self
  rcases hn with rfl | hn
  · exact hNext hChain
  · obtain ⟨front, rest, rfl⟩ := List.append_of_mem hn
    exact List.mem_append_right front (List.mem_cons_of_mem n (hNext hChain.of_append))

end

end ClassGraph

/-! ## Marking -/

namespace Roles

private theorem none_union (r : Roles) : union {} r = r := by
  simp [union]

private theorem union_none (r : Roles) : union r {} = r := by
  simp [union]

private theorem union_assoc (r s t : Roles) : (r.union s).union t = r.union (s.union t) := by
  simp [union, Bool.or_assoc]

end Roles

namespace Manifest

open ClassGraph

/-- The roles that declarations give to a class: declared itself, or above a declared one. -/
def roles (m : Manifest) (g : ClassGraph) (component : ComponentType) (n : ClassName) : Roles where
  direct := m.any fun entry => entry.1 == component && entry.2 == n
  ancestor := m.any fun entry => entry.1 == component && (g.ancestors entry.2).contains n

/-- The roles that the declaration of one class gives. -/
def oneRoles (g : ClassGraph) (name n : ClassName) : Roles :=
  { direct := n == name, ancestor := (g.ancestors name).contains n }

private theorem roles_cons (entry : ComponentType × ClassName) (rest : Manifest) (g : ClassGraph)
    (component : ComponentType) (n : ClassName) :
    roles (entry :: rest) g component n =
      (roles [entry] g component n).union (roles rest g component n) := by
  simp [roles, Roles.union]

private theorem markOne_of_found {g : ClassGraph} {name : ClassName} {d : ClassDef}
    (h : g.find? name = some d) (component : ComponentType) :
    markOne g component name =
      g.mapClasses fun c =>
        { c with marks := c.marks.mark component (oneRoles g name c.name) } := by
  simp only [markOne, h, oneRoles]

theorem ancestors_eq_nil {g : ClassGraph} {name : ClassName} (h : g.find? name = none) :
    g.ancestors name = [] := by
  rw [ancestors]
  cases g.classes.length with
  | zero => rfl
  | succ steps => rw [ancestorsWithin, h]; rfl

/-- A class with the roles that declarations give it. -/
def marked (m : Manifest) (g : ClassGraph) (c : ClassDef) : ClassDef :=
  { c with marks := c.marks.union (.ofRoles fun component => m.roles g component c.name) }

/-- Marks that differ from those of a class by the roles that declarations give it, and by no bit
beyond the roles. -/
theorem marked_eq {m : Manifest} {g : ClassGraph} {c : ClassDef} {marks : ComponentMarks}
    (hGet : ∀ component,
      (c.marks.get component).union (m.roles g component c.name) = marks.get component)
    (hBeyond : ∀ i, 20 ≤ i → c.marks.word.getLsbD i = marks.word.getLsbD i) :
    m.marked g c = { c with marks } := by
  have hMarks : c.marks.union (.ofRoles fun component => m.roles g component c.name) = marks := by
    refine ComponentMarks.ext_places (fun component => ?_) fun i hi => ?_
    · rw [ComponentMarks.get_union, ComponentMarks.get_ofRoles, hGet]
    · rw [ComponentMarks.getLsbD_union_ofRoles _ _ hi, hBeyond i hi]
  rw [marked, hMarks]

private theorem get_marked (m : Manifest) (g : ClassGraph) (c : ClassDef)
    (component : ComponentType) :
    (m.marked g c).marks.get component =
      (c.marks.get component).union (m.roles g component c.name) := by
  rw [marked, ComponentMarks.get_union, ComponentMarks.get_ofRoles]

private theorem getLsbD_marked (m : Manifest) (g : ClassGraph) (c : ClassDef) {i : Nat}
    (h : 20 ≤ i) :
    (m.marked g c).marks.word.getLsbD i = c.marks.word.getLsbD i :=
  ComponentMarks.getLsbD_union_ofRoles _ _ h

/-- Declarations that give no class a role. -/
theorem mapClasses_marked_eq_self {m : Manifest} {g : ClassGraph}
    (h : ∀ c ∈ g.classes, ∀ component, m.roles g component c.name = {}) :
    g.mapClasses (m.marked g) = g := by
  have hSame : g.classes.map (m.marked g) = g.classes := by
    refine (List.map_congr_left fun c hc => ?_).trans (List.map_id' _)
    refine marked_eq (fun component => ?_) fun _ _ => rfl
    rw [h c hc, Roles.union_none]
  rw [mapClasses, hSame]

/-- One declaration. -/
theorem markOne_eq (g : ClassGraph) (entry : ComponentType × ClassName) :
    markOne g entry.1 entry.2 = g.mapClasses (marked [entry] g) := by
  obtain ⟨type, name⟩ := entry
  cases hDeclared : g.find? name with
  | none =>
      rw [mapClasses_marked_eq_self, markOne, hDeclared]
      intro c hc component
      have hOther : (name == c.name) = false := by
        rw [beq_eq_false_iff_ne]
        rintro rfl
        exact List.find?_eq_none.mp hDeclared c hc (beq_self_eq_true _)
      simp [roles, hOther, ancestors_eq_nil hDeclared]
  | some d =>
      rw [markOne_of_found hDeclared]
      refine congrArg g.mapClasses (funext fun c => (marked_eq (fun component => ?_) fun i hi =>
        (ComponentMarks.getLsbD_mark_beyond _ _ _ hi).symm).symm)
      rw [ComponentMarks.get_mark]
      by_cases hType : type = component
      · have hSame : (c.name == name) = (name == c.name) := by
          rw [Bool.eq_iff_iff, beq_iff_eq, beq_iff_eq, eq_comm]
        simp [roles, oneRoles, hType, hSame]
      · have hOther : (type == component) = false := beq_eq_false_iff_ne.mpr hType
        simp [roles, hType, hOther, Roles.union_none]

private theorem remarked_mapClasses (m : Manifest) (g : ClassGraph) :
    Remarked g (g.mapClasses (m.marked g)) := by
  apply Agree.mapClasses
  · intro _
    rfl
  · intro _
    rfl

/-- **What marking does**: every class gets the roles of all declarations.  Marks are no edges, so
each declaration finds the same classes above. -/
theorem mark_eq_mapClasses (m : Manifest) :
    ∀ g : ClassGraph, (mark g m).2 = g.mapClasses (m.marked g) := by
  induction m with
  | nil =>
      intro g
      exact (mapClasses_marked_eq_self fun _ _ _ => rfl).symm
  | cons entry rest ih =>
      intro g
      refine (ih (markOne g entry.1 entry.2)).trans ?_
      rw [markOne_eq]
      have hRest : marked rest (g.mapClasses (marked [entry] g)) = marked rest g := by
        funext c
        simp only [marked, roles, (remarked_mapClasses [entry] g).edges.ancestors]
      rw [hRest, mapClasses, mapClasses, List.map_map]
      refine congrArg ClassGraph.mk (List.map_congr_left fun c _ => ?_)
      refine marked_eq
        (fun component => Eq.trans ?_ (get_marked (entry :: rest) g c component).symm)
        fun i hi => ?_
      · rw [get_marked, roles_cons entry rest, ← Roles.union_assoc]
        rfl
      · exact (getLsbD_marked [entry] g c hi).trans (getLsbD_marked (entry :: rest) g c hi).symm

/-- Marking changes nothing but marks. -/
theorem remarked_mark (m : Manifest) (g : ClassGraph) : Remarked g (mark g m).2 := by
  rw [mark_eq_mapClasses]
  exact remarked_mapClasses m g

/-- Each class gets the marks that the manifest gives it. -/
theorem find?_mark (m : Manifest) (g : ClassGraph) (n : ClassName) :
    (mark g m).2.find? n = (g.find? n).map (m.marked g) := by
  rw [mark_eq_mapClasses]
  apply find?_mapClasses
  intro _
  rfl

/-- What marking gives the class of a name. -/
theorem mark_eq (m : Manifest) {g : ClassGraph} {n : ClassName} {c : ClassDef}
    (hFind : g.find? n = some c) :
    ∃ marks, (mark g m).2.find? n = some { c with marks } ∧ ∀ component,
      marks.get component = (c.marks.get component).union (m.roles g component n) := by
  refine ⟨_, by rw [find?_mark, hFind]; rfl, fun component => ?_⟩
  rw [ComponentMarks.get_union, ComponentMarks.get_ofRoles, name_of_find? hFind]

/-- What a class was before it was marked. -/
theorem exists_of_mark (m : Manifest) {g : ClassGraph} {n : ClassName} {d : ClassDef}
    (h : (mark g m).2.find? n = some d) :
    ∃ c, g.find? n = some c ∧ d = { c with marks := d.marks } ∧ ∀ component,
      d.marks.get component = (c.marks.get component).union (m.roles g component n) := by
  rw [find?_mark] at h
  obtain ⟨c, hFind, rfl⟩ := Option.map_eq_some_iff.mp h
  refine ⟨c, hFind, rfl, fun component => ?_⟩
  rw [get_marked, name_of_find? hFind]

/-- The roles of a class, where there were none before. -/
theorem get_mark_eq {g : ClassGraph} (hMarks : ∀ n c, g.find? n = some c → c.marks = .none)
    {m : Manifest} {n : ClassName} {c' : ClassDef} (hFind' : (mark g m).2.find? n = some c')
    (component : ComponentType) : c'.marks.get component = m.roles g component n := by
  obtain ⟨c, hFind, _, hGet⟩ := exists_of_mark m hFind'
  have hNone : c.marks.get component = {} := by
    rw [hMarks n c hFind]
    exact ComponentMarks.get_none component
  rw [hGet, hNone, Roles.none_union]

/-- The bits beyond the roles, where there were none before. -/
theorem getLsbD_mark_beyond {g : ClassGraph}
    (hMarks : ∀ n c, g.find? n = some c → c.marks = .none) {m : Manifest} {n : ClassName}
    {c' : ClassDef} (hFind' : (mark g m).2.find? n = some c') {i : Nat} (h : 20 ≤ i) :
    c'.marks.word.getLsbD i = false := by
  rw [find?_mark] at hFind'
  obtain ⟨c, hFind, rfl⟩ := Option.map_eq_some_iff.mp hFind'
  rw [getLsbD_marked m g c h, hMarks n c hFind]
  exact BitVec.getLsbD_zero

/-- Above a class with a role stands an ancestor. -/
theorem ancestor_roles {g : ClassGraph} (hRooted : Rooted g) (hAcyclic : Acyclic g)
    {m : Manifest} {component : ComponentType} {n s : ClassName}
    (hs : g.superclassOf n = some s)
    (h : (m.roles g component n).direct = true ∨ (m.roles g component n).ancestor = true) :
    (m.roles g component s).ancestor = true := by
  have hAbove : ∀ entry ∈ m, entry.1 = component →
      (n = entry.2 ∨ n ∈ g.ancestors entry.2) → (m.roles g component s).ancestor = true := by
    intro entry hEntry hType hn
    refine List.any_eq_true.mpr ⟨entry, hEntry, ?_⟩
    simpa [hType] using mem_ancestors_of_superclassOf hRooted hAcyclic hn hs
  rcases h with h | h
  · obtain ⟨entry, hEntry, hIs⟩ := List.any_eq_true.mp h
    rw [Bool.and_eq_true, beq_iff_eq, beq_iff_eq] at hIs
    exact hAbove entry hEntry hIs.1 (.inl hIs.2.symm)
  · obtain ⟨entry, hEntry, hIs⟩ := List.any_eq_true.mp h
    rw [Bool.and_eq_true, beq_iff_eq, List.contains_iff_mem] at hIs
    exact hAbove entry hEntry hIs.1 (.inr hIs.2)

end Manifest

end HotPatch
