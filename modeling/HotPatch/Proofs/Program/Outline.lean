import HotPatch.Proofs.Basics
import HotPatch.Proofs.Program.Hierarchy

/-!
# What changes of the graph leave alone

Most changes of a class are changes of its methods; its outline is the rest.
What does not depend on the edges between classes either is its stem.  For
every change of the graph this module says which outline or stem each name
has afterwards, so that the theory of hierarchies never looks at a method.
-/

namespace HotPatch

/-- A class without its methods. -/
def ClassDef.outline (c : ClassDef) : ClassDef := { c with methods := [] }

/-- A class without its methods and its edges to other classes. -/
def ClassDef.stem (c : ClassDef) : ClassDef :=
  { c with methods := [], superclass := none, subclasses := [] }

namespace ClassGraph

def outline? (g : ClassGraph) (name : ClassName) : Option ClassDef :=
  (g.find? name).map ClassDef.outline

def stem? (g : ClassGraph) (name : ClassName) : Option ClassDef :=
  (g.find? name).map ClassDef.stem

theorem outline?_eq_none {g : ClassGraph} {name : ClassName} :
    g.outline? name = none ↔ g.find? name = none := by
  simp [outline?]

/-- Outlines show superclasses. -/
theorem superclassOf_eq_outline (g : ClassGraph) (name : ClassName) :
    g.superclassOf name = (g.outline? name).bind (·.superclass) := by
  rw [superclassOf, outline?]
  cases g.find? name <;> rfl

theorem stem?_eq_outline (g : ClassGraph) (name : ClassName) :
    g.stem? name = (g.outline? name).map ClassDef.stem := by
  rw [stem?, outline?]
  cases g.find? name <;> rfl

/-- A change of outlines is seen in the class changed, and there alone. -/
theorem outline?_modify {g : ClassGraph} {name : ClassName} {change : ClassDef → ClassDef}
    (hName : ∀ c, c.name = name → (change c).name = name)
    (hOutline : ∀ c, (change c).outline = (change c.outline).outline) (n : ClassName) :
    (g.modify name change).outline? n =
      if n = name then (g.outline? n).map fun c => (change c).outline else g.outline? n := by
  rw [outline?, outline?, find?_modify hName]
  split
  · simp [Function.comp_def, ← hOutline]
  · rfl

/-- Changes of methods leave all outlines alone. -/
theorem outline?_modify_methods {g : ClassGraph} {name : ClassName}
    {change : ClassDef → ClassDef} (hOutline : ∀ c, (change c).outline = c.outline)
    (n : ClassName) : (g.modify name change).outline? n = g.outline? n := by
  have hName : ∀ c, c.name = name → (change c).name = name := by
    intro c hc
    have hName : (change c).outline.name = c.outline.name := congrArg ClassDef.name (hOutline c)
    exact hName.trans hc
  rw [outline?, outline?, find?_modify hName]
  split
  · simp [Function.comp_def, hOutline]
  · rfl

/-- Outlines do not show methods. -/
theorem outline_addMethod {c c' : ClassDef} {m : Method} (h : c.addMethod m = .ok c') :
    c'.outline = c.outline := by
  unfold ClassDef.addMethod at h
  split at h
  · cases h
    rfl
  · unfold ClassDef.guarded at h
    split at h
    · cases h
    · cases h
      rfl

/-- A class is there if it is found. -/
theorem get_eq_ok {g : ClassGraph} {name : ClassName} {c : ClassDef} :
    g.get name = .ok c ↔ g.find? name = some c := by
  unfold get
  cases g.find? name <;> simp

theorem name_addMethod {c c' : ClassDef} {m : Method} (h : c.addMethod m = .ok c') :
    c'.name = c.name := by
  have hName : c'.outline.name = c.outline.name :=
    congrArg ClassDef.name (outline_addMethod h)
  exact hName

/-- A method is declared on the class that owns it, and no other class changes. -/
theorem addMethod_eq_ok {g g' : ClassGraph} {m : Method} (h : g.addMethod m = .ok g') :
    ∃ c c', g.find? m.owner = some c ∧ c.addMethod m = .ok c' ∧
      ∀ n, g'.find? n = if n = m.owner then some c' else g.find? n := by
  unfold addMethod edit at h
  cases hGet : g.get m.owner with
  | error e => rw [hGet] at h; cases h
  | ok c =>
      cases hAdd : c.addMethod m with
      | error e => simp [hGet, hAdd, bind, Except.bind] at h
      | ok c' =>
          simp only [hGet, hAdd, bind, Except.bind, pure, Except.pure, Except.ok.injEq] at h
          subst h
          have hFind := get_eq_ok.mp hGet
          have hName : c'.name = m.owner := (name_addMethod hAdd).trans (name_of_find? hFind)
          refine ⟨c, c', hFind, hAdd, fun n => ?_⟩
          rw [find?_modify fun _ _ => hName]
          split
          · next hn =>
              rw [hn, hFind, Option.map_some]
          · rfl

/-- A class that has the method already is put back as it was. -/
theorem addMethod_of_findMethod? {g : ClassGraph} {m : Method} {c : ClassDef}
    (hFind : g.find? m.owner = some c) (hHas : c.findMethod? m.name m.signature ≠ none) :
    g.addMethod m = .ok (g.modify m.owner fun _ => c) := by
  obtain ⟨_, hMethod⟩ := Option.ne_none_iff_exists'.mp hHas
  have hAdd : c.addMethod m = .ok c := by rw [ClassDef.addMethod, hMethod]
  simp [addMethod, edit, get_eq_ok.mpr hFind, hAdd, bind, Except.bind, pure, Except.pure]

theorem outline?_addMethod {g g' : ClassGraph} {m : Method} (h : g.addMethod m = .ok g')
    (n : ClassName) : g'.outline? n = g.outline? n := by
  obtain ⟨c, c', hFind, hAdd, hFind'⟩ := addMethod_eq_ok h
  rw [outline?, outline?, hFind']
  split
  · next hn =>
      rw [hn, hFind, Option.map_some, Option.map_some, outline_addMethod hAdd]
  · rfl

/-- Only the superclass hears of a new subclass. -/
theorem find?_link (g : ClassGraph) (s name n : ClassName) :
    (g.link s name).find? n =
      if n = s then (g.find? n).map fun d => { d with subclasses := d.subclasses ++ [name] }
      else g.find? n := by
  apply find?_modify
  intro _ hd
  exact hd

/-- A class is added if its name is free and its superclass is there, and the superclass lists it.
-/
theorem addClass_eq_ok {g g' : ClassGraph} {c : ClassDef} {s : ClassName}
    (hSuper : c.superclass = some s) (h : g.addClass c = .ok g') :
    g.find? c.name = none ∧ (∃ d, g.find? s = some d) ∧
      g' = (ClassGraph.mk (g.classes ++ [{ c with subclasses := [] }])).link s c.name := by
  cases c
  cases hSuper
  unfold addClass at h
  cases hGet : g.get s with
  | error e => simp [hGet, bind, Except.bind] at h
  | ok d =>
      simp only [hGet, bind, Except.bind] at h
      split at h
      · cases h
      · next hNew =>
          cases h
          exact ⟨Option.not_isSome_iff_eq_none.mp hNew, ⟨d, get_eq_ok.mp hGet⟩, rfl⟩

/-- One more class, of a new name. -/
theorem find?_append {g : ClassGraph} {c : ClassDef} (hNew : g.find? c.name = none)
    (n : ClassName) :
    (ClassGraph.mk (g.classes ++ [c])).find? n = if n = c.name then some c else g.find? n := by
  simp only [find?, List.find?_append, List.find?_singleton]
  by_cases hn : n = c.name
  · subst hn
    have hNone : g.classes.find? (·.name == c.name) = none := hNew
    simp [hNone]
  · have hn' : ¬ c.name = n := fun h => hn h.symm
    simp [hn, hn']

/-- A new class stands under its superclass, which lists it; nothing else is new. -/
theorem outline?_addClass {g g' : ClassGraph} {c : ClassDef} {s : ClassName}
    (hSuper : c.superclass = some s) (h : g.addClass c = .ok g') (n : ClassName) :
    g'.outline? n =
      if n = c.name then some { c with subclasses := [], methods := [] }
      else if n = s then
        (g.outline? n).map fun d => { d with subclasses := d.subclasses ++ [c.name] }
      else g.outline? n := by
  obtain ⟨hNew, ⟨d, hFind⟩, rfl⟩ := addClass_eq_ok hSuper h
  have hApart : s ≠ c.name := by
    rintro rfl
    rw [hFind] at hNew
    cases hNew
  rw [outline?, find?_link, find?_append (c := { c with subclasses := [] }) hNew, outline?]
  by_cases hn : n = c.name
  · subst hn
    simp [hApart.symm, ClassDef.outline]
  · by_cases hs : n = s <;> simp [hn, hs, hApart, ClassDef.outline, Function.comp_def]

private theorem stem?_modify {g : ClassGraph} {name : ClassName} {change : ClassDef → ClassDef}
    (hStem : ∀ c, (change c).stem = c.stem) (n : ClassName) :
    (g.modify name change).stem? n = g.stem? n := by
  have hName : ∀ c, c.name = name → (change c).name = name := by
    intro c hc
    have hName : (change c).stem.name = c.stem.name := congrArg ClassDef.name (hStem c)
    exact hName.trans hc
  rw [stem?, stem?, find?_modify hName]
  split
  · simp [Function.comp_def, hStem]
  · rfl

private theorem stem?_link (g : ClassGraph) (s name n : ClassName) :
    (g.link s name).stem? n = g.stem? n := by
  apply stem?_modify
  intro _
  rfl

private theorem stem?_unlink (g : ClassGraph) (s name n : ClassName) :
    (g.unlink s name).stem? n = g.stem? n := by
  apply stem?_modify
  intro _
  rfl

/-- Changes of the list of subclasses move no class. -/
theorem superclassOf_modify {g : ClassGraph} {name : ClassName} {change : ClassDef → ClassDef}
    (hName : ∀ c, c.name = name → (change c).name = name)
    (hSuper : ∀ c, (change c).superclass = c.superclass) (n : ClassName) :
    (g.modify name change).superclassOf n = g.superclassOf n := by
  rw [superclassOf, superclassOf, find?_modify hName]
  split
  · cases g.find? n with
    | none => rfl
    | some c => exact hSuper c
  · rfl

private theorem superclassOf_link (g : ClassGraph) (s name n : ClassName) :
    (g.link s name).superclassOf n = g.superclassOf n := by
  apply superclassOf_modify
  · intro _ hd
    exact hd
  · intro _
    rfl

private theorem superclassOf_unlink (g : ClassGraph) (s name n : ClassName) :
    (g.unlink s name).superclassOf n = g.superclassOf n := by
  apply superclassOf_modify
  · intro _ hd
    exact hd
  · intro _
    rfl

private theorem superclassOf_setSuperclass (g : ClassGraph) {name : ClassName} (s n : ClassName)
    (hFound : (g.find? name).isSome = true) :
    (g.modify name fun c => { c with superclass := some s }).superclassOf n =
      if n = name then some s else g.superclassOf n := by
  have hFind : (g.modify name fun c => { c with superclass := some s }).find? n =
      if n = name then (g.find? n).map fun c => { c with superclass := some s }
      else g.find? n := by
    apply find?_modify
    intro _ hc
    exact hc
  rw [superclassOf, hFind]
  split
  · next hn =>
      subst hn
      obtain ⟨c, hc⟩ := Option.isSome_iff_exists.mp hFound
      rw [hc]
      rfl
  · rfl

/-- A moved class has a new superclass; no other class has, and all stems stay. -/
theorem reparent_eq_ok {g g' : ClassGraph} {name s : ClassName}
    (h : g.reparent name s = .ok g') :
    (∀ n, g'.superclassOf n = if n = name then some s else g.superclassOf n) ∧
      ∀ n, g'.stem? n = g.stem? n := by
  unfold reparent at h
  cases hGet : g.get name with
  | error e => rw [hGet] at h; cases h
  | ok c =>
      cases hGet' : g.get s with
      | error e => simp [hGet, hGet', bind, Except.bind] at h
      | ok d =>
          have hFind := get_eq_ok.mp hGet
          simp only [hGet, hGet', bind, Except.bind, pure, Except.pure, Except.ok.injEq] at h
          subst h
          have hLinked : ∀ (base : ClassGraph) (n : ClassName),
              ((base.modify name fun c => { c with superclass := some s }).link s name).stem? n =
                base.stem? n := by
            intro base n
            refine (stem?_link _ s name n).trans ?_
            apply stem?_modify
            intro _
            rfl
          cases c.superclass with
          | none =>
              refine ⟨fun n => ?_, hLinked g⟩
              rw [superclassOf_link, superclassOf_setSuperclass g s n (by rw [hFind]; rfl)]
          | some old =>
              have hStem := stem?_unlink g old name
              refine ⟨fun n => ?_, fun n => (hLinked _ n).trans (hStem n)⟩
              have hFound : ((g.unlink old name).find? name).isSome = true := by
                have hSome := congrArg Option.isSome (hStem name)
                rw [stem?, stem?, hFind, Option.isSome_map, Option.isSome_map] at hSome
                exact hSome
              rw [superclassOf_link, superclassOf_setSuperclass _ s n hFound,
                superclassOf_unlink]

end ClassGraph

end HotPatch
