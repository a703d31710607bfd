import Mathlib.Data.List.Perm.Subperm
import Mathlib.Data.List.Nodup
import HotPatch.Program.Graph

/-!
# Superclass chains

The way up from a class is followed by `ancestors`, in as many steps as there
are classes.  `Lineage` is the chain itself, without a number of steps.  In a
graph that holds all superclasses, a chain never repeats a class, so the steps
are enough (`ancestors_eq`); and where no class is its own ancestor, every
class has a chain (`exists_lineage`).

All of this depends on the edges alone: graphs that agree in these have the
same chains (`Agree.ancestors`).
-/

namespace HotPatch.ClassGraph

/-- The name of the direct superclass. -/
def superclassOf (g : ClassGraph) (name : ClassName) : Option ClassName :=
  (g.find? name).bind (·.superclass)

/-- Classes are found under their names. -/
theorem name_of_find? {g : ClassGraph} {name : ClassName} {c : ClassDef}
    (h : g.find? name = some c) : c.name = name := by
  simpa using List.find?_some h

theorem superclassOf_of_find? {g : ClassGraph} {name : ClassName} {c : ClassDef}
    (h : g.find? name = some c) : g.superclassOf name = c.superclass := by
  rw [superclassOf, h, Option.bind_some]

/-- What has a superclass is a class of the graph. -/
theorem find?_of_superclassOf {g : ClassGraph} {name s : ClassName}
    (h : g.superclassOf name = some s) : ∃ c, g.find? name = some c ∧ c.superclass = some s :=
  Option.bind_eq_some_iff.mp h

theorem isSome_of_superclassOf {g : ClassGraph} {name s : ClassName}
    (h : g.superclassOf name = some s) : (g.find? name).isSome = true := by
  obtain ⟨c, hc, _⟩ := find?_of_superclassOf h
  exact Option.isSome_of_eq_some hc

/-- A change that leaves the name alone is seen in the class changed, and there alone. -/
theorem find?_modify {g : ClassGraph} {name : ClassName} {change : ClassDef → ClassDef}
    (hName : ∀ c, c.name = name → (change c).name = name) (n : ClassName) :
    (g.modify name change).find? n = if n = name then (g.find? n).map change else g.find? n := by
  have hSame : ∀ c : ClassDef,
      ((if c.name = name then change c else c).name == n) = (c.name == n) := by
    intro c
    split
    · next hc => rw [hName c hc, hc]
    · rfl
  simp only [find?, modify, mapClasses, List.find?_map, Function.comp_def, hSame]
  cases hFind : g.classes.find? (·.name == n) with
  | none => simp
  | some c =>
      have hc : c.name = n := by simpa using List.find?_some hFind
      by_cases hn : n = name <;> simp [hc, hn]

/-- The edges between classes: a superclass is in the graph and lists its subclasses, and whoever
is listed extends it. -/
structure InSync (g : ClassGraph) : Prop where
  up : ∀ {name s : ClassName}, g.superclassOf name = some s →
    ∃ d, g.find? s = some d ∧ name ∈ d.subclasses
  down : ∀ {name sub : ClassName} {d : ClassDef}, g.find? name = some d → sub ∈ d.subclasses →
    g.superclassOf sub = some name

/-- The edges are in sync if they are at every class that can be found. -/
theorem inSync_iff {g : ClassGraph} :
    InSync g ↔ ∀ c ∈ g.classes, g.find? c.name = some c →
      (∀ s ∈ c.superclass, ∃ d ∈ g.find? s, c.name ∈ d.subclasses) ∧
        ∀ sub ∈ c.subclasses, g.superclassOf sub = some c.name := by
  constructor
  · intro h c _ hFind
    refine ⟨fun s hs => h.up ?_, fun sub hSub => h.down hFind hSub⟩
    rw [superclassOf_of_find? hFind]
    exact hs
  · intro h
    refine ⟨fun {name s} hs => ?_, fun {name sub d} hFind hSub => ?_⟩
    · obtain ⟨c, hFind, hSuper⟩ := Option.bind_eq_some_iff.mp hs
      obtain rfl := name_of_find? hFind
      exact (h c (List.mem_of_find?_eq_some hFind) hFind).1 s hSuper
    · obtain rfl := name_of_find? hFind
      exact (h d (List.mem_of_find?_eq_some hFind) hFind).2 sub hSub

instance (g : ClassGraph) : Decidable (InSync g) := decidable_of_iff' _ inSync_iff

/-- Every superclass is in the graph. -/
def Rooted (g : ClassGraph) : Prop :=
  ∀ name s, g.superclassOf name = some s → (g.find? s).isSome = true

/-- Links that are in sync lead to classes of the graph. -/
theorem InSync.rooted {g : ClassGraph} (h : InSync g) : Rooted g := by
  intro name s hSuper
  obtain ⟨d, hFind, _⟩ := h.up hSuper
  exact Option.isSome_of_eq_some hFind

/-- No class is above itself. -/
def Acyclic (g : ClassGraph) : Prop := ∀ name, name ∉ g.ancestors name

private theorem acyclic_iff {g : ClassGraph} :
    Acyclic g ↔ ∀ c ∈ g.classes, c.name ∉ g.ancestors c.name := by
  refine ⟨fun h c _ => h c.name, fun h name hMem => ?_⟩
  cases hFind : g.find? name with
  | none =>
      have hNone : ∀ steps, g.ancestorsWithin steps name = [] := by
        intro steps
        cases steps with
        | zero => rfl
        | succ steps => rw [ancestorsWithin, hFind]; rfl
      rw [ancestors, hNone] at hMem
      cases hMem
  | some c =>
      obtain rfl := name_of_find? hFind
      exact h c (List.mem_of_find?_eq_some hFind) hMem

instance (g : ClassGraph) : Decidable (Acyclic g) := decidable_of_iff' _ acyclic_iff

/-- Names that are all in the graph, and all different, are no more than its classes. -/
theorem length_le_of_found {g : ClassGraph} {names : List ClassName} (hNodup : names.Nodup)
    (hFound : ∀ n ∈ names, (g.find? n).isSome = true) : names.length ≤ g.classes.length := by
  have hSub : names ⊆ g.classes.map (·.name) := by
    intro n hn
    obtain ⟨c, hc⟩ := Option.isSome_iff_exists.mp (hFound n hn)
    exact List.mem_map.mpr ⟨c, List.mem_of_find?_eq_some hc, name_of_find? hc⟩
  simpa using (hNodup.subperm hSub).length_le

/-! ## Chains -/

/-- The chain of superclasses of a class, nearest first, up to the top. -/
inductive Lineage (g : ClassGraph) : ClassName → List ClassName → Prop where
  | top {name : ClassName} : g.superclassOf name = none → Lineage g name []
  | under {name s : ClassName} {chain : List ClassName} : g.superclassOf name = some s →
      Lineage g s chain → Lineage g name (s :: chain)

namespace Lineage

variable {g : ClassGraph} {name : ClassName} {chain : List ClassName}

/-- A class has one lineage. -/
theorem unique (h : Lineage g name chain) :
    ∀ {chain' : List ClassName}, Lineage g name chain' → chain' = chain := by
  induction h with
  | top hNone =>
      intro chain' h'
      cases h' with
      | top _ => rfl
      | under hSome _ => rw [hNone] at hSome; cases hSome
  | under hSuper _ ih =>
      intro chain' h'
      cases h' with
      | top hNone => rw [hSuper] at hNone; cases hNone
      | under hSuper' hRest =>
          obtain rfl := Option.some.inj (hSuper.symm.trans hSuper')
          rw [ih hRest]

/-- Behind a class of a chain comes that class's own chain. -/
theorem of_append {front : List ClassName} {x : ClassName} {rest : List ClassName} :
    ∀ {name : ClassName}, Lineage g name (front ++ x :: rest) → Lineage g x rest := by
  induction front with
  | nil =>
      intro name h
      cases h with
      | under _ hRest => exact hRest
  | cons y front ih =>
      intro name h
      cases h with
      | under _ hRest => exact ih hRest

/-- No class with a lineage is above itself. -/
theorem not_mem (h : Lineage g name chain) : name ∉ chain := by
  intro hMem
  obtain ⟨front, rest, rfl⟩ := List.append_of_mem hMem
  have hLength := congrArg List.length (unique h (of_append h))
  simp at hLength
  omega

/-- No class is twice in a lineage. -/
theorem nodup (h : Lineage g name chain) : chain.Nodup := by
  induction h with
  | top _ => exact List.nodup_nil
  | under _ hRest ih => exact List.nodup_cons.mpr ⟨hRest.not_mem, ih⟩

/-- All classes above one of the graph are in the graph. -/
theorem found (hRooted : Rooted g) (h : Lineage g name chain) :
    ∀ n ∈ chain, (g.find? n).isSome = true := by
  induction h with
  | top _ => intro n hn; cases hn
  | under hSuper _ ih =>
      intro n hn
      rcases List.mem_cons.mp hn with rfl | hn
      · exact hRooted _ _ hSuper
      · exact ih n hn

/-- Climbing for long enough gives the whole lineage. -/
theorem ancestorsWithin (h : Lineage g name chain) :
    ∀ {steps : Nat}, chain.length ≤ steps → g.ancestorsWithin steps name = chain := by
  induction h with
  | @top name hNone =>
      intro steps _
      have hNone' : (g.find? name).bind (·.superclass) = none := hNone
      cases steps with
      | zero => rfl
      | succ steps => rw [ClassGraph.ancestorsWithin, hNone']
  | @under name s chain hSuper _ ih =>
      intro steps hLe
      have hSuper' : (g.find? name).bind (·.superclass) = some s := hSuper
      cases steps with
      | zero => simp at hLe
      | succ steps =>
          rw [ClassGraph.ancestorsWithin, hSuper']
          exact congrArg (s :: ·) (ih (Nat.le_of_succ_le_succ hLe))

/-- The steps that `ancestors` takes are enough. -/
theorem ancestors_eq (hRooted : Rooted g) (h : Lineage g name chain) :
    g.ancestors name = chain :=
  h.ancestorsWithin (length_le_of_found h.nodup (h.found hRooted))

end Lineage

/-! ## Every class has a chain -/

private theorem mem_ancestorsWithin_of_le {g : ClassGraph} {x : ClassName} :
    ∀ {steps more : Nat} {name : ClassName}, steps ≤ more →
      x ∈ g.ancestorsWithin steps name → x ∈ g.ancestorsWithin more name := by
  intro steps
  induction steps with
  | zero => intro more name _ h; cases h
  | succ steps ih =>
      intro more name hLe h
      cases more with
      | zero => omega
      | succ more =>
          rw [ancestorsWithin] at h ⊢
          split at h
          · cases h
          · next s hSuper =>
              rcases List.mem_cons.mp h with rfl | h
              · exact List.mem_cons_self
              · exact List.mem_cons_of_mem _ (ih (Nat.le_of_succ_le_succ hLe) h)

private theorem found_ancestorsWithin {g : ClassGraph} (hRooted : Rooted g) {x : ClassName} :
    ∀ {steps : Nat} {name : ClassName}, x ∈ g.ancestorsWithin steps name →
      (g.find? x).isSome = true := by
  intro steps
  induction steps with
  | zero => intro name h; cases h
  | succ steps ih =>
      intro name h
      rw [ancestorsWithin] at h
      split at h
      · cases h
      · next s hSuper =>
          rcases List.mem_cons.mp h with rfl | h
          · exact hRooted _ _ hSuper
          · exact ih h

/-- In an acyclic graph the climb comes to no class twice. -/
theorem nodup_ancestorsWithin {g : ClassGraph} (hAcyclic : Acyclic g) :
    ∀ {steps : Nat} {name : ClassName}, steps ≤ g.classes.length + 1 →
      (g.ancestorsWithin steps name).Nodup := by
  intro steps
  induction steps with
  | zero => intro name _; exact List.nodup_nil
  | succ steps ih =>
      intro name hLe
      rw [ancestorsWithin]
      split
      · exact List.nodup_nil
      · next s hSuper =>
          refine List.nodup_cons.mpr ⟨fun hMem => hAcyclic s ?_, ih (by omega)⟩
          exact mem_ancestorsWithin_of_le (by omega) hMem

/-- The way up comes to its end, or takes all steps it is given. -/
theorem lineage_or_length (g : ClassGraph) :
    ∀ (steps : Nat) (name : ClassName), Lineage g name (g.ancestorsWithin steps name) ∨
      (g.ancestorsWithin steps name).length = steps := by
  intro steps
  induction steps with
  | zero => intro name; exact .inr rfl
  | succ steps ih =>
      intro name
      rw [ancestorsWithin]
      split
      · next hNone => exact .inl (.top hNone)
      · next s hSuper =>
          rcases ih s with hLineage | hLength
          · exact .inl (.under hSuper hLineage)
          · exact .inr (by rw [List.length_cons, hLength])

/-- **Where no class is above itself, every class has a chain.**  A way of more steps than there
are classes would come by one of them twice. -/
theorem exists_lineage {g : ClassGraph} (hRooted : Rooted g) (hAcyclic : Acyclic g)
    (name : ClassName) : ∃ chain, Lineage g name chain := by
  rcases lineage_or_length g (g.classes.length + 1) name with hLineage | hLength
  · exact ⟨_, hLineage⟩
  · have hFound : ∀ n ∈ g.ancestorsWithin (g.classes.length + 1) name,
        (g.find? n).isSome = true := fun n hn => found_ancestorsWithin hRooted hn
    have hLe := length_le_of_found (nodup_ancestorsWithin hAcyclic (Nat.le_refl _)) hFound
    omega

/-! ## Graphs that agree -/

/-- Changing all classes changes the one that is found. -/
theorem find?_mapClasses (g : ClassGraph) {change : ClassDef → ClassDef}
    (hName : ∀ c, (change c).name = c.name) (n : ClassName) :
    (g.mapClasses change).find? n = (g.find? n).map change := by
  have hSame : (fun c : ClassDef => c.name == n) ∘ change = fun c => c.name == n := by
    funext c
    rw [Function.comp_apply, hName]
  rw [find?, find?, mapClasses, List.find?_map, hSame]

/-- The two graphs are the same, as far as a view of their classes goes. -/
structure Agree {α : Type} (view : ClassDef → α) (g g' : ClassGraph) : Prop where
  length : g'.classes.length = g.classes.length
  classes : ∀ n, (g'.find? n).map view = (g.find? n).map view

/-- The classes next to a class, above and below. -/
def edges (c : ClassDef) : Option ClassName × List ClassName := (c.superclass, c.subclasses)

namespace Agree

variable {α β : Type} {view : ClassDef → α} {g g' g'' : ClassGraph}

theorem refl (g : ClassGraph) : Agree view g g := ⟨rfl, fun _ => rfl⟩

theorem trans (h : Agree view g g') (h' : Agree view g' g'') : Agree view g g'' :=
  ⟨h'.length.trans h.length, fun n => (h'.classes n).trans (h.classes n)⟩

theorem symm (h : Agree view g g') : Agree view g' g :=
  ⟨h.length.symm, fun n => (h.classes n).symm⟩

/-- A class is there in both graphs. -/
theorem find (h : Agree view g g') {n : ClassName} {c : ClassDef} (hFind : g.find? n = some c) :
    ∃ c', g'.find? n = some c' ∧ view c' = view c := by
  have hSame := h.classes n
  rw [hFind, Option.map_some] at hSame
  exact Option.map_eq_some_iff.mp hSame

/-- A view that shows less. -/
theorem restrict (h : Agree view g g') {less : ClassDef → β} (part : α → β)
    (hLess : ∀ c, less c = part (view c)) : Agree less g g' := by
  refine ⟨h.length, fun n => ?_⟩
  have hEq : less = part ∘ view := funext hLess
  rw [hEq, ← Option.map_map, ← Option.map_map, h.classes]

/-- A change of all classes that the view does not show. -/
theorem mapClasses {change : ClassDef → ClassDef} (hName : ∀ c, (change c).name = c.name)
    (hView : ∀ c, view (change c) = view c) (g : ClassGraph) :
    Agree view g (g.mapClasses change) := by
  refine ⟨by simp [ClassGraph.mapClasses], fun n => ?_⟩
  rw [find?_mapClasses g hName, Option.map_map]
  exact congrArg (Option.map · (g.find? n)) (funext hView)

/-- A change of one class that the view does not show. -/
theorem modify {name : ClassName} {change : ClassDef → ClassDef}
    (hName : ∀ c, c.name = name → (change c).name = name)
    (hView : ∀ c, g.find? name = some c → view (change c) = view c) :
    Agree view g (g.modify name change) := by
  refine ⟨by simp [ClassGraph.modify, ClassGraph.mapClasses], fun n => ?_⟩
  rw [find?_modify hName]
  split
  · next hn =>
      subst hn
      cases hFind : g.find? n with
      | none => rfl
      | some c => exact congrArg some (hView c hFind)
  · rfl

theorem superclassOf (h : Agree edges g g') (n : ClassName) :
    g'.superclassOf n = g.superclassOf n := by
  have hEdges : ∀ base : ClassGraph,
      base.superclassOf n = ((base.find? n).map edges).bind Prod.fst := by
    intro base
    rw [ClassGraph.superclassOf]
    cases base.find? n <;> rfl
  rw [hEdges, hEdges, h.classes]

/-- The ancestors are given by the edges. -/
theorem ancestors (h : Agree edges g g') (n : ClassName) : g'.ancestors n = g.ancestors n := by
  have hWithin : ∀ steps n, g'.ancestorsWithin steps n = g.ancestorsWithin steps n := by
    intro steps
    induction steps with
    | zero =>
        intro n
        rfl
    | succ steps ih =>
        intro n
        have hSuper : (g'.find? n).bind (·.superclass) = (g.find? n).bind (·.superclass) :=
          h.superclassOf n
        rw [ancestorsWithin, ancestorsWithin, hSuper]
        split
        · rfl
        · rw [ih]
  rw [ClassGraph.ancestors, ClassGraph.ancestors, h.length, hWithin]

theorem inSync (h : Agree edges g g') (hSync : InSync g) : InSync g' where
  up := fun {name s} hs => by
    rw [h.superclassOf] at hs
    obtain ⟨d, hFind, hMem⟩ := hSync.up hs
    obtain ⟨d', hFind', hEdges⟩ := h.find hFind
    have hBelow : d'.subclasses = d.subclasses := congrArg Prod.snd hEdges
    exact ⟨d', hFind', hBelow ▸ hMem⟩
  down := fun {name sub d'} hFind' hMem => by
    obtain ⟨d, hFind, hEdges⟩ := h.symm.find hFind'
    have hBelow : d.subclasses = d'.subclasses := congrArg Prod.snd hEdges
    rw [h.superclassOf]
    exact hSync.down hFind (hBelow ▸ hMem)

theorem acyclic (h : Agree edges g g') (hAcyclic : Acyclic g) : Acyclic g' := by
  intro n
  rw [h.ancestors]
  exact hAcyclic n

end Agree

end HotPatch.ClassGraph
