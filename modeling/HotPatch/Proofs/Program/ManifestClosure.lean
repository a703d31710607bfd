import Mathlib.Logic.Relation
import HotPatch.Proofs.Program.ComponentMarks

/-!
# Marks are the closure of the manifest

What a manifest says of a component type is a set of classes.  Marking it
follows the superclasses of each, one after the other, and adds to what is
there.  Where no class is above itself, what comes out is told by the set
alone: the classes in it are marked as declared, all that is above one of them
as an ancestor, and nothing else is marked (`mark_closure`).
-/

namespace HotPatch

namespace ClassGraph

/-! ## Ways up of any length -/

/-- The second class is above the first. -/
def Above (g : ClassGraph) : ClassName → ClassName → Prop :=
  Relation.TransGen fun n s => g.superclassOf n = some s

variable {g : ClassGraph} {name s : ClassName}

private theorem Lineage.mem_iff_above {chain : List ClassName} (h : Lineage g name chain) :
    s ∈ chain ↔ g.Above name s := by
  induction h with
  | @top name hNone =>
      refine ⟨fun hMem => absurd hMem List.not_mem_nil, fun hAbove => ?_⟩
      obtain ⟨next, hNext, _⟩ := Relation.TransGen.head'_iff.mp hAbove
      rw [hNone] at hNext
      cases hNext
  | @under name next chain hNext _ ih =>
      rw [List.mem_cons, ih]
      constructor
      · rintro (rfl | hAbove)
        · exact .single hNext
        · exact .head hNext hAbove
      · intro hAbove
        obtain ⟨next', hNext', hRest⟩ := Relation.TransGen.head'_iff.mp hAbove
        obtain rfl := Option.some.inj (hNext.symm.trans hNext')
        exact Relation.reflTransGen_iff_eq_or_transGen.mp hRest

/-- A way that takes one step more than it is long leaves from classes of the graph only. -/
theorem found_of_length_ancestorsWithin :
    ∀ {steps : Nat} {name : ClassName},
      (g.ancestorsWithin (steps + 1) name).length = steps + 1 →
        (g.ancestorsWithin steps name).length = steps ∧
          ∀ n ∈ name :: g.ancestorsWithin steps name, (g.find? n).isSome = true := by
  intro steps
  induction steps with
  | zero =>
      intro name h
      refine ⟨rfl, List.forall_mem_singleton.mpr ?_⟩
      rw [ancestorsWithin] at h
      split at h
      · cases h
      · next hNext => exact isSome_of_superclassOf hNext
  | succ steps ih =>
      intro name h
      rw [ancestorsWithin] at h ⊢
      split at h
      · cases h
      · next next hNext =>
          obtain ⟨hLength, hFound⟩ := ih (Nat.succ.inj h)
          exact ⟨congrArg Nat.succ hLength,
            List.forall_mem_cons.mpr ⟨isSome_of_superclassOf hNext, hFound⟩⟩

private theorem length_ancestorsWithin_le (g : ClassGraph) :
    ∀ (steps : Nat) (name : ClassName), (g.ancestorsWithin steps name).length ≤ steps := by
  intro steps
  induction steps with
  | zero => intro name; exact Nat.le_refl 0
  | succ steps ih =>
      intro name
      rw [ancestorsWithin]
      split
      · exact Nat.zero_le _
      · next next _ => exact Nat.succ_le_succ (ih next)

/-- The ancestors of a class are its whole chain, also where the last one is not in the graph: a
way that went on would leave from more classes than there are. -/
theorem lineage_ancestors (hAcyclic : Acyclic g) (name : ClassName) :
    Lineage g name (g.ancestors name) := by
  have hEnds : (g.ancestorsWithin (g.classes.length + 1) name).length ≠ g.classes.length + 1 := by
    intro hLength
    obtain ⟨hBefore, hFound⟩ := found_of_length_ancestorsWithin hLength
    have hNodup : (name :: g.ancestorsWithin g.classes.length name).Nodup :=
      List.nodup_cons.mpr ⟨hAcyclic name, nodup_ancestorsWithin hAcyclic (Nat.le_succ _)⟩
    have hLe := length_le_of_found hNodup hFound
    rw [List.length_cons, hBefore] at hLe
    omega
  have hChain := (lineage_or_length g (g.classes.length + 1) name).resolve_right hEnds
  have hLe := length_ancestorsWithin_le g (g.classes.length + 1) name
  rw [ancestors, hChain.ancestorsWithin (by omega)]
  exact hChain

private theorem mem_ancestors_iff (hAcyclic : Acyclic g) : s ∈ g.ancestors name ↔ g.Above name s :=
  (lineage_ancestors hAcyclic name).mem_iff_above

end ClassGraph

/-! ## Roles by declaration -/

private theorem Roles.eq_none {r : Roles} (hDirect : r.direct = false)
    (hAncestor : r.ancestor = false)
    (hGenesis : r.genesis = false) (hBuddy : r.buddy = false) : r = .none := by
  cases r
  cases hDirect
  cases hAncestor
  cases hGenesis
  cases hBuddy
  rfl

namespace Manifest

open ClassGraph

variable {m m' : Manifest} {g : ClassGraph} {component : ComponentType} {n : ClassName}

private theorem mem_declared : n ∈ m.declared component ↔ (component, n) ∈ m := by
  simp [declared]

private theorem direct_roles_iff :
    (m.roles g component n).direct = true ↔ n ∈ m.declared component := by
  simp [roles, mem_declared]

private theorem ancestor_roles_iff (hAcyclic : Acyclic g) :
    (m.roles g component n).ancestor = true ↔
      ∃ d ∈ m.declared component, (g.find? d).isSome = true ∧ g.Above d n := by
  have hFound : ∀ {d}, g.Above d n → (g.find? d).isSome = true := by
    intro d hAbove
    obtain ⟨_, hNext, _⟩ := Relation.TransGen.head'_iff.mp hAbove
    exact isSome_of_superclassOf hNext
  simp only [roles, List.any_eq_true, Bool.and_eq_true, beq_iff_eq, List.contains_iff_mem,
    mem_ancestors_iff hAcyclic, Prod.exists, mem_declared]
  constructor
  · rintro ⟨_, d, hDeclared, rfl, hAbove⟩
    exact ⟨d, hDeclared, hFound hAbove, hAbove⟩
  · rintro ⟨d, hDeclared, _, hAbove⟩
    exact ⟨component, d, hDeclared, rfl, hAbove⟩

/-- Only what is declared counts, not in which order or how often. -/
theorem marked_congr (h : ∀ entry, entry ∈ m' ↔ entry ∈ m) : m'.marked g = m.marked g := by
  have hAny : ∀ p : ComponentType × ClassName → Bool, m'.any p = m.any p := by
    intro p
    rw [Bool.eq_iff_iff, List.any_eq_true, List.any_eq_true]
    simp only [h]
  funext c
  simp only [marked, roles, hAny]

/-- The roles of the classes are the closure of what the manifest declares. -/
structure Closes (m : Manifest) (g g' : ClassGraph) : Prop where
  /-- Nothing but marks has changed. -/
  remarked : Remarked g g'
  direct : ∀ {n c}, g'.find? n = some c → ∀ component,
    (c.marks.get component).direct = true ↔ n ∈ m.declared component
  ancestor : ∀ {n c}, g'.find? n = some c → ∀ component,
    (c.marks.get component).ancestor = true ↔
      ∃ d ∈ m.declared component, (g.find? d).isSome = true ∧ g.Above d n
  /-- Every bit that is set stands for one of these two roles. -/
  others : ∀ {n c}, g'.find? n = some c → ∀ i, c.marks.word.getLsbD i = true →
    ∃ component : ComponentType, i = component.shift ∨ i = component.shift + 1
  /-- Classes without a role are those without marks. -/
  empty : ∀ {n c}, g'.find? n = some c →
    (c.marks.isEmpty = true ↔ ∀ component, c.marks.get component = .none)

private theorem closes_mark (hAcyclic : Acyclic g)
    (hNone : ∀ n c, g.find? n = some c → c.marks = .none) (m : Manifest) :
    m.Closes g (m.mark g).2 where
  remarked := remarked_mark m g
  direct := fun hFind component => by
    rw [get_mark_eq hNone hFind]
    exact direct_roles_iff
  ancestor := fun hFind component => by
    rw [get_mark_eq hNone hFind]
    exact ancestor_roles_iff hAcyclic
  others := fun hFind i hSet => by
    by_cases hInside : i < 20
    · obtain ⟨component, k, hk, rfl⟩ := ComponentType.exists_shift hInside
      rw [← ComponentMarks.bit_get _ _ hk, get_mark_eq hNone hFind] at hSet
      match k, hk with
      | 0, _ => exact ⟨component, .inl rfl⟩
      | 1, _ => exact ⟨component, .inr rfl⟩
      | 2, _ | 3, _ => cases hSet
    · rw [getLsbD_mark_beyond hNone hFind (Nat.le_of_not_lt hInside)] at hSet
      cases hSet
  empty := fun hFind => by
    rw [ComponentMarks.isEmpty_iff]
    exact and_iff_left fun i hi => getLsbD_mark_beyond hNone hFind hi

/-- No class has one of the other two roles. -/
theorem Closes.plain {g' : ClassGraph} (h : m.Closes g g') {c : ClassDef}
    (hc : g'.find? n = some c) (component : ComponentType) :
    (c.marks.get component).genesis = false ∧ (c.marks.get component).buddy = false := by
  have hBit : ∀ k < 4, 2 ≤ k → (c.marks.get component).bit k = false := by
    intro k hk hLe
    rw [← Bool.not_eq_true, ComponentMarks.bit_get _ _ hk]
    intro hSet
    obtain ⟨other, hPlace⟩ := h.others hc _ hSet
    by_cases hSame : component = other
    · subst hSame
      omega
    · have hApart := ComponentType.shift_apart hSame
      omega
  exact ⟨hBit 2 (by decide) (by decide), hBit 3 (by decide) (by decide)⟩

/-- Above a class with any role stand ancestors. -/
theorem Closes.up {g' : ClassGraph} (h : m.Closes g g') {s : ClassName} {c d : ClassDef}
    (hc : g'.find? n = some c) (hRole : (c.marks.get component).isEmpty = false)
    (hAbove : g.Above n s) (hd : g'.find? s = some d) :
    (d.marks.get component).ancestor = true := by
  rw [h.ancestor hd]
  obtain ⟨hGenesis, hBuddy⟩ := h.plain hc component
  cases hDirect : (c.marks.get component).direct with
  | true =>
      obtain ⟨_, hFound, _⟩ := Agree.find h.remarked.symm hc
      exact ⟨n, (h.direct hc component).mp hDirect, Option.isSome_of_eq_some hFound, hAbove⟩
  | false =>
      cases hAncestor : (c.marks.get component).ancestor with
      | true =>
          obtain ⟨e, hDeclared, hFound, hBelow⟩ := (h.ancestor hc component).mp hAncestor
          exact ⟨e, hDeclared, hFound, hBelow.trans hAbove⟩
      | false =>
          rw [Roles.eq_none hDirect hAncestor hGenesis hBuddy] at hRole
          cases hRole

/-- **Marking gives the classes the closure of the manifest, and nothing else.**  On a program in
which no class is above itself and none has a role yet, a class is marked as declared exactly if it
is, and as an ancestor exactly if it is above a declared class that is there; it has no other role,
no mark at all if it has none of these, and nothing but marks changes.  So it does not matter in
which order or how often the manifest says what it says; and whatever is above a class with a role
is marked as an ancestor. -/
theorem mark_closure (hAcyclic : Acyclic g)
    (hNone : ∀ n c, g.find? n = some c → c.marks = .none) (m : Manifest) :
    m.Closes g (m.mark g).2 ∧
      (∀ m' : Manifest, (∀ entry, entry ∈ m' ↔ entry ∈ m) → (m'.mark g).2 = (m.mark g).2) ∧
      ∀ component n s c d, (m.mark g).2.find? n = some c →
        (c.marks.get component).isEmpty = false → g.Above n s →
        (m.mark g).2.find? s = some d → (d.marks.get component).ancestor = true := by
  have hCloses := closes_mark hAcyclic hNone m
  refine ⟨hCloses, fun m' hSame => ?_, fun component n s c d hc hRole hAbove hd => ?_⟩
  · rw [mark_eq_mapClasses, mark_eq_mapClasses, marked_congr hSame]
  · exact hCloses.up hc hRole hAbove hd

def topName : ClassName := .of "java/lang/Object"
def screenName : ClassName := .of "android/app/Activity"
def mainName : ClassName := .of "a/Main"
def detailName : ClassName := .of "a/Detail"
def helperName : ClassName := .of "a/Helper"

/-- Two screens, one below the other, and a class beside them. -/
def family : ClassGraph := ⟨[
  { name := topName, kind := .library, access := {}, subclasses := [screenName, helperName] },
  { name := screenName, kind := .library, access := {}, superclass := some topName
    subclasses := [mainName] },
  { name := mainName, kind := .program, access := {}, superclass := some screenName
    subclasses := [detailName] },
  { name := detailName, kind := .program, access := {}, superclass := some mainName },
  { name := helperName, kind := .program, access := {}, superclass := some topName }]⟩

/-- Both screens, and a service that is not there. -/
def listed : Manifest :=
  [(.activity, detailName), (.activity, mainName), (.service, .of "a/Missing")]

/-- A class that is declared and above a declared one; a declaration more changes nothing. -/
theorem mark_closure_family :
    Acyclic family ∧ (∀ n c, family.find? n = some c → c.marks = .none) ∧
      listed.Closes family (listed.mark family).2 ∧
      (Manifest.mark family (listed.reverse ++ listed)).2 = (listed.mark family).2 ∧
      ∃ c, (listed.mark family).2.find? topName = some c ∧
        (c.marks.get .activity).ancestor = true := by
  have hAcyclic : Acyclic family := by decide +kernel
  have hUnmarked : ∀ c ∈ family.classes, c.marks = .none := by decide +kernel
  have hNone : ∀ n c, family.find? n = some c → c.marks = .none :=
    fun n c hFind => hUnmarked c (List.mem_of_find?_eq_some hFind)
  obtain ⟨hCloses, hSame, hUp⟩ := mark_closure hAcyclic hNone listed
  have hMain : ∃ c ∈ (listed.mark family).2.find? mainName,
      (c.marks.get .activity).isEmpty = false := by decide +kernel
  have hTop : ((listed.mark family).2.find? topName).isSome = true := by decide +kernel
  have hAbove : family.Above mainName topName :=
    .head (by decide +kernel : family.superclassOf mainName = some screenName)
      (.single (by decide +kernel : family.superclassOf screenName = some topName))
  obtain ⟨c, hc, hRole⟩ := hMain
  obtain ⟨d, hd⟩ := Option.isSome_iff_exists.mp hTop
  refine ⟨hAcyclic, hNone, hCloses, hSame _ fun entry => ?_, d, hd,
    hUp .activity mainName topName c d hc hRole hAbove hd⟩
  rw [List.mem_append, List.mem_reverse, or_self]

end Manifest

end HotPatch
