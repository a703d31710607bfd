import HotPatch.Proofs.Program.Operations

/-!
# Programs stay consistent

A program says some things twice: a class is in the list of classes and in the
index by name, an edge of the hierarchy is kept at both its ends, a member is
listed by a class and names it.  No sequence of operations brings the two
sides apart, and none makes a class declare one member twice
(`consistent_after`).

The step is proved for classes as they are looked up (`Coherent`), where an
operation is seen at the classes it touches and nowhere else.
-/

namespace HotPatch

/-! ## Members -/

/-- No member is declared twice, and each names the class that declares it. -/
structure ClassDef.Tidy (c : ClassDef) : Prop where
  methods : Method.Apart c.methods
  fields : (c.fields.map (·.name)).Nodup
  ownMethods : ∀ m ∈ c.methods, m.owner = c.name
  ownFields : ∀ f ∈ c.fields, f.owner = c.name

namespace ClassDef

variable {c c' : ClassDef}

private theorem tidy_bare (c : ClassDef) : c.bare.Tidy := by
  refine ⟨List.Pairwise.nil, List.nodup_nil, fun m hm => ?_, fun f hf => ?_⟩
  · cases hm
  · cases hf

/-- The edges of a class do not matter to its members. -/
theorem Tidy.withEdges (h : c.Tidy) (superclass : Option ClassName)
    (subclasses : List ClassName) : Tidy { c with superclass, subclasses } :=
  ⟨h.methods, h.fields, h.ownMethods, h.ownFields⟩

/-- A change of a method that keeps its name, signature and owner keeps the class tidy. -/
theorem Tidy.modifyMethod (h : c.Tidy) (name : MemberName) (signature : Signature)
    {change : Method → Method}
    (hKeep : ∀ m, (change m).name = m.name ∧ (change m).signature = m.signature ∧
      (change m).owner = m.owner) : Tidy (c.modifyMethod name signature change) where
  methods := by
    refine h.methods.map (fun m => ?_) (fun m => ?_)
    · split
      · exact (hKeep m).1
      · rfl
    · split
      · exact (hKeep m).2.1
      · rfl
  fields := h.fields
  ownMethods := by
    intro m hm
    obtain ⟨n, hn, rfl⟩ := List.mem_map.mp hm
    split
    · exact (hKeep n).2.2.trans (h.ownMethods n hn)
    · exact h.ownMethods n hn
  ownFields := h.ownFields

private theorem Tidy.edited (h : c.Tidy) (hEdited : c.Edited c') : c'.Tidy := by
  cases hEdited with
  | nothing => exact h
  | close => exact ⟨h.methods, h.fields, h.ownMethods, h.ownFields⟩
  | access access _ => exact ⟨h.methods, h.fields, h.ownMethods, h.ownFields⟩
  | methodAccess name signature access _ =>
      exact h.modifyMethod name signature fun _ => ⟨rfl, rfl, rfl⟩
  | id name signature id _ => exact h.modifyMethod name signature fun _ => ⟨rfl, rfl, rfl⟩
  | method m hFree _ =>
      refine ⟨h.methods.concat hFree, h.fields, fun n hn => ?_, h.ownFields⟩
      rcases List.mem_append.mp hn with hn | hn
      · exact h.ownMethods n hn
      · obtain rfl := List.mem_singleton.mp hn
        rfl
  | field f hFree _ =>
      refine ⟨h.methods, ?_, h.ownMethods, fun n hn => ?_⟩
      · have hNew : f.name ∉ c.fields.map (·.name) := by
          intro hMem
          obtain ⟨n, hn, hName⟩ := List.mem_map.mp hMem
          exact List.find?_eq_none.mp hFree n hn (beq_iff_eq.mpr hName)
        simp only [List.map_append, List.map_singleton]
        exact h.fields.append (List.nodup_singleton _) (List.disjoint_singleton.mpr hNew)
      · rcases List.mem_append.mp hn with hn | hn
        · exact h.ownFields n hn
        · obtain rfl := List.mem_singleton.mp hn
          rfl
  | fieldAccess name access _ =>
      have hNames : (c.fields.map fun f => if f.name = name then { f with access } else f).map
          (·.name) = c.fields.map (·.name) := by
        rw [List.map_map]
        refine List.map_congr_left fun f _ => ?_
        rw [Function.comp_apply]
        split <;> rfl
      refine ⟨h.methods, hNames ▸ h.fields, h.ownMethods, fun n hn => ?_⟩
      obtain ⟨f, hf, rfl⟩ := List.mem_map.mp hn
      split <;> exact h.ownFields f hf

end ClassDef

/-! ## Classes as they are looked up -/

namespace ClassGraph

variable {g g' : ClassGraph}

private theorem count_entry {p : Prop} [Decidable p] (name x : ClassName) :
    (if p then [name] else []).count x = if p ∧ x = name then 1 else 0 := by
  by_cases hp : p <;> simp [hp, List.count_singleton, eq_comm (a := name) (b := x)]

/-- A program whose classes fit together, as they are looked up. -/
structure Coherent (g : ClassGraph) : Prop where
  names : g.names.Nodup
  rooted : Rooted g
  below : ∀ {n c}, g.find? n = some c →
    ∀ x, c.subclasses.count x = if g.superclassOf x = some n then 1 else 0
  tidy : ∀ {n c}, g.find? n = some c → c.Tidy

namespace Coherent

/-- A program starts coherent. -/
theorem empty : Coherent ClassGraph.empty where
  names := List.nodup_nil
  rooted := by
    intro name s hSuper
    cases hSuper
  below := by
    intro n c hFind
    cases hFind
  tidy := by
    intro n c hFind
    cases hFind

private theorem edited {name : ClassName} (h : Coherent g) (hEdited : EditedAt g g' name) :
    Coherent g' where
  names := hEdited.names ▸ h.names
  rooted := by
    intro n s hs
    rw [hEdited.agree.superclassOf] at hs
    obtain ⟨c, hFind⟩ := Option.isSome_iff_exists.mp (h.rooted n s hs)
    obtain ⟨c', hFind', _⟩ := hEdited.agree.find hFind
    exact Option.isSome_of_eq_some hFind'
  below := by
    intro n c' hFind' x
    obtain ⟨c, hFind, hEdges⟩ := hEdited.agree.symm.find hFind'
    have hBelow : c.subclasses = c'.subclasses := congrArg Prod.snd hEdges
    rw [← hBelow, h.below hFind, hEdited.agree.superclassOf]
  tidy := by
    intro n d hFind'
    obtain ⟨c, c', hFind, hEdit, hAt⟩ := hEdited.find?
    rw [hAt] at hFind'
    split at hFind'
    · cases hFind'
      exact (h.tidy hFind).edited hEdit
    · exact h.tidy hFind'

/-- Adding a tidy class keeps the program coherent.  Whoever is named as a superclass was there
before. -/
theorem addClass {c : ClassDef} (h : Coherent g) (hTidy : c.Tidy) (hAdd : g.addClass c = .ok g') :
    Coherent g' := by
  obtain ⟨hNew, hUp, hNames, hFind⟩ := find?_addClass hAdd
  have hSuper : ∀ x, g'.superclassOf x =
      if x = c.name then c.superclass else g.superclassOf x := by
    intro x
    rw [superclassOf, hFind]
    split
    · rfl
    · rw [superclassOf]
      cases g.find? x <;> rfl
  have hOld : ∀ x s, g'.superclassOf x = some s → (g.find? s).isSome = true := by
    intro x s hs
    rw [hSuper] at hs
    split at hs
    · exact hUp s hs
    · exact h.rooted x s hs
  have hFree : ∀ x, g'.superclassOf x ≠ some c.name := by
    intro x hs
    have hSome := hOld x c.name hs
    rw [hNew] at hSome
    cases hSome
  refine ⟨?_, fun x s hs => ?_, fun {n d'} hFind' x => ?_, fun {n d'} hFind' => ?_⟩
  · have hApart : c.name ∉ g.names := by
      rw [mem_names_iff, hNew]
      exact Bool.false_ne_true
    rw [hNames]
    exact h.names.append (List.nodup_singleton _) (List.disjoint_singleton.mpr hApart)
  · rw [hFind]
    split
    · rfl
    · rw [Option.isSome_map]
      exact hOld x s hs
  · rw [hFind] at hFind'
    split at hFind'
    · next hn =>
        cases hFind'
        rw [if_neg (hn ▸ hFree x)]
        rfl
    · obtain ⟨d, hd, rfl⟩ := Option.map_eq_some_iff.mp hFind'
      rw [List.count_append, h.below hd, count_entry, hSuper]
      by_cases hx : x = c.name
      · have hNone : g.superclassOf x = none := by
          rw [superclassOf, hx, hNew]
          rfl
        simp [hx ▸ hNone, hx]
      · simp [hx]
  · rw [hFind] at hFind'
    split at hFind'
    · cases hFind'
      exact hTidy.withEdges _ _
    · obtain ⟨d, hd, rfl⟩ := Option.map_eq_some_iff.mp hFind'
      exact (h.tidy hd).withEdges _ _

/-- Moving a class keeps the program coherent. -/
theorem reparent {name s : ClassName} (h : Coherent g) (hMove : g.reparent name s = .ok g') :
    Coherent g' := by
  obtain ⟨hSuper, _⟩ := reparent_eq_ok hMove
  obtain ⟨_, hFound, hNames, hFind⟩ := find?_reparent hMove
  refine ⟨hNames ▸ h.names, fun n t ht => ?_, fun {n d'} hFind' x => ?_, fun {n d'} hFind' => ?_⟩
  · rw [hFind, Option.isSome_map]
    rw [hSuper] at ht
    split at ht
    · exact Option.some.inj ht ▸ hFound
    · exact h.rooted n t ht
  · rw [hFind] at hFind'
    obtain ⟨d, hd, rfl⟩ := Option.map_eq_some_iff.mp hFind'
    have hOut : (if g.superclassOf name = some n then d.subclasses.filter (· != name)
        else d.subclasses).count x = if x = name then 0 else d.subclasses.count x := by
      by_cases hx : x = name
      · rw [if_pos hx, hx]
        split
        · exact List.count_eq_zero.mpr (by simp)
        · next hNot => rw [h.below hd, if_neg hNot]
      · rw [if_neg hx]
        split
        · exact List.count_filter (by simpa using hx)
        · rfl
    rw [List.count_append, hOut, count_entry, h.below hd, hSuper]
    by_cases hx : x = name
    · simp [hx, eq_comm]
    · simp [hx]
  · rw [hFind] at hFind'
    obtain ⟨d, hd, rfl⟩ := Option.map_eq_some_iff.mp hFind'
    exact (h.tidy hd).withEdges _ _

/-- **Every operation keeps a program coherent.** -/
theorem apply {op : Operation} (h : Coherent g) (hApply : op.apply g = .ok g') : Coherent g' := by
  rcases Operation.apply_cases hApply with ⟨c, _, hAdd⟩ | ⟨name, s, _, hMove⟩ | ⟨_, name, hEdited⟩
  · exact h.addClass c.tidy_bare hAdd
  · exact h.reparent hMove
  · exact h.edited hEdited

end Coherent

end ClassGraph

/-! ## The index by name -/

/-- A program, with an index of its classes by name that is kept beside the list. -/
structure Directory where
  graph : ClassGraph := {}
  /-- Where a class is listed. -/
  position? : ClassName → Option Nat := fun _ => none

/-- What an operation enters in the index of a program of so many classes. -/
def Operation.enter (op : Operation) (size : Nat) (position? : ClassName → Option Nat) :
    ClassName → Option Nat :=
  match op with
  | .addClass c => fun name => if name = c.name then some size else position? name
  | _ => position?

private theorem Operation.enter_eq {op : Operation} (h : ∀ c, op ≠ .addClass c) (size : Nat)
    (position? : ClassName → Option Nat) : op.enter size position? = position? := by
  cases op with
  | addClass c => exact (h c rfl).elim
  | _ => rfl

namespace Directory

open ClassGraph

/-- The program and the index that an operation leaves.  One that is refused leaves both alone. -/
def leave (d : Directory) (op : Operation) : Directory :=
  match op.apply d.graph with
  | .ok g => ⟨g, op.enter d.graph.classes.length d.position?⟩
  | .error _ => d

/-- What operations make of a new program. -/
def after (ops : List Operation) : Directory := ops.foldl leave {}

/-- The two sides of everything that is kept twice agree, and no class declares a member twice. -/
structure Consistent (d : Directory) : Prop where
  /-- The index holds the classes that are listed. -/
  listed : ∀ name k, d.position? name = some k ↔
    ∃ c, d.graph.classes[k]? = some c ∧ c.name = name
  /-- A class is found by its name where the index has it. -/
  found : ∀ name, d.graph.find? name = (d.position? name).bind (d.graph.classes[·]?)
  names : (d.graph.classes.map (·.name)).Nodup
  /-- A class is listed once by the class it extends, and by no other. -/
  subclasses : ∀ c ∈ d.graph.classes, ∀ name,
    c.subclasses.count name = if d.graph.superclassOf name = some c.name then 1 else 0
  methods : ∀ c ∈ d.graph.classes, c.methods.Pairwise fun m n =>
    ¬ (m.name = n.name ∧ m.signature = n.signature)
  fields : ∀ c ∈ d.graph.classes, (c.fields.map (·.name)).Nodup
  /-- A method is listed by the class it names, and by no other. -/
  ownMethods : ∀ c ∈ d.graph.classes, ∀ m ∈ c.methods, ∀ c' ∈ d.graph.classes,
    m ∈ c'.methods ↔ c'.name = m.owner
  ownFields : ∀ c ∈ d.graph.classes, ∀ f ∈ c.fields, ∀ c' ∈ d.graph.classes,
    f ∈ c'.fields ↔ c'.name = f.owner

/-- What operations keep up. -/
structure Kept (d : Directory) : Prop where
  coherent : Coherent d.graph
  index : ∀ name k, d.position? name = some k ↔ d.graph.names[k]? = some name

/-- An entry behind all others. -/
theorem getElem?_concat_eq_some {names : List ClassName} {new : ClassName} (hNew : new ∉ names)
    (name : ClassName) (k : Nat) :
    (names ++ [new])[k]? = some name ↔
      if name = new then names.length = k else names[k]? = some name := by
  rcases Nat.lt_trichotomy k names.length with hk | rfl | hk
  · rw [List.getElem?_append_left hk]
    split
    · next hn =>
        refine ⟨fun h => (hNew (hn ▸ List.mem_of_getElem? h)).elim, fun h => ?_⟩
        omega
    · rfl
  · simp [eq_comm]
  · rw [List.getElem?_eq_none (by simp; omega), List.getElem?_eq_none (by omega)]
    split
    · simp
      omega
    · rfl

private theorem kept_empty : Kept {} := ⟨Coherent.empty, by simp [names]⟩

/-- A directory is kept in order by every operation. -/
theorem Kept.leave {d : Directory} (h : Kept d) (op : Operation) : Kept (d.leave op) := by
  cases hApply : op.apply d.graph with
  | error e =>
      rw [Directory.leave, hApply]
      exact h
  | ok g =>
      have hLeave : d.leave op = ⟨g, op.enter d.graph.classes.length d.position?⟩ := by
        rw [Directory.leave, hApply]
      rw [hLeave]
      refine ⟨h.coherent.apply hApply, ?_⟩
      rcases Operation.apply_cases hApply with
        ⟨c, rfl, hAdd⟩ | ⟨name, s, rfl, hMove⟩ | ⟨hOther, name, hEdited⟩
      · obtain ⟨hNew, _, hNames, _⟩ := find?_addClass hAdd
        have hNames' : g.names = d.graph.names ++ [c.name] := hNames
        have hFree : c.name ∉ d.graph.names := by
          rw [mem_names_iff, show d.graph.find? c.name = none from hNew]
          exact Bool.false_ne_true
        intro name k
        rw [hNames', getElem?_concat_eq_some hFree, ← h.index, names, List.length_map]
        simp only [Operation.enter]
        split <;> simp
      · rw [Operation.enter_eq (by simp), (find?_reparent hMove).2.2.1]
        exact h.index
      · rw [Operation.enter_eq hOther, hEdited.names]
        exact h.index

private theorem kept_after (ops : List Operation) : Kept (after ops) := by
  have hFrom : ∀ d, Kept d → Kept (ops.foldl leave d) := by
    induction ops with
    | nil => exact fun _ h => h
    | cons op ops ih => exact fun d h => ih (d.leave op) (h.leave op)
  exact hFrom {} kept_empty

/-- **Programs stay consistent**, whatever operations are carried out or refused. -/
theorem consistent_after (ops : List Operation) : Consistent (after ops) := by
  obtain ⟨hCoherent, hIndex⟩ := kept_after ops
  have hFind : ∀ c ∈ (after ops).graph.classes, (after ops).graph.find? c.name = some c :=
    fun c hc => find?_of_mem hCoherent.names hc
  have hListed : ∀ name k, (after ops).position? name = some k ↔
      ∃ c, (after ops).graph.classes[k]? = some c ∧ c.name = name := by
    intro name k
    rw [hIndex, names, List.getElem?_map, Option.map_eq_some_iff]
  exact {
    listed := hListed
    found := by
      intro name
      cases hAt : (after ops).position? name with
      | none =>
          rw [Option.bind_none, ← Option.not_isSome_iff_eq_none, ← mem_names_iff]
          intro hMem
          obtain ⟨k, hk⟩ := List.mem_iff_getElem?.mp hMem
          rw [(hIndex name k).mpr hk] at hAt
          cases hAt
      | some k =>
          obtain ⟨c, hc, rfl⟩ := (hListed name k).mp hAt
          rw [Option.bind_some, hc]
          exact hFind c (List.mem_of_getElem? hc)
    names := hCoherent.names
    subclasses := fun c hc => hCoherent.below (hFind c hc)
    methods := fun c hc => (hCoherent.tidy (hFind c hc)).methods.imp fun {m n} hApart hSame => by
      rw [Method.sameKey_iff.mpr hSame] at hApart
      cases hApart
    fields := fun c hc => (hCoherent.tidy (hFind c hc)).fields
    ownMethods := by
      intro c hc m hm c' hc'
      have hOwner := (hCoherent.tidy (hFind c hc)).ownMethods m hm
      refine ⟨fun hm' => ((hCoherent.tidy (hFind c' hc')).ownMethods m hm').symm, fun hName => ?_⟩
      have hSame := hFind c' hc'
      rw [hName, hOwner, hFind c hc] at hSame
      exact Option.some.inj hSame ▸ hm
    ownFields := by
      intro c hc f hf c' hc'
      have hOwner := (hCoherent.tidy (hFind c hc)).ownFields f hf
      refine ⟨fun hf' => ((hCoherent.tidy (hFind c' hc')).ownFields f hf').symm, fun hName => ?_⟩
      have hSame := hFind c' hc'
      rw [hName, hOwner, hFind c hc] at hSame
      exact Option.some.inj hSame ▸ hf }

end Directory

end HotPatch
