import HotPatch.Proofs.Program.Methods
import HotPatch.Proofs.Program.Sweeps

/-!
# Operations on a program

The operations by which a program is built and changed, one type for all of
them.  What an operation can do is said once (`apply_cases`): it adds a class,
it moves one, or it edits one class in place, which is one of a few edits
(`ClassDef.Edited`).  Whatever is to hold of all sequences of operations is
then a matter of these three.
-/

namespace HotPatch

open ClassGraph

/-- An operation on a program. -/
inductive Operation where
  /-- Add a class.  It comes without members, which are declared on a class of the program. -/
  | addClass (c : ClassDef)
  | addMethod (m : Method)
  | addField (f : Field)
  | reparent (name superclass : ClassName)
  | close (name : ClassName)
  | setAccess (name : ClassName) (access : ClassAccess)
  | setMethodAccess (method : MethodRef) (access : MethodAccess)
  | setFieldAccess (owner : ClassName) (name : MemberName) (access : FieldAccess)
  | assignId (method : MethodRef) (id : Nat)

/-- A class before any member is declared on it. -/
def ClassDef.bare (c : ClassDef) : ClassDef := { c with methods := [], fields := [] }

namespace Operation

/-- The program after an operation, if it is not refused. -/
def apply (op : Operation) (g : ClassGraph) : Except GraphError ClassGraph :=
  match op with
  | .addClass c => g.addClass c.bare
  | .addMethod m => g.addMethod m
  | .addField f => g.addField f
  | .reparent name superclass => g.reparent name superclass
  | .close name => g.edit name fun c => .ok c.close
  | .setAccess name access => g.edit name (·.setAccess access)
  | .setMethodAccess method access => do
      let _ ← g.getMethod method
      g.edit method.owner (·.setMethodAccess method.name method.signature access)
  | .setFieldAccess owner name access => do
      let _ ← g.getField owner name
      g.edit owner (·.setFieldAccess name access)
  | .assignId method id => do
      let _ ← g.getMethod method
      g.edit method.owner (·.assignId method.name method.signature id)

end Operation

/-! ## Edits of one class -/

/-- What operations make of a class that stays where it is. -/
inductive ClassDef.Edited (c : ClassDef) : ClassDef → Prop where
  | nothing : Edited c c
  | method (m : Method) : c.findMethod? m.name m.signature = none → c.closed = false →
      Edited c { c with methods := c.methods ++ [{ m with owner := c.name }] }
  | field (f : Field) : c.findField? f.name = none → c.closed = false →
      Edited c { c with fields := c.fields ++ [{ f with owner := c.name }] }
  | close : Edited c c.close
  | access (access : ClassAccess) : c.closed = false → Edited c { c with access }
  | methodAccess (name : MemberName) (signature : Signature) (access : MethodAccess) :
      c.closed = false → Edited c (c.modifyMethod name signature fun m => { m with access })
  | fieldAccess (name : MemberName) (access : FieldAccess) : c.closed = false →
      Edited c { c with
        fields := c.fields.map fun f => if f.name = name then { f with access } else f }
  | id (name : MemberName) (signature : Signature) (id : Nat) :
      (c.findMethod? name signature).bind (·.id) = none →
      Edited c (c.modifyMethod name signature fun m => { m with id := some id })

namespace ClassDef

variable {c c' : ClassDef}

private theorem guarded_eq_ok {edit : Edit} {change : ClassDef}
    (h : c.guarded edit change = .ok c') :
    c.closed = false ∧ c' = change := by
  unfold guarded at h
  split at h
  · cases h
  · next hOpen =>
      cases h
      exact ⟨Bool.not_eq_true _ ▸ hOpen, rfl⟩

/-- Adding a method is an edit. -/
theorem edited_of_addMethod {m : Method} (h : c.addMethod m = .ok c') : Edited c c' := by
  unfold addMethod at h
  split at h
  · cases h
    exact .nothing
  · next hNone =>
      obtain ⟨hOpen, rfl⟩ := guarded_eq_ok h
      exact .method m hNone hOpen

/-- Adding a field is an edit. -/
theorem edited_of_addField {f : Field} (h : c.addField f = .ok c') : Edited c c' := by
  rcases addField_eq_ok h with rfl | ⟨hNone, hOpen, rfl⟩
  · exact .nothing
  · exact .field f hNone hOpen

private theorem edited_of_setAccess {access : ClassAccess} (h : c.setAccess access = .ok c') :
    Edited c c' := by
  obtain ⟨hOpen, rfl⟩ := guarded_eq_ok h
  exact .access access hOpen

private theorem edited_of_setMethodAccess {name : MemberName} {signature : Signature}
    {access : MethodAccess} (h : c.setMethodAccess name signature access = .ok c') :
    Edited c c' := by
  obtain ⟨hOpen, rfl⟩ := guarded_eq_ok h
  exact .methodAccess name signature access hOpen

private theorem edited_of_setFieldAccess {name : MemberName} {access : FieldAccess}
    (h : c.setFieldAccess name access = .ok c') : Edited c c' := by
  obtain ⟨hOpen, rfl⟩ := guarded_eq_ok h
  exact .fieldAccess name access hOpen

/-- Numbering a method is an edit. -/
theorem edited_of_assignId {name : MemberName} {signature : Signature} {id : Nat}
    (h : c.assignId name signature id = .ok c') : Edited c c' := by
  unfold assignId at h
  split at h
  · cases h
  · next hNone =>
      cases h
      exact .id name signature id hNone

theorem Edited.name (h : Edited c c') : c'.name = c.name := by
  cases h <;> rfl

/-- Edits leave the edges to other classes alone. -/
theorem Edited.edges (h : Edited c c') : edges c' = edges c := by
  cases h <;> rfl

end ClassDef

/-! ## Edits within a program -/

namespace ClassGraph

variable {g g' : ClassGraph}

private theorem edit_eq_ok {name : ClassName} {change : ClassDef → Except GraphError ClassDef}
    (h : g.edit name change = .ok g') :
    ∃ c c', g.find? name = some c ∧ change c = .ok c' ∧ g' = g.modify name fun _ => c' := by
  unfold edit at h
  cases hGet : g.get name with
  | error e =>
      rw [hGet] at h
      cases h
  | ok c =>
      cases hChange : change c with
      | error e => simp [hGet, hChange, bind, Except.bind] at h
      | ok c' =>
          simp only [hGet, hChange, bind, Except.bind, pure, Except.pure, Except.ok.injEq] at h
          exact ⟨c, c', get_eq_ok.mp hGet, hChange, h.symm⟩

/-- One class is edited in place. -/
def EditedAt (g g' : ClassGraph) (name : ClassName) : Prop :=
  ∃ c c', g.find? name = some c ∧ c.Edited c' ∧ g' = g.modify name fun _ => c'

/-- A change of one class edits the program there. -/
theorem editedAt_of_edit {name : ClassName} {change : ClassDef → Except GraphError ClassDef}
    (hChange : ∀ c c', change c = .ok c' → c.Edited c') (h : g.edit name change = .ok g') :
    EditedAt g g' name := by
  obtain ⟨c, c', hFind, hOk, hGraph⟩ := edit_eq_ok h
  exact ⟨c, c', hFind, hChange c c' hOk, hGraph⟩

/-- An edit is seen in the class edited, and there alone. -/
theorem EditedAt.find? {name : ClassName} (h : EditedAt g g' name) :
    ∃ c c', g.find? name = some c ∧ c.Edited c' ∧
      ∀ n, g'.find? n = if n = name then some c' else g.find? n := by
  obtain ⟨c, c', hFind, hEdited, rfl⟩ := h
  refine ⟨c, c', hFind, hEdited, fun n => ?_⟩
  rw [find?_modify fun _ _ => hEdited.name.trans (name_of_find? hFind)]
  split
  · next hn => rw [hn, hFind, Option.map_some]
  · rfl

/-- Edits leave the edges between classes alone. -/
theorem EditedAt.agree {name : ClassName} (h : EditedAt g g' name) : Agree edges g g' := by
  obtain ⟨c, c', hFind, hEdited, rfl⟩ := h
  refine Agree.modify (fun _ _ => hEdited.name.trans (name_of_find? hFind)) fun d hd => ?_
  obtain rfl := Option.some.inj (hFind.symm.trans hd)
  exact hEdited.edges

/-! ## Classes added and moved -/

/-- Classes are added at the end, and listed by their superclass if they have one. -/
theorem addClass_cases {c : ClassDef} (h : g.addClass c = .ok g') :
    g.find? c.name = none ∧
      (c.superclass = none ∧ g' = ⟨g.classes ++ [{ c with subclasses := [] }]⟩ ∨
        ∃ s, c.superclass = some s ∧ (∃ d, g.find? s = some d) ∧
          g' = (ClassGraph.mk (g.classes ++ [{ c with subclasses := [] }])).link s c.name) := by
  rcases hSuper : c.superclass with _ | s
  · unfold addClass at h
    simp only [hSuper] at h
    split at h
    · cases h
    · next hNew =>
        cases h
        exact ⟨Option.not_isSome_iff_eq_none.mp hNew, .inl ⟨rfl, rfl⟩⟩
  · obtain ⟨hNew, hFound, hGraph⟩ := addClass_eq_ok hSuper h
    rw [hSuper] at hGraph
    exact ⟨hNew, .inr ⟨s, rfl, hFound, hGraph⟩⟩

/-- The names of all classes, in the order they came. -/
def names (g : ClassGraph) : List ClassName := g.classes.map (·.name)

theorem names_modify {name : ClassName} {change : ClassDef → ClassDef}
    (hName : ∀ c, c.name = name → (change c).name = name) :
    (g.modify name change).names = g.names := by
  simp only [names, modify, mapClasses, List.map_map]
  refine List.map_congr_left fun c _ => ?_
  rw [Function.comp_apply]
  split
  · next hc => rw [hName c hc, hc]
  · rfl

theorem EditedAt.names {name : ClassName} (h : EditedAt g g' name) : g'.names = g.names := by
  obtain ⟨c, c', hFind, hEdited, rfl⟩ := h
  exact names_modify fun _ _ => hEdited.name.trans (name_of_find? hFind)

private theorem names_link (g : ClassGraph) (s name : ClassName) :
    (g.link s name).names = g.names :=
  names_modify fun _ hc => hc

/-- A change as it is seen at each name. -/
theorem find?_modify_map {name : ClassName} {change : ClassDef → ClassDef}
    {seen : ClassName → ClassDef → ClassDef}
    (hName : ∀ c, c.name = name → (change c).name = name)
    (hSeen : ∀ n c, seen n c = if n = name then change c else c) (n : ClassName) :
    (g.modify name change).find? n = (g.find? n).map (seen n) := by
  rw [find?_modify hName, funext (hSeen n)]
  split
  · rfl
  · exact Option.map_id'.symm

private theorem find?_link_map (g : ClassGraph) (s name n : ClassName) :
    (g.link s name).find? n = (g.find? n).map fun d =>
      { d with subclasses := d.subclasses ++ if n = s then [name] else [] } := by
  apply find?_modify_map
  · intro _ hc
    exact hc
  · intro n c
    split
    · rfl
    · rw [List.append_nil]

private theorem find?_unlink (g : ClassGraph) (s name n : ClassName) :
    (g.unlink s name).find? n = (g.find? n).map fun d =>
      { d with
        subclasses := if s = n then d.subclasses.filter (· != name) else d.subclasses } := by
  apply find?_modify_map
  · intro _ hc
    exact hc
  · intro n c
    simp only [eq_comm (a := s)]
    split <;> rfl

private theorem find?_setSuperclass (g : ClassGraph) (name s n : ClassName) :
    (g.modify name fun c => { c with superclass := some s }).find? n = (g.find? n).map fun d =>
      { d with superclass := if n = name then some s else d.superclass } := by
  apply find?_modify_map
  · intro _ hc
    exact hc
  · intro n c
    split <;> rfl

/-- The names are those of the classes that are found. -/
theorem mem_names_iff {name : ClassName} : name ∈ g.names ↔ (g.find? name).isSome = true := by
  simp [names, find?]

/-- Where names are distinct, a class that is listed is the one found by its name. -/
theorem find?_of_mem (hNames : g.names.Nodup) {c : ClassDef} (hc : c ∈ g.classes) :
    g.find? c.name = some c := by
  cases hFind : g.find? c.name with
  | none =>
      have hMem : c.name ∈ g.names := List.mem_map_of_mem hc
      rw [mem_names_iff, hFind] at hMem
      cases hMem
  | some d =>
      have hd := List.mem_of_find?_eq_some hFind
      rw [List.inj_on_of_nodup_map hNames hd hc (name_of_find? hFind)]

/-- A class that is added stands under its superclass, which lists it; no other class changes. -/
theorem find?_addClass {c : ClassDef} (h : g.addClass c = .ok g') :
    g.find? c.name = none ∧ (∀ s, c.superclass = some s → (g.find? s).isSome = true) ∧
      g'.names = g.names ++ [c.name] ∧
      ∀ n, g'.find? n =
        if n = c.name then some { c with subclasses := [] }
        else (g.find? n).map fun d =>
          { d with
            subclasses := d.subclasses ++ if c.superclass = some n then [c.name] else [] } := by
  obtain ⟨hNew, ⟨hSuper, rfl⟩ | ⟨s, hSuper, ⟨d, hFound⟩, rfl⟩⟩ := addClass_cases h
  · refine ⟨hNew, by simp [hSuper], by simp [names], fun n => ?_⟩
    rw [find?_append (c := { c with subclasses := [] }) hNew]
    simp [hSuper]
  · have hApart : c.name ≠ s := by
      rintro rfl
      rw [hFound] at hNew
      cases hNew
    refine ⟨hNew, fun s' hs' => ?_, (names_link _ _ _).trans (by simp [names]),
      fun n => ?_⟩
    · obtain rfl := Option.some.inj (hSuper.symm.trans hs')
      exact Option.isSome_of_eq_some hFound
    · rw [find?_link_map, find?_append (c := { c with subclasses := [] }) hNew, hSuper]
      have hComm : (some s = some n) = (n = s) := by
        rw [Option.some.injEq, eq_comm (a := s)]
      by_cases hn : n = c.name
      · simp [hn, hApart]
      · simp [hn, hComm]

/-- A class that is moved leaves the list of its old superclass and goes behind the list of its
new one; no other class changes. -/
theorem find?_reparent {name s : ClassName} (h : g.reparent name s = .ok g') :
    (g.find? name).isSome = true ∧ (g.find? s).isSome = true ∧ g'.names = g.names ∧
      ∀ n, g'.find? n = (g.find? n).map fun d =>
        { d with
          superclass := if n = name then some s else d.superclass
          subclasses :=
            (if g.superclassOf name = some n then d.subclasses.filter (· != name)
              else d.subclasses) ++ if n = s then [name] else [] } := by
  unfold reparent at h
  obtain ⟨c, hGet, h⟩ := bind_eq_ok.mp h
  obtain ⟨d, hGet', h⟩ := bind_eq_ok.mp h
  cases h
  have hFind := get_eq_ok.mp hGet
  refine ⟨Option.isSome_of_eq_some hFind, Option.isSome_of_eq_some (get_eq_ok.mp hGet'), ?_,
    fun n => ?_⟩
  · rw [names_link, names_modify (by intro _ hc; exact hc)]
    split
    · rfl
    · exact names_modify fun _ hc => hc
  · rw [find?_link_map, find?_setSuperclass, superclassOf_of_find? hFind, Option.map_map]
    cases c.superclass with
    | none => simp [Function.comp_def]
    | some old =>
        rw [find?_unlink, Option.map_map]
        simp only [Option.some.injEq, Function.comp_def]

end ClassGraph

/-! ## What an operation can do -/

/-- **What an operation can do**: add a class, move one, or edit one. -/
theorem Operation.apply_cases {op : Operation} {g g' : ClassGraph} (h : op.apply g = .ok g') :
    (∃ c, op = .addClass c ∧ g.addClass c.bare = .ok g') ∨
      (∃ name s, op = .reparent name s ∧ g.reparent name s = .ok g') ∨
      (∀ c, op ≠ .addClass c) ∧ ∃ name, EditedAt g g' name := by
  cases op with
  | addClass c => exact .inl ⟨c, rfl, h⟩
  | reparent name s => exact .inr (.inl ⟨name, s, rfl, h⟩)
  | addMethod m =>
      refine .inr (.inr ⟨fun _ => by simp, m.owner, ?_⟩)
      exact editedAt_of_edit (fun _ _ => ClassDef.edited_of_addMethod) h
  | addField f =>
      refine .inr (.inr ⟨fun _ => by simp, f.owner, ?_⟩)
      exact editedAt_of_edit (fun _ _ => ClassDef.edited_of_addField) h
  | close name =>
      refine .inr (.inr ⟨fun _ => by simp, name, editedAt_of_edit (fun c c' hClose => ?_) h⟩)
      cases hClose
      exact .close
  | setAccess name access =>
      refine .inr (.inr ⟨fun _ => by simp, name, ?_⟩)
      exact editedAt_of_edit (fun _ _ => ClassDef.edited_of_setAccess) h
  | setMethodAccess method access =>
      obtain ⟨_, _, hEdit⟩ := bind_eq_ok.mp h
      refine .inr (.inr ⟨fun _ => by simp, method.owner, ?_⟩)
      exact editedAt_of_edit (fun _ _ => ClassDef.edited_of_setMethodAccess) hEdit
  | setFieldAccess owner name access =>
      obtain ⟨_, _, hEdit⟩ := bind_eq_ok.mp h
      refine .inr (.inr ⟨fun _ => by simp, owner, ?_⟩)
      exact editedAt_of_edit (fun _ _ => ClassDef.edited_of_setFieldAccess) hEdit
  | assignId method id =>
      obtain ⟨_, _, hEdit⟩ := bind_eq_ok.mp h
      refine .inr (.inr ⟨fun _ => by simp, method.owner, ?_⟩)
      exact editedAt_of_edit (fun _ _ => ClassDef.edited_of_assignId) hEdit

end HotPatch
