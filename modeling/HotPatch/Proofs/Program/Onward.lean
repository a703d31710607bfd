import HotPatch.Proofs.Program.Operations

/-!
# Programs later on

`Onward` relates a class to what it may become: its methods stay where they
are and keep their numbers, and once it is closed nothing of its members or
its access flags changes (`Frozen`).  The relation goes on from step to step,
so a pass keeps to it if each of its steps does.

A number belongs to a method by its name and signature, so all of this is about
classes that have no two methods of one name and signature.  That this stays so
is part of the relation, and new classes start with it.
-/

namespace HotPatch

open ClassGraph

/-! ## Methods and classes -/

/-- The method is still the same, and keeps its number once it has one. -/
structure Method.Lasts (m m' : Method) : Prop where
  owner : m'.owner = m.owner
  name : m'.name = m.name
  signature : m'.signature = m.signature
  id : ∀ k, m.id = some k → m'.id = some k

namespace Method.Lasts

theorem refl (m : Method) : m.Lasts m := ⟨rfl, rfl, rfl, fun _ h => h⟩

theorem trans {m m' m'' : Method} (h : m.Lasts m') (h' : m'.Lasts m'') : m.Lasts m'' :=
  ⟨h'.owner.trans h.owner, h'.name.trans h.name, h'.signature.trans h.signature,
    fun k hk => h'.id k (h.id k hk)⟩

end Method.Lasts

/-- A method that only gets another body. -/
theorem Method.lasts_of_frame {m m' : Method} (h : m' = { m with body := m'.body }) :
    m.Lasts m' ∧ m'.access = m.access := by
  rw [h]
  exact ⟨⟨rfl, rfl, rfl, fun _ hk => hk⟩, rfl⟩

namespace ClassDef

/-- A closed class, later on. -/
structure Frozen (c c' : ClassDef) : Prop where
  closed : c'.closed = true
  access : c'.access = c.access
  fields : c'.fields = c.fields
  methods : List.Forall₂ (fun m m' => m.Lasts m' ∧ m'.access = m.access) c.methods c'.methods

/-- The methods are still where they were. -/
def Numbered (c c' : ClassDef) : Prop :=
  ∀ (k : Nat) (m : Method), c.methods[k]? = some m →
    ∃ m', c'.methods[k]? = some m' ∧ m.Lasts m'

/-- What a class may become. -/
structure Onward (c c' : ClassDef) : Prop where
  name : c'.name = c.name
  apart : Method.Apart c.methods → Method.Apart c'.methods
  numbered : Method.Apart c.methods → Numbered c c'
  frozen : Method.Apart c.methods → c.closed = true → Frozen c c'

private theorem apart_of_forall₂ {methods methods' : List Method}
    (h : List.Forall₂ Method.Lasts methods methods') (hApart : Method.Apart methods) :
    Method.Apart methods' := by
  have hKeys : methods'.map (fun m => (m.name, m.signature)) =
      methods.map fun m => (m.name, m.signature) := by
    induction h with
    | nil => rfl
    | cons hLasts _ ih =>
        rw [List.map_cons, List.map_cons, hLasts.name, hLasts.signature,
          ih (List.pairwise_cons.mp hApart).2]
  rw [Method.apart_iff_nodup, hKeys]
  exact Method.apart_iff_nodup.mp hApart

/-- Methods that each last keep their numbers. -/
theorem Numbered.of_forall₂ {c c' : ClassDef}
    (h : List.Forall₂ Method.Lasts c.methods c'.methods) : Numbered c c' := by
  unfold Numbered
  generalize c.methods = methods, c'.methods = methods' at h
  induction h with
  | nil =>
      intro k m hm
      cases hm
  | @cons m m' _ _ hLasts _ ih =>
      intro k n hn
      cases k with
      | zero =>
          obtain rfl : m = n := by simpa using hn
          exact ⟨m', rfl, hLasts⟩
      | succ k => exact ih k n hn

theorem Numbered.trans {c c' c'' : ClassDef} (h : Numbered c c') (h' : Numbered c' c'') :
    Numbered c c'' := by
  intro k m hm
  obtain ⟨m', hm', hLasts⟩ := h k m hm
  obtain ⟨m'', hm'', hLasts'⟩ := h' k m' hm'
  exact ⟨m'', hm'', hLasts.trans hLasts'⟩

theorem Frozen.trans {c c' c'' : ClassDef} (h : Frozen c c') (h' : Frozen c' c'') :
    Frozen c c'' where
  closed := h'.closed
  access := h'.access.trans h.access
  fields := h'.fields.trans h.fields
  methods := by
    have hFirst := h.methods
    have hSecond := h'.methods
    generalize c.methods = methods, c'.methods = methods', c''.methods = methods'' at hFirst hSecond
    induction hFirst generalizing methods'' with
    | nil =>
        cases hSecond
        exact .nil
    | cons hLasts _ ih =>
        cases hSecond with
        | cons hLasts' hRest =>
            exact .cons ⟨hLasts.1.trans hLasts'.1, hLasts'.2.trans hLasts.2⟩ (ih _ hRest)

namespace Onward

variable {c c' c'' : ClassDef}

/-- A class that keeps all its methods. -/
theorem of_methods (hName : c'.name = c.name)
    (hMethods : Method.Apart c.methods → List.Forall₂
      (fun m m' => m.Lasts m' ∧ (c.closed = true → m'.access = m.access)) c.methods c'.methods)
    (hRest : c.closed = true → c'.closed = true ∧ c'.access = c.access ∧ c'.fields = c.fields) :
    Onward c c' where
  name := hName
  apart := fun hApart => apart_of_forall₂ ((hMethods hApart).imp fun _ _ h => h.1) hApart
  numbered := fun hApart => .of_forall₂ ((hMethods hApart).imp fun _ _ h => h.1)
  frozen := fun hApart hClosed =>
    ⟨(hRest hClosed).1, (hRest hClosed).2.1, (hRest hClosed).2.2,
      (hMethods hApart).imp fun _ _ h => ⟨h.1, h.2 hClosed⟩⟩

/-- A class that changes in nothing that counts here. -/
theorem of_same (hName : c'.name = c.name) (hMethods : c'.methods = c.methods)
    (hFields : c'.fields = c.fields) (hAccess : c'.access = c.access)
    (hClosed : c.closed = true → c'.closed = true) : Onward c c' := by
  refine of_methods hName (fun _ => ?_) fun h => ⟨hClosed h, hAccess, hFields⟩
  rw [hMethods]
  exact List.forall₂_same.mpr fun m _ => ⟨.refl m, fun _ => rfl⟩

/-- An open class that keeps its methods. -/
theorem of_open (hOpen : c.closed = false) (hName : c'.name = c.name)
    (hMethods : List.Forall₂ Method.Lasts c.methods c'.methods) : Onward c c' := by
  have hNot : ¬ c.closed = true := Bool.not_eq_true _ ▸ hOpen
  refine of_methods hName (fun _ => ?_) fun hClosed => (hNot hClosed).elim
  exact hMethods.imp fun _ _ hLasts => ⟨hLasts, fun hClosed => (hNot hClosed).elim⟩

/-- Of a class with two methods of one name and signature only its name is told. -/
theorem of_not_apart (hName : c'.name = c.name) (hNot : ¬ Method.Apart c.methods) : Onward c c' :=
  ⟨hName, fun h => (hNot h).elim, fun h => (hNot h).elim, fun h => (hNot h).elim⟩

theorem refl (c : ClassDef) : Onward c c := of_same rfl rfl rfl rfl id

theorem trans (h : Onward c c') (h' : Onward c' c'') : Onward c c'' where
  name := h'.name.trans h.name
  apart := fun hApart => h'.apart (h.apart hApart)
  numbered := fun hApart => (h.numbered hApart).trans (h'.numbered (h.apart hApart))
  frozen := fun hApart hClosed =>
    (h.frozen hApart hClosed).trans
      (h'.frozen (h.apart hApart) (h.frozen hApart hClosed).closed)

/-- A change of methods that leaves all alone but what does not count here. -/
theorem mapMethods {change : Method → Method}
    (h : Method.Apart c.methods → ∀ m ∈ c.methods,
      m.Lasts (change m) ∧ (change m).access = m.access) :
    Onward c { c with methods := c.methods.map change } := by
  refine of_methods rfl (fun hApart => ?_) fun hClosed => ⟨hClosed, rfl, rfl⟩
  refine List.forall₂_map_right_iff.mpr (List.forall₂_same.mpr fun m hm => ?_)
  exact ⟨(h hApart m hm).1, fun _ => (h hApart m hm).2⟩

/-- The same for the methods of one name and signature. -/
theorem modifyMethod {name : MemberName} {signature : Signature} {change : Method → Method}
    (h : Method.Apart c.methods → ∀ m ∈ c.methods, m.isNamed name signature = true →
      m.Lasts (change m) ∧ (change m).access = m.access) :
    Onward c (c.modifyMethod name signature change) := by
  refine mapMethods fun hApart m hm => ?_
  split
  · next hNamed => exact h hApart m hm hNamed
  · exact ⟨.refl m, rfl⟩

/-- Edits keep to it: what a closed class refuses they do to open classes only, and a method is
numbered only if it has no number. -/
theorem of_edited (h : Edited c c') : Onward c c' := by
  have hSame : List.Forall₂ Method.Lasts c.methods c.methods :=
    List.forall₂_same.mpr fun m _ => .refl m
  cases h with
  | nothing => exact refl c
  | close => exact of_same rfl rfl rfl rfl fun _ => rfl
  | access access hOpen => exact of_open hOpen rfl hSame
  | fieldAccess name access hOpen => exact of_open hOpen rfl hSame
  | field f _ hOpen => exact of_open hOpen rfl hSame
  | methodAccess name signature access hOpen =>
      refine of_open hOpen rfl (List.forall₂_map_right_iff.mpr ?_)
      refine List.forall₂_same.mpr fun m _ => ?_
      split
      · exact ⟨rfl, rfl, rfl, fun _ hk => hk⟩
      · exact .refl m
  | method m hFree hOpen =>
      refine ⟨rfl, fun hApart => hApart.concat hFree, fun _ k n hn => ⟨n, ?_, .refl n⟩,
        fun _ hClosed => ?_⟩
      · rw [List.getElem?_append_left (List.getElem?_eq_some_iff.mp hn).1]
        exact hn
      · rw [hOpen] at hClosed
        cases hClosed
  | id name signature id hNone =>
      refine modifyMethod fun hApart m hm hNamed => ⟨⟨rfl, rfl, rfl, fun k hk => ?_⟩, rfl⟩
      obtain ⟨rfl, rfl⟩ := Method.isNamed_iff.mp hNamed
      have hFind : c.findMethod? m.name m.signature = some m := hApart.find? hm
      rw [hFind, Option.bind_some, hk] at hNone
      cases hNone

/-- A step that leads onward if it succeeds, and does nothing if it fails. -/
theorem atomic {ε : Type} {wrap : ε → Fault} {change : ClassDef → Except ε ClassDef}
    (h : ∀ c', change c = .ok c' → Onward c c') :
    Onward c ((Pass.atomic wrap change).on c).2 := by
  rw [Pass.on_atomic]
  cases hChange : change c with
  | error e => exact refl c
  | ok c' => exact h c' hChange

end Onward

end ClassDef

/-! ## Programs -/

namespace ClassGraph

/-- What a program may become: its classes are still there, and new ones start with methods of
different names and signatures. -/
structure Onward (g g' : ClassGraph) : Prop where
  found : ∀ {n c}, g.find? n = some c → ∃ c', g'.find? n = some c' ∧ c.Onward c'
  fresh : ∀ {n c'}, g.find? n = none → g'.find? n = some c' → Method.Apart c'.methods

namespace Onward

variable {g g' g'' : ClassGraph}

/-- Class by class, by name. -/
theorem of_rel (h : ∀ n, Option.Rel ClassDef.Onward (g.find? n) (g'.find? n)) : Onward g g' where
  found := by
    intro n c hFind
    have hRel := h n
    rw [hFind] at hRel
    generalize g'.find? n = found at hRel
    cases hRel with
    | some hOnward => exact ⟨_, rfl, hOnward⟩
  fresh := by
    intro n c' hNone hFind'
    have hRel := h n
    rw [hNone, hFind'] at hRel
    cases hRel

private theorem of_find? {become : ClassName → ClassDef → ClassDef}
    (hFind : ∀ n, g'.find? n = (g.find? n).map (become n))
    (h : ∀ n c, g.find? n = some c → c.Onward (become n c)) : Onward g g' := by
  refine of_rel fun n => ?_
  rw [hFind]
  cases hc : g.find? n with
  | none => exact .none
  | some c => exact .some (h n c hc)

theorem refl (g : ClassGraph) : Onward g g :=
  of_find? (fun _ => Option.map_id'.symm) fun _ c _ => .refl c

theorem trans (h : Onward g g') (h' : Onward g' g'') : Onward g g'' where
  found := by
    intro n c hFind
    obtain ⟨c', hFind', hOnward⟩ := h.found hFind
    obtain ⟨c'', hFind'', hOnward'⟩ := h'.found hFind'
    exact ⟨c'', hFind'', hOnward.trans hOnward'⟩
  fresh := by
    intro n c'' hNone hFind''
    cases hMiddle : g'.find? n with
    | none => exact h'.fresh hMiddle hFind''
    | some c' =>
        obtain ⟨d, hd, hOnward⟩ := h'.found hMiddle
        obtain rfl := Option.some.inj (hFind''.symm.trans hd)
        exact hOnward.apart (h.fresh hNone hMiddle)

theorem mapClasses {change : ClassDef → ClassDef} (h : ∀ c : ClassDef, c.Onward (change c))
    (g : ClassGraph) : Onward g (g.mapClasses change) :=
  of_find? (find?_mapClasses g fun c => (h c).name) fun _ c _ => h c

theorem modify {name : ClassName} {change : ClassDef → ClassDef}
    (h : ∀ c : ClassDef, c.Onward (change c)) (g : ClassGraph) :
    Onward g (g.modify name change) := by
  refine mapClasses (fun c => ?_) g
  split
  · exact h c
  · exact .refl c

/-- Only the class that is found matters. -/
theorem modifyFound {name : ClassName} {change : ClassDef → ClassDef}
    (hName : ∀ c, c.name = name → (change c).name = name)
    (h : ∀ c, g.find? name = some c → c.Onward (change c)) : Onward g (g.modify name change) := by
  refine of_find? (find?_modify_map hName fun _ _ => rfl) fun n d hd => ?_
  split
  · next hn => exact h d (hn ▸ hd)
  · exact .refl d

/-- The class of a name is replaced by what it may become. -/
theorem replace {name : ClassName} {c c' : ClassDef} (hFind : g.find? name = some c)
    (h : c.Onward c') : Onward g (g.modify name fun _ => c') := by
  refine modifyFound (fun _ _ => h.name.trans (name_of_find? hFind)) fun d hd => ?_
  obtain rfl := Option.some.inj (hFind.symm.trans hd)
  exact h

/-- Edits of one class lead onward. -/
theorem of_editedAt {name : ClassName} (h : EditedAt g g' name) : Onward g g' := by
  obtain ⟨c, c', hFind, hEdited, rfl⟩ := h
  exact replace hFind (.of_edited hEdited)

/-- Adding a class whose methods can be told apart leads onward. -/
theorem addClass {c : ClassDef} (hApart : Method.Apart c.methods) (h : g.addClass c = .ok g') :
    Onward g g' := by
  obtain ⟨hNew, _, _, hFind⟩ := find?_addClass h
  refine ⟨fun {n d} hd => ?_, fun {n d'} hNone hd' => ?_⟩
  · have hOther : n ≠ c.name := by
      rintro rfl
      rw [hNew] at hd
      cases hd
    rw [hFind, if_neg hOther, hd]
    exact ⟨_, rfl, .of_same rfl rfl rfl rfl id⟩
  · rw [hFind] at hd'
    split at hd'
    · cases hd'
      exact hApart
    · rw [hNone] at hd'
      cases hd'

/-- Moving a class leads onward. -/
theorem reparent {name s : ClassName} (h : g.reparent name s = .ok g') : Onward g g' :=
  of_find? (find?_reparent h).2.2.2 fun _ _ _ => .of_same rfl rfl rfl rfl id

/-- **Every operation keeps to it.** -/
theorem apply {op : Operation} (h : op.apply g = .ok g') : Onward g g' := by
  rcases Operation.apply_cases h with ⟨c, _, hAdd⟩ | ⟨name, s, _, hMove⟩ | ⟨_, name, hEdited⟩
  · exact addClass (c := c.bare) List.Pairwise.nil hAdd
  · exact reparent hMove
  · exact of_editedAt hEdited

/-- A sweep keeps to it if its pass does in every class. -/
theorem sweep {α : Type} {select : ClassDef → Bool} {pass : ClassDef → Pass ClassDef α}
    (h : ∀ c : ClassDef, c.Onward ((pass c).on c).2) (g : ClassGraph) :
    Onward g ((sweep select pass).on g).2 := by
  refine of_rel fun n => ?_
  have hRel := @rel_sweep α select pass (fun c => (h c).name) g n
  generalize g.find? n = before, ((HotPatch.sweep select pass).on g).2.find? n = after at hRel
  cases hRel with
  | none => exact .none
  | some hWhich =>
      rcases hWhich with rfl | ⟨_, rfl⟩
      · exact .some (.refl _)
      · exact .some (h _)

/-- A pass that leads onward from everywhere guards what leads on. -/
theorem guards {α : Type} {pass : Pass ClassGraph α} (h : ∀ g, Onward g (pass.on g).2) :
    Pass.Guards (Onward g) pass :=
  fun g' hOnward => hOnward.trans (h g')

end Onward

end ClassGraph

end HotPatch
