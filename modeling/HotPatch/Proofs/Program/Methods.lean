import HotPatch.Proofs.Program.Outline

/-!
# What changes of the graph do to methods

The other half of a class beside its outline.  Moving a class and adding one
leave the methods of all classes alone; declaring methods on a class puts the
first of each name and signature behind what is there.
-/

namespace HotPatch

namespace Method

/-- A method goes by its name and signature. -/
theorem isNamed_iff {m : Method} {name : MemberName} {signature : Signature} :
    m.isNamed name signature = true ↔ m.name = name ∧ m.signature = signature := by
  simp [isNamed]

/-- Two methods have one key if they share name and signature. -/
theorem sameKey_iff {m n : Method} :
    m.sameKey n = true ↔ m.name = n.name ∧ m.signature = n.signature := by
  rw [sameKey, isNamed_iff]

theorem sameKey_comm (m n : Method) : m.sameKey n = n.sameKey m := by
  rw [Bool.eq_iff_iff, sameKey_iff, sameKey_iff, eq_comm (a := m.name),
    eq_comm (a := m.signature)]

theorem isNamed_eq_sameKey (m n : Method) : m.isNamed n.name n.signature = m.sameKey n := rfl

/-- Only name and signature matter to what goes by the same ones. -/
theorem sameKey_congr {m m' : Method} (hName : m'.name = m.name)
    (hSignature : m'.signature = m.signature) (n : Method) : m'.sameKey n = m.sameKey n := by
  rw [sameKey, isNamed, hName, hSignature]
  rfl

/-- No two of the methods go by one name and signature. -/
def Apart (methods : List Method) : Prop := methods.Pairwise fun m n => m.sameKey n = false

/-- The method that goes by the name and signature of one that is there is that one. -/
theorem Apart.find? {methods : List Method} (h : Apart methods) {m : Method}
    (hm : m ∈ methods) : methods.find? (·.sameKey m) = some m := by
  induction methods with
  | nil => cases hm
  | cons first rest ih =>
      obtain ⟨hFirst, hRest⟩ := List.pairwise_cons.mp h
      rw [List.find?_cons]
      rcases List.mem_cons.mp hm with rfl | hm
      · rw [sameKey_iff.mpr ⟨rfl, rfl⟩]
      · rw [hFirst m hm]
        exact ih hRest hm

/-- Where methods are told apart, the one of a name and signature is unique. -/
theorem Apart.eq_of_isNamed {methods : List Method} (h : Apart methods) {m n : Method}
    (hm : m ∈ methods) (hn : n ∈ methods) (hNamed : n.isNamed m.name m.signature = true) :
    n = m := by
  obtain ⟨hName, hSignature⟩ := isNamed_iff.mp hNamed
  have hFind := h.find? hn
  simp only [sameKey, hName, hSignature] at hFind
  exact Option.some.inj (hFind.symm.trans (h.find? hm))

/-- Looking for the key of a method finds its own place. -/
theorem Apart.findIdx? {methods : List Method} (h : Apart methods) :
    ∀ {k : Nat} {m : Method}, methods[k]? = some m →
      methods.findIdx? (·.sameKey m) = some k := by
  induction methods with
  | nil =>
      intro k m hm
      cases hm
  | cons first rest ih =>
      obtain ⟨hFirst, hRest⟩ := List.pairwise_cons.mp h
      intro k m hm
      rw [List.findIdx?_cons]
      cases k with
      | zero =>
          obtain rfl : first = m := by simpa using hm
          rw [sameKey_iff.mpr ⟨rfl, rfl⟩, if_pos rfl]
      | succ k =>
          have hRestAt : rest[k]? = some m := by simpa using hm
          rw [hFirst m (List.mem_of_getElem? hRestAt), if_neg Bool.false_ne_true, ih hRest hRestAt]
          rfl

/-- A method whose name and signature are free can be put behind the others. -/
theorem Apart.concat {methods : List Method} (h : Apart methods) {m : Method}
    (hFree : methods.find? (·.isNamed m.name m.signature) = none) : Apart (methods ++ [m]) := by
  refine List.pairwise_append.mpr ⟨h, List.pairwise_singleton _ _, fun n hn m' hm' => ?_⟩
  obtain rfl := List.mem_singleton.mp hm'
  exact Bool.not_eq_true _ ▸ List.find?_eq_none.mp hFree n hn

/-- Methods are told apart if no name and signature is there twice. -/
theorem apart_iff_nodup {methods : List Method} :
    Apart methods ↔ (methods.map fun m => (m.name, m.signature)).Nodup := by
  rw [Apart, List.Nodup, List.pairwise_map]
  refine List.Pairwise.iff fun {m n} => ?_
  rw [← Bool.not_eq_true, sameKey_iff, ne_eq, Prod.mk.injEq]

/-- Methods stay apart if each keeps its name and signature. -/
theorem Apart.map {methods : List Method} (h : Apart methods) {change : Method → Method}
    (hName : ∀ m, (change m).name = m.name) (hSignature : ∀ m, (change m).signature = m.signature) :
    Apart (methods.map change) := by
  rw [apart_iff_nodup] at h ⊢
  simp only [List.map_map, Function.comp_def, hName, hSignature]
  exact h

/-- Methods with the role of the constructors of one signature set. -/
def giveRole (signature : Signature) (role : ConstructorRole) (methods : List Method) :
    List Method :=
  methods.map fun m => if m.isNamed .init signature then { m with role } else m

/-- Which constructors go by a signature does not depend on roles. -/
theorem filter_giveRole (signature : Signature) (role : ConstructorRole)
    (signature' : Signature) (methods : List Method) :
    (giveRole signature role methods).filter (·.isNamed .init signature') =
      (methods.filter (·.isNamed .init signature')).map fun m =>
        if m.isNamed .init signature then { m with role } else m := by
  rw [giveRole, List.filter_map]
  congr 2
  funext m
  simp only [Function.comp_apply]
  split <;> rfl

/-- Methods with one more, unless its name and signature are taken. -/
def addOnce (m : Method) (methods : List Method) : List Method :=
  if methods.any (·.isNamed m.name m.signature) then methods else methods ++ [m]

/-- A method without its role in interception. -/
def withoutRole (m : Method) : Method := { m with role := .plain }

/-- Giving roles changes nothing but roles. -/
theorem map_withoutRole_giveRole (signature : Signature) (role : ConstructorRole)
    (methods : List Method) :
    (giveRole signature role methods).map withoutRole = methods.map withoutRole := by
  rw [giveRole, List.map_map]
  refine List.map_congr_left fun m _ => ?_
  rw [Function.comp_apply]
  split <;> rfl

theorem any_isNamed_withoutRole (name : MemberName) (signature : Signature)
    (methods : List Method) :
    (methods.map withoutRole).any (·.isNamed name signature) =
      methods.any (·.isNamed name signature) := by
  rw [List.any_map]
  rfl

theorem map_withoutRole_addOnce (m : Method) (methods : List Method) :
    (m.addOnce methods).map withoutRole =
      m.withoutRole.addOnce (methods.map withoutRole) := by
  have hAny := any_isNamed_withoutRole m.name m.signature methods
  have hName : m.withoutRole.name = m.name := rfl
  have hSignature : m.withoutRole.signature = m.signature := rfl
  rw [addOnce, addOnce, hName, hSignature, hAny]
  split
  · rfl
  · rw [List.map_append, List.map_singleton]

/-- What is there stays in front. -/
theorem exists_addOnce (m : Method) (methods : List Method) :
    ∃ more, (m.addOnce methods).map withoutRole = methods.map withoutRole ++ more := by
  rw [addOnce]
  split
  · exact ⟨[], (List.append_nil _).symm⟩
  · exact ⟨[m.withoutRole], by rw [List.map_append, List.map_singleton]⟩

end Method

namespace ClassDef

/-- The methods of one name and signature; a class that can be encoded has at most one. -/
def namedMethods (c : ClassDef) (name : MemberName) (signature : Signature) : List Method :=
  c.methods.filter (·.isNamed name signature)

/-- The first method of a name and signature is found. -/
theorem findMethod?_eq_head? (c : ClassDef) (name : MemberName) (signature : Signature) :
    c.findMethod? name signature = (c.namedMethods name signature).head? := by
  rw [findMethod?, namedMethods, List.head?_filter]

/-- The method that is found goes by the name and signature asked for. -/
theorem named_of_findMethod? {c : ClassDef} {name : MemberName} {signature : Signature}
    {m : Method} (h : c.findMethod? name signature = some m) :
    m.name = name ∧ m.signature = signature := by
  have hNamed : m.isNamed name signature = true :=
    List.find?_some (p := fun m : Method => m.isNamed name signature) h
  exact Method.isNamed_iff.mp hNamed

/-- The method that is found is the only one that goes by its name and signature. -/
theorem eq_of_findMethod? {c : ClassDef} (hApart : Method.Apart c.methods) {name : MemberName}
    {signature : Signature} {m n : Method} (h : c.findMethod? name signature = some m)
    (hn : n ∈ c.methods) (hNamed : n.isNamed name signature = true) : n = m := by
  obtain ⟨rfl, rfl⟩ := named_of_findMethod? h
  exact hApart.eq_of_isNamed (List.mem_of_find?_eq_some h) hn hNamed

/-- Only the methods of the same name and signature matter to a method that is declared. -/
theorem namedMethods_addMethod {c c' : ClassDef} {m : Method} (h : c.addMethod m = .ok c')
    (name : MemberName) (signature : Signature) :
    c'.namedMethods name signature =
      if m.isNamed name signature ∧ c.namedMethods name signature = [] then
        [{ m with owner := c.name }]
      else c.namedMethods name signature := by
  unfold addMethod at h
  split at h
  · next old hFound =>
      cases h
      rw [findMethod?_eq_head?] at hFound
      split
      · next hNew =>
          obtain ⟨rfl, rfl⟩ := Method.isNamed_iff.mp hNew.1
          rw [hNew.2] at hFound
          cases hFound
      · rfl
  · next hNone =>
      unfold guarded at h
      split at h
      · cases h
      · cases h
        rw [findMethod?_eq_head?, List.head?_eq_none_iff] at hNone
        have hSame : ({ m with owner := c.name } : Method).isNamed name signature =
            m.isNamed name signature := rfl
        rw [namedMethods, List.filter_append, List.filter_singleton, hSame]
        by_cases hNamed : m.isNamed name signature = true
        · obtain ⟨rfl, rfl⟩ := Method.isNamed_iff.mp hNamed
          rw [namedMethods] at hNone
          simp [hNamed, namedMethods, hNone]
        · simp [hNamed, namedMethods]

theorem namedMethods_giveRole (c : ClassDef) (signature : Signature) (role : ConstructorRole)
    (signature' : Signature) :
    (c.modifyMethod .init signature fun m => { m with role }).namedMethods .init signature' =
      (c.namedMethods .init signature').map fun m =>
        if m.isNamed .init signature then { m with role } else m :=
  Method.filter_giveRole signature role signature' c.methods

/-- A class owns the methods added to it, each of them once. -/
theorem methods_addMethod {c c' : ClassDef} {m : Method} (h : c.addMethod m = .ok c') :
    c'.methods = Method.addOnce { m with owner := c.name } c.methods := by
  unfold addMethod at h
  rw [Method.addOnce]
  split at h
  · next old hFound =>
      cases h
      have hAny : c.methods.any (·.isNamed m.name m.signature) = true := by
        rw [← List.isSome_find?]
        exact Option.isSome_of_eq_some hFound
      exact (if_pos hAny).symm
  · next hNone =>
      unfold guarded at h
      split at h
      · cases h
      · cases h
        have hAny : ¬ c.methods.any (·.isNamed m.name m.signature) = true := by
          rw [List.any_eq_true]
          rintro ⟨old, hOld, hNamed⟩
          exact List.find?_eq_none.mp hNone old hOld hNamed
        exact (if_neg hAny).symm

/-- A method of the class was there before, or is the one added. -/
theorem mem_addMethod {c c' : ClassDef} {m n : Method} (h : c.addMethod m = .ok c')
    (hn : n ∈ c'.methods) : n ∈ c.methods ∨ n = { m with owner := c.name } := by
  unfold addMethod at h
  split at h
  · cases h
    exact .inl hn
  · unfold guarded at h
    split at h
    · cases h
    · cases h
      rcases List.mem_append.mp hn with hn | hn
      · exact .inl hn
      · exact .inr (List.mem_singleton.mp hn)

end ClassDef

namespace ClassGraph

/-- The methods of the class of that name. -/
def methods? (g : ClassGraph) (name : ClassName) : Option (List Method) :=
  (g.find? name).map (·.methods)

theorem methods?_of_find? {g : ClassGraph} {name : ClassName} {c : ClassDef}
    (h : g.find? name = some c) : g.methods? name = some c.methods := by
  rw [methods?, h, Option.map_some]

/-- Changes of anything else leave all methods alone. -/
theorem methods?_modify_of_eq {g : ClassGraph} {name : ClassName} {change : ClassDef → ClassDef}
    (hName : ∀ c, c.name = name → (change c).name = name)
    (hMethods : ∀ c, (change c).methods = c.methods) (n : ClassName) :
    (g.modify name change).methods? n = g.methods? n := by
  rw [methods?, methods?, find?_modify hName]
  split
  · simp [Function.comp_def, hMethods]
  · rfl

theorem methods?_setMethods (g : ClassGraph) (name : ClassName) (methods : List Method)
    (n : ClassName) :
    (g.modify name fun c => { c with methods }).methods? n =
      if n = name then (g.methods? n).map fun _ => methods else g.methods? n := by
  have hFind : (g.modify name fun c => { c with methods }).find? n =
      if n = name then (g.find? n).map fun c => { c with methods } else g.find? n := by
    apply find?_modify
    intro _ hc
    exact hc
  rw [methods?, methods?, hFind]
  split
  · rw [Option.map_map, Option.map_map]
    rfl
  · rfl

/-- Only the owner of a method gets it. -/
theorem methods?_addMethod {g g' : ClassGraph} {m : Method} (h : g.addMethod m = .ok g')
    (n : ClassName) :
    g'.methods? n = if n = m.owner then (g.methods? n).map m.addOnce else g.methods? n := by
  obtain ⟨c, c', hFind, hAdd, hFind'⟩ := addMethod_eq_ok h
  rw [methods?, methods?, hFind']
  split
  · next hn =>
      have hOwner : ({ m with owner := c.name } : Method) = m := by rw [name_of_find? hFind]
      rw [hn, hFind, Option.map_some, Option.map_some, Option.map_some,
        ClassDef.methods_addMethod hAdd, hOwner]
  · rfl

theorem methods?_giveRole (g : ClassGraph) (name : ClassName) (signature : Signature)
    (role : ConstructorRole) (n : ClassName) :
    (g.modify name (·.modifyMethod .init signature fun m => { m with role })).methods? n =
      if n = name then (g.methods? n).map (Method.giveRole signature role)
      else g.methods? n := by
  have hFind : (g.modify name (·.modifyMethod .init signature fun m => { m with role })).find? n =
      if n = name then
        (g.find? n).map (·.modifyMethod .init signature fun m => { m with role })
      else g.find? n := by
    apply find?_modify
    intro _ hc
    exact hc
  rw [methods?, methods?, hFind]
  split
  · rw [Option.map_map, Option.map_map]
    rfl
  · rfl

private theorem methods?_link (g : ClassGraph) (s name n : ClassName) :
    (g.link s name).methods? n = g.methods? n := by
  apply methods?_modify_of_eq
  · intro _ hc
    exact hc
  · intro _
    rfl

private theorem methods?_unlink (g : ClassGraph) (s name n : ClassName) :
    (g.unlink s name).methods? n = g.methods? n := by
  apply methods?_modify_of_eq
  · intro _ hc
    exact hc
  · intro _
    rfl

/-- A new class brings its methods, and no other class changes. -/
theorem methods?_addClass {g g' : ClassGraph} {c : ClassDef} {s : ClassName}
    (hSuper : c.superclass = some s) (h : g.addClass c = .ok g') (n : ClassName) :
    g'.methods? n = if n = c.name then some c.methods else g.methods? n := by
  obtain ⟨hNew, _, rfl⟩ := addClass_eq_ok hSuper h
  rw [methods?_link, methods?, methods?, find?_append (c := { c with subclasses := [] }) hNew]
  split <;> rfl

/-- Moving a class changes no methods. -/
theorem methods?_reparent {g g' : ClassGraph} {name s : ClassName}
    (h : g.reparent name s = .ok g') (n : ClassName) : g'.methods? n = g.methods? n := by
  unfold reparent at h
  cases hGet : g.get name with
  | error e => rw [hGet] at h; cases h
  | ok c =>
      cases hGet' : g.get s with
      | error e => simp [hGet, hGet', bind, Except.bind] at h
      | ok d =>
          simp only [hGet, hGet', bind, Except.bind, pure, Except.pure, Except.ok.injEq] at h
          subst h
          have hMoved : ∀ base : ClassGraph,
              ((base.modify name fun c => { c with superclass := some s }).link s name).methods? n =
                base.methods? n := by
            intro base
            refine (methods?_link _ s name n).trans ?_
            apply methods?_modify_of_eq
            · intro _ hc
              exact hc
            · intro _
              rfl
          cases c.superclass with
          | none => exact hMoved g
          | some old => exact (hMoved _).trans (methods?_unlink g old name n)

end ClassGraph

end HotPatch
