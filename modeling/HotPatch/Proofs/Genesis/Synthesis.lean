import HotPatch.Genesis.Synthesis
import HotPatch.Proofs.Program.Methods

/-!
# What a genesis class declares

Of all that a genesis class declares, the theorems about calls need its
constructors.  They are the ones redeclared, in their order, and the buddy
constructor behind them; of those with one signature the first is declared.
-/

namespace HotPatch

namespace Genesis

open ClassDef

/-! ## Declaring methods -/

/-- Methods are declared one after the other. -/
theorem declareAll_cons {c c' : ClassDef} {m : Method} {rest : List Method}
    (h : declareAll c (m :: rest) = .ok c') :
    ∃ c₁, c.addMethod m = .ok c₁ ∧ declareAll c₁ rest = .ok c' := by
  unfold declareAll at h
  rw [List.foldlM_cons] at h
  cases hAdd : c.addMethod m with
  | error e => rw [hAdd] at h; cases h
  | ok c₁ =>
      rw [hAdd] at h
      exact ⟨c₁, rfl, h⟩

/-- What is declared already stays as it is. -/
theorem namedMethods_declareAll_of_ne (name : MemberName) (signature : Signature)
    {methods : List Method} :
    ∀ {c c' : ClassDef}, declareAll c methods = .ok c' →
      c.namedMethods name signature ≠ [] →
      c'.namedMethods name signature = c.namedMethods name signature := by
  induction methods with
  | nil =>
      intro c c' h _
      cases h
      rfl
  | cons m rest ih =>
      intro c c' h hSome
      obtain ⟨c₁, hAdd, hRest⟩ := declareAll_cons h
      have hFirst := namedMethods_addMethod hAdd name signature
      rw [if_neg fun h => hSome h.2] at hFirst
      rw [ih hRest (by rw [hFirst]; exact hSome), hFirst]

/-- Of the methods with one name and signature, the first is declared. -/
theorem namedMethods_declareAll (name : MemberName) (signature : Signature)
    {methods : List Method} :
    ∀ {c c' : ClassDef}, declareAll c methods = .ok c' →
      c.namedMethods name signature = [] →
      c'.namedMethods name signature =
        ((methods.find? (·.isNamed name signature)).map
          fun m => { m with owner := c.name }).toList := by
  induction methods with
  | nil =>
      intro c c' h hNone
      cases h
      exact hNone
  | cons m rest ih =>
      intro c c' h hNone
      obtain ⟨c₁, hAdd, hRest⟩ := declareAll_cons h
      have hFirst := namedMethods_addMethod hAdd name signature
      rw [List.find?_cons]
      by_cases hNamed : m.isNamed name signature = true
      · rw [if_pos ⟨hNamed, hNone⟩] at hFirst
        simp only [hNamed, Option.map_some, Option.toList_some]
        rw [namedMethods_declareAll_of_ne name signature hRest (by simp [hFirst]), hFirst]
      · rw [if_neg fun h => hNamed h.1] at hFirst
        simp only [Bool.not_eq_true] at hNamed
        simp only [hNamed]
        rw [ih hRest (hFirst.trans hNone), ClassGraph.name_addMethod hAdd]

/-- Nothing else is declared than what there is to declare. -/
theorem mem_declareAll {methods : List Method} :
    ∀ {c c' : ClassDef}, declareAll c methods = .ok c' → ∀ m ∈ c'.methods,
      m ∈ c.methods ∨ ∃ declared ∈ methods, m = { declared with owner := c.name } := by
  induction methods with
  | nil =>
      intro c c' h m hm
      cases h
      exact .inl hm
  | cons first rest ih =>
      intro c c' h m hm
      obtain ⟨c₁, hAdd, hRest⟩ := declareAll_cons h
      rcases ih hRest m hm with hm | ⟨declared, hMem, rfl⟩
      · rcases mem_addMethod hAdd hm with hm | rfl
        · exact .inl hm
        · exact .inr ⟨first, List.mem_cons_self, rfl⟩
      · rw [ClassGraph.name_addMethod hAdd]
        exact .inr ⟨declared, List.mem_cons_of_mem _ hMem, rfl⟩

/-! ## The parts of a genesis class -/

private theorem mem_foldl_declare {m : Method} {declared : List Method} :
    ∀ {table : List Method}, m ∈ declared.foldl declare table → m ∈ table ∨ m ∈ declared := by
  induction declared with
  | nil =>
      intro table h
      exact .inl h
  | cons first rest ih =>
      intro table h
      rcases ih h with h | h
      · rcases List.mem_append.mp h with h | h
        · exact .inl (List.mem_of_mem_filter h)
        · exact .inr (List.mem_singleton.mp h ▸ List.mem_cons_self)
      · exact .inr (List.mem_cons_of_mem _ h)

private theorem isVirtual_of_mem_foldl {chain : List ClassDef} :
    ∀ {table : List Method}, (∀ m ∈ table, isVirtual m = true) →
      ∀ m ∈ chain.foldl enterClass table, isVirtual m = true := by
  induction chain with
  | nil =>
      intro table hTable
      exact hTable
  | cons c rest ih =>
      intro table hTable
      apply ih
      intro m hm
      unfold enterClass at hm
      rcases mem_foldl_declare (List.mem_filter.mp hm).1 with hm | hm
      · exact hTable m hm
      · exact (List.mem_filter.mp hm).2

/-- Whatever can be overridden is no constructor. -/
theorem name_of_mem_overridable {g : ClassGraph} {c : ClassDef} {m : Method}
    (h : m ∈ overridable g c) : m.name.isInit = false := by
  have hNone : ∀ m ∈ ([] : List Method), isVirtual m = true := by
    intro m hm
    cases hm
  have hVirtual := isVirtual_of_mem_foldl hNone m h
  simp only [isVirtual, Bool.and_eq_true, Bool.not_eq_true'] at hVirtual
  exact hVirtual.1.1.1.2

/-- A constructor of the genesis class that was made for it and has no role yet. -/
structure OwnConstructor (bottom : ClassName) (signature : Signature) (m : Method) : Prop where
  owner : m.owner = genesisName bottom
  name : m.name = .init
  signature : m.signature = signature
  isConstructor : m.isConstructor = true
  role : m.role = .plain

/-- A redeclared constructor is one of the genesis class. -/
theorem redeclare_own {bottom : ClassName} {m n : Method} {id : Nat}
    (h : redeclare bottom m id = .ok n) : OwnConstructor bottom m.signature n := by
  obtain ⟨arguments, _, h⟩ := bind_eq_ok.mp h
  obtain ⟨body, _, hNew⟩ := bind_eq_ok.mp h
  cases hNew
  exact ⟨rfl, rfl, rfl, rfl, rfl⟩

/-- The dispatcher is a constructor of the genesis class. -/
theorem dispatcher_own {bottom : ClassName} {constructors : List Method} {m : Method}
    (h : dispatcher bottom constructors = .ok m) :
    OwnConstructor bottom Interceptor.buddySignature m := by
  obtain ⟨numbers, _, h⟩ := bind_eq_ok.mp h
  obtain ⟨targets, _, h⟩ := bind_eq_ok.mp h
  obtain ⟨body, _, hNew⟩ := bind_eq_ok.mp h
  cases hNew
  exact ⟨rfl, rfl, rfl, rfl, rfl⟩

theorem stub_eq_ok {bottom : ClassName} {m s : Method} (h : stub bottom m = .ok s) :
    s.name = m.name ∧ s.role = .plain := by
  obtain ⟨arguments, _, h⟩ := bind_eq_ok.mp h
  obtain ⟨body, _, hNew⟩ := bind_eq_ok.mp h
  cases hNew
  exact ⟨rfl, rfl⟩

/-- The constructors that a genesis class redeclares, in the order of their numbers. -/
def Redeclares (bottom : ClassDef) (constructors : List Method) : Prop :=
  List.Forall₂ (fun (entry : Method × Nat) n => redeclare bottom.name entry.1 entry.2 = .ok n)
    (inheritable bottom).zipIdx constructors

/-- All constructors of a genesis class are its own. -/
theorem Redeclares.own {bottom : ClassDef} {constructors : List Method} {buddy m : Method}
    (h : Redeclares bottom constructors) (hBuddy : dispatcher bottom.name constructors = .ok buddy)
    (hm : m ∈ constructors ++ [buddy]) : ∃ signature, OwnConstructor bottom.name signature m := by
  rcases List.mem_append.mp hm with hm | hm
  · obtain ⟨entry, _, hNew⟩ := exists_left_of_forall₂ h hm
    exact ⟨_, redeclare_own hNew⟩
  · obtain rfl := List.mem_singleton.mp hm
    exact ⟨_, dispatcher_own hBuddy⟩

private theorem synthesize_eq_ok {g : ClassGraph} {bottom : ClassDef} {methods : List Method}
    (h : synthesize g bottom = .ok methods) :
    ∃ stubs constructors buddy, methods = stubs ++ (constructors ++ [buddy]) ∧
      (∀ s ∈ stubs, s.name.isInit = false ∧ s.role = .plain) ∧
      Redeclares bottom constructors ∧ dispatcher bottom.name constructors = .ok buddy := by
  obtain ⟨stubs, hStubs, h⟩ := bind_eq_ok.mp h
  obtain ⟨constructors, hConstructors, h⟩ := bind_eq_ok.mp h
  obtain ⟨buddy, hBuddy, h⟩ := bind_eq_ok.mp h
  cases h
  rw [mapError_eq_ok, mapM_eq_ok_iff] at hStubs hConstructors
  refine ⟨stubs, constructors, buddy, List.append_assoc _ _ _, fun s hs => ?_, hConstructors,
    hBuddy⟩
  obtain ⟨m, hm, hStub⟩ := exists_left_of_forall₂ hStubs hs
  obtain ⟨hName, hRole⟩ := stub_eq_ok hStub
  exact ⟨hName ▸ name_of_mem_overridable hm, hRole⟩

/-- Buddy constructors take the role that keeps them from being intercepted. -/
def sealBuddy (m : Method) : Method :=
  if m.isNamed .init Interceptor.buddySignature then { m with role := .wormhole } else m

private theorem isConstructor_sealBuddy (m : Method) :
    (sealBuddy m).isConstructor = m.isConstructor := by
  rw [sealBuddy]
  split <;> rfl

private theorem owner_sealBuddy (m : Method) : (sealBuddy m).owner = m.owner := by
  rw [sealBuddy]
  split <;> rfl

/-- **The constructors of a genesis class**: of the ones redeclared and the buddy constructor, the
first of each signature. -/
theorem genesisClass_eq_ok {g : ClassGraph} {component : ComponentType} {bottom c : ClassDef}
    (h : genesisClass g component bottom = .ok c) :
    ∃ constructors buddy, Redeclares bottom constructors ∧
      dispatcher bottom.name constructors = .ok buddy ∧
      (∀ signature, c.namedMethods .init signature =
        (((constructors ++ [buddy]).find? (·.isNamed .init signature)).map sealBuddy).toList) ∧
      ∀ m ∈ c.methods, m.role ≠ .componentDirect := by
  obtain ⟨methods, hMethods, h⟩ := bind_eq_ok.mp h
  obtain ⟨c₁, hDeclare, h⟩ := bind_eq_ok.mp h
  cases h
  rw [mapError_eq_ok] at hDeclare
  obtain ⟨stubs, constructors, buddy, rfl, hStubs, hRedeclares, hBuddy⟩ :=
    synthesize_eq_ok hMethods
  have hOwn : ∀ m ∈ constructors ++ [buddy], ∃ signature,
      OwnConstructor bottom.name signature m := fun m hm => hRedeclares.own hBuddy hm
  refine ⟨constructors, buddy, hRedeclares, hBuddy, fun signature => ?_, fun m hm => ?_⟩
  · have hStub : ∀ s ∈ stubs, ¬ s.isNamed .init signature = true := by
      intro s hs hNamed
      have hInit := (hStubs s hs).1
      rw [(Method.isNamed_iff.mp hNamed).1] at hInit
      cases hInit
    have hDeclared := namedMethods_declareAll .init signature hDeclare rfl
    rw [List.find?_append, List.find?_eq_none.mpr hStub, Option.none_or] at hDeclared
    rw [namedMethods_giveRole, hDeclared]
    cases hFind : (constructors ++ [buddy]).find? (·.isNamed .init signature) with
    | none => rfl
    | some m =>
        obtain ⟨_, hm⟩ := hOwn m (List.mem_of_find?_eq_some hFind)
        have hSelf : ({ m with owner := genesisName bottom.name } : Method) = m := by
          rw [← hm.owner]
        simp only [Option.map_some, Option.toList_some, List.map_cons, List.map_nil, bareClass,
          hSelf, sealBuddy]
  · obtain ⟨m', hm', rfl⟩ := List.mem_map.mp hm
    have hRole : m'.role = .plain := by
      rcases mem_declareAll hDeclare m' hm' with hm' | ⟨declared, hMem, rfl⟩
      · cases hm'
      · rcases List.mem_append.mp hMem with hMem | hMem
        · exact (hStubs declared hMem).2
        · obtain ⟨_, hm⟩ := hOwn declared hMem
          exact hm.role
    intro hDirect
    split at hDirect
    · cases hDirect
    · rw [hRole] at hDirect
      cases hDirect

/-- For each constructor that subclasses can call, the second class declares one that takes the
same arguments. -/
def Offers (p c : ClassDef) : Prop :=
  ∀ m ∈ p.methods, isInheritable m = true → ∃ n, c.findMethod? .init m.signature = some n ∧
    n.isConstructor = true ∧ n.owner = genesisName p.name

theorem Offers.congr {p p' c c' : ClassDef} (h : Offers p c) (hName : p'.name = p.name)
    (hMethods : p'.methods = p.methods) (hMethods' : c'.methods = c.methods) : Offers p' c' := by
  intro m hm hInheritable
  obtain ⟨n, hFind, hn⟩ := h m (hMethods ▸ hm) hInheritable
  refine ⟨n, ?_, hName ▸ hn⟩
  rw [findMethod?, hMethods']
  exact hFind

/-- A genesis class offers each constructor that could be called on its platform class. -/
theorem offers_genesisClass {g : ClassGraph} {component : ComponentType} {bottom c : ClassDef}
    (h : genesisClass g component bottom = .ok c) : Offers bottom c := by
  obtain ⟨constructors, buddy, hRedeclares, hBuddy, hNamed, _⟩ := genesisClass_eq_ok h
  intro m hm hInheritable
  have hMem : m ∈ inheritable bottom := by
    rw [inheritable, List.mem_mergeSort, List.mem_filter]
    exact ⟨hm, hInheritable⟩
  obtain ⟨k, hAt⟩ := List.mem_iff_getElem?.mp hMem
  have hEntry : (m, k) ∈ (inheritable bottom).zipIdx := List.mem_zipIdx_iff_getElem?.mpr hAt
  obtain ⟨n, hn, hNew⟩ := exists_left_of_forall₂ hRedeclares.flip hEntry
  have hIs := redeclare_own hNew
  have hSome : ((constructors ++ [buddy]).find? (·.isNamed .init m.signature)).isSome := by
    rw [List.find?_isSome]
    exact ⟨n, List.mem_append_left _ hn, Method.isNamed_iff.mpr ⟨hIs.name, hIs.signature⟩⟩
  obtain ⟨n', hFind⟩ := Option.isSome_iff_exists.mp hSome
  obtain ⟨_, hOwn⟩ := hRedeclares.own hBuddy (List.mem_of_find?_eq_some hFind)
  refine ⟨sealBuddy n', ?_, ?_, ?_⟩
  · rw [findMethod?_eq_head?, hNamed, hFind]
    rfl
  · rw [isConstructor_sealBuddy]
    exact hOwn.isConstructor
  · rw [owner_sealBuddy]
    exact hOwn.owner

end Genesis

end HotPatch
