import HotPatch.Proofs.Genesis.Constructors
import HotPatch.Proofs.Genesis.Steps
import HotPatch.Proofs.Program.Hierarchy

/-!
# The overrides of a genesis class

What a subclass can override is found from the top of the hierarchy down: a
declaration takes the place of the one it overrides, and final ones drop out
at every level.  Seen from the bottom, that is the nearest declaration of
each name and signature, if it is not final (`mem_entered_iff`).

A genesis class overrides each of them once, with a body that hands receiver
and parameters to the method of the platform class and returns what it gives
(`genesisClass_overrides`).  It is made wherever its name is free and the
registers of its code can be counted, and not everywhere else
(`genesisClass_overrides_fails`).
-/

namespace HotPatch

namespace Genesis

/-! ## The nearest declaration -/

/-- A method that subclasses everywhere see and inherit: neither static nor an initializer by name
or flag, and public or protected. -/
structure Eligible (m : Method) : Prop where
  notStatic : m.access.isStatic = false
  notInit : m.name ≠ .init
  notClinit : m.name ≠ .clinit
  notInitializer : m.access.isInitializer = false
  visible : m.access.visibility = .pub ∨ m.access.visibility = .prot

private theorem isVirtual_iff {m : Method} : isVirtual m = true ↔ Eligible m := by
  constructor
  · intro h
    simp only [isVirtual, Method.isStatic, MemberName.isInit, MemberName.isClinit,
      Bool.and_eq_true, Bool.or_eq_true, Bool.not_eq_true', beq_iff_eq, beq_eq_false_iff_ne] at h
    obtain ⟨⟨⟨⟨hStatic, hInit⟩, hClinit⟩, hFlag⟩, hVisible⟩ := h
    exact ⟨hStatic, hInit, hClinit, hFlag, hVisible⟩
  · rintro ⟨hStatic, hInit, hClinit, hFlag, hVisible⟩
    simp [isVirtual, Method.isStatic, MemberName.isInit, MemberName.isClinit, hStatic, hInit,
      hClinit, hFlag, hVisible]

/-- The chain of a class: the class itself and all above it, from the bottom up. -/
inductive Chain (g : ClassGraph) : ClassDef → List ClassDef → Prop where
  | top {c : ClassDef} : g.find? c.name = some c → c.superclass = none → Chain g c [c]
  | under {c d : ClassDef} {chain : List ClassDef} : g.find? c.name = some c →
      c.superclass = some d.name → Chain g d chain → Chain g c (c :: chain)

/-- The method is an eligible declaration of some class of the chain, and no class below that one
has an eligible declaration of its name and signature. -/
def Nearest (chain : List ClassDef) (m : Method) : Prop :=
  ∃ front d back, chain = front ++ d :: back ∧ m ∈ d.methods ∧ Eligible m ∧
    ∀ c ∈ front, ∀ n ∈ c.methods, Eligible n → n.sameKey m = false

private theorem nearest_cons {c : ClassDef} {chain : List ClassDef} {m : Method} :
    Nearest (c :: chain) m ↔ (m ∈ c.methods ∧ Eligible m) ∨
      Nearest chain m ∧ ∀ n ∈ c.methods, Eligible n → n.sameKey m = false := by
  constructor
  · rintro ⟨front, d, back, hChain, hm, hEligible, hNone⟩
    cases front with
    | nil =>
        obtain ⟨rfl, rfl⟩ := List.cons.inj hChain
        exact .inl ⟨hm, hEligible⟩
    | cons first front =>
        obtain ⟨rfl, rfl⟩ := List.cons.inj hChain
        obtain ⟨hFirst, hFront⟩ := List.forall_mem_cons.mp hNone
        exact .inr ⟨⟨front, d, back, rfl, hm, hEligible, hFront⟩, hFirst⟩
  · rintro (⟨hm, hEligible⟩ | ⟨⟨front, d, back, rfl, hm, hEligible, hNone⟩, hFirst⟩)
    · exact ⟨[], c, chain, rfl, hm, hEligible, fun _ h => absurd h List.not_mem_nil⟩
    · exact ⟨c :: front, d, back, rfl, hm, hEligible, List.forall_mem_cons.mpr ⟨hFirst, hNone⟩⟩

/-! ## From the top down -/

private theorem mem_declare {entries : List Method} {m n : Method} :
    n ∈ declare entries m ↔ (n ∈ entries ∧ n.sameKey m = false) ∨ n = m := by
  simp [declare]

/-- Entering methods that go by different names. -/
theorem mem_foldl_declare_iff {declared : List Method} (hApart : Method.Apart declared) :
    ∀ {entries : List Method} {n : Method}, n ∈ declared.foldl declare entries ↔
      n ∈ declared ∨ n ∈ entries ∧ ∀ m ∈ declared, n.sameKey m = false := by
  induction declared with
  | nil => simp
  | cons first rest ih =>
      obtain ⟨hFirst, hRest⟩ := List.pairwise_cons.mp hApart
      intro entries n
      rw [List.foldl_cons, ih hRest, mem_declare, List.mem_cons, List.forall_mem_cons]
      constructor
      · rintro (hn | ⟨⟨hn, hSame⟩ | rfl, hOthers⟩)
        · exact .inl (.inr hn)
        · exact .inr ⟨hn, hSame, hOthers⟩
        · exact .inl (.inl rfl)
      · rintro ((rfl | hn) | ⟨hn, hSame, hOthers⟩)
        · exact .inr ⟨.inr rfl, hFirst⟩
        · exact .inl hn
        · exact .inr ⟨.inl ⟨hn, hSame⟩, hOthers⟩

private theorem apart_declare {entries : List Method} (h : Method.Apart entries) (m : Method) :
    Method.Apart (declare entries m) := by
  refine Method.Apart.concat (h.filter _) (List.find?_eq_none.mpr fun n hn hNamed => ?_)
  rw [List.mem_filter, Method.sameKey, hNamed] at hn
  exact absurd hn.2 Bool.false_ne_true

private theorem apart_foldl_declare {declared : List Method} :
    ∀ {entries : List Method}, Method.Apart entries →
      Method.Apart (declared.foldl declare entries) := by
  induction declared with
  | nil => exact fun h => h
  | cons first rest ih => exact fun h => ih (apart_declare h first)

private theorem mem_enterClass {entries : List Method} {c : ClassDef}
    (hApart : Method.Apart c.methods)
    {n : Method} : n ∈ enterClass entries c ↔ n.access.isFinal = false ∧
      ((n ∈ c.methods ∧ Eligible n) ∨
        n ∈ entries ∧ ∀ m ∈ c.methods, Eligible m → m.sameKey n = false) := by
  have hSame : (∀ m ∈ c.methods.filter isVirtual, n.sameKey m = false) ↔
      ∀ m ∈ c.methods, Eligible m → m.sameKey n = false := by
    simp only [List.mem_filter, isVirtual_iff, and_imp, Method.sameKey_comm n]
  rw [enterClass, List.mem_filter, mem_foldl_declare_iff (hApart.filter _), List.mem_filter,
    isVirtual_iff, hSame, Bool.not_eq_true', and_comm]

/-- What the classes of a chain enter, from the top down. -/
def entered (chain : List ClassDef) : List Method :=
  chain.foldr (fun c entries => enterClass entries c) []

private theorem apart_entered (chain : List ClassDef) : Method.Apart (entered chain) := by
  induction chain with
  | nil => exact .nil
  | cons c chain ih => exact (apart_foldl_declare ih).filter _

/-- **Entered from the top down, seen from the bottom**: the nearest declarations that are not
final. -/
theorem mem_entered_iff {chain : List ClassDef} (hApart : ∀ c ∈ chain, Method.Apart c.methods)
    {m : Method} : m ∈ entered chain ↔ Nearest chain m ∧ m.access.isFinal = false := by
  induction chain with
  | nil =>
      constructor
      · intro h
        cases h
      · rintro ⟨⟨front, d, back, hNil, _⟩, _⟩
        simp at hNil
  | cons c chain ih =>
      obtain ⟨hFirst, hRest⟩ := List.forall_mem_cons.mp hApart
      have hEntered : entered (c :: chain) = enterClass (entered chain) c := rfl
      rw [hEntered, mem_enterClass hFirst, ih hRest, nearest_cons]
      constructor
      · rintro ⟨hFinal, hDeclared | ⟨⟨hNearest, -⟩, hNone⟩⟩
        · exact ⟨.inl hDeclared, hFinal⟩
        · exact ⟨.inr ⟨hNearest, hNone⟩, hFinal⟩
      · rintro ⟨hDeclared | ⟨hNearest, hNone⟩, hFinal⟩
        · exact ⟨hFinal, .inl hDeclared⟩
        · exact ⟨hFinal, .inr ⟨⟨hNearest, hFinal⟩, hNone⟩⟩

section Chains

open ClassGraph

variable {g : ClassGraph} {c : ClassDef} {chain : List ClassDef}

theorem Chain.find? (h : Chain g c chain) : g.find? c.name = some c := by
  cases h with
  | top hFind _ => exact hFind
  | under hFind _ _ => exact hFind

/-- Above the class itself come its ancestors. -/
theorem Chain.exists_lineage (h : Chain g c chain) : ∃ above, chain = c :: above ∧
    Lineage g c.name (above.map (·.name)) ∧ ∀ d ∈ above, g.find? d.name = some d := by
  induction h with
  | top hFind hNone =>
      refine ⟨[], rfl, .top ?_, fun _ hd => absurd hd List.not_mem_nil⟩
      rw [superclassOf_of_find? hFind, hNone]
  | @under c d chain hFind hSuper hAbove ih =>
      obtain ⟨above, rfl, hLineage, hFound⟩ := ih
      refine ⟨d :: above, rfl, .under ?_ hLineage, ?_⟩
      · rw [superclassOf_of_find? hFind, hSuper]
      · exact List.forall_mem_cons.mpr ⟨hAbove.find?, hFound⟩

private theorem Chain.lineage_eq (h : Chain g c chain) : lineage g c = chain.reverse := by
  obtain ⟨above, rfl, hLineage, hFound⟩ := h.exists_lineage
  have hLength : (above.map (·.name)).length ≤ g.classes.length := by
    refine length_le_of_found hLineage.nodup fun n hn => ?_
    obtain ⟨d, hd, rfl⟩ := List.mem_map.mp hn
    exact Option.isSome_of_eq_some (hFound d hd)
  have hAncestors : g.ancestors c.name = above.map (·.name) := hLineage.ancestorsWithin hLength
  have hClasses : (above.map (·.name)).filterMap g.find? = above := by
    rw [List.filterMap_map]
    exact (List.filterMap_congr hFound).trans List.filterMap_some
  rw [lineage, hAncestors, hClasses]

/-- What can be overridden, entered class by class along the chain. -/
theorem Chain.overridable_eq (h : Chain g c chain) : overridable g c = entered chain := by
  rw [overridable, h.lineage_eq, List.foldl_reverse]
  rfl

end Chains

/-! ## The body of an override -/

/-- The registers of a method that is not static: the receiver, and then the parameters in order,
each behind all slots of those before it. -/
structure OwnArguments (types : List ValueType) (args : RegisterList) : Prop where
  receiver : args[0]? = some (.p 0)
  parameters : ∀ k : Nat, args[k + 1]? = types[k]?.map fun type =>
    ⟨.params, 1 + ValueType.totalWidth (types.take k), type.isWide⟩

private theorem getElem?_layout (bank : Bank) (types : List ValueType) :
    ∀ next k : Nat, ((Boxing.layout bank next types).map Prod.fst)[k]? = types[k]?.map fun type =>
      ⟨bank, next + ValueType.totalWidth (types.take k), type.isWide⟩ := by
  induction types with
  | nil => intro next k; rfl
  | cons type rest ih =>
      intro next k
      cases k with
      | zero => rfl
      | succ k =>
          rw [Boxing.layout, List.map_cons, List.getElem?_cons_succ, List.getElem?_cons_succ, ih,
            List.take_succ_cons, ValueType.totalWidth, Nat.add_assoc]

private theorem ownArguments_allOwn (s : Signature) : OwnArguments s.parameters (allOwn s) where
  receiver := rfl
  parameters := by
    intro k
    rw [allOwn, ownRegisters, List.getElem?_cons_succ]
    exact getElem?_layout .params s.parameters 1 k

/-- Take up what a call gives and return it, if it gives anything. -/
def handBack : Option ValueType → List Instruction
  | none => [.returnVoid]
  | some (.base .long) | some (.base .double) =>
      [.moveResult .wide ⟨.locals, 0, true⟩, .returnValue .wide ⟨.locals, 0, true⟩]
  | some (.base _) => [.moveResult .single (.v 0), .returnValue .single (.v 0)]
  | some _ => [.moveResult .object (.v 0), .returnValue .object (.v 0)]

/-- The method calls the platform's method of its name with all it was called with itself, and
returns what that gives. -/
structure CallsSuper (bottom : ClassName) (m s : Method) : Prop where
  owner : s.owner = genesisName bottom
  name : s.name = m.name
  signature : s.signature = m.signature
  access : s.access = { m.access with isAbstract := false, isNative := false }
  body : ∃ b args, s.body = some b ∧ b.check = .ok () ∧
    OwnArguments m.signature.parameters args ∧
    b.instructions =
      .invoke .super (if m.signature.slots true ≤ 5 then .fixed else .range) args
          ⟨bottom, m.name, m.signature⟩ ::
        handBack m.signature.result

private theorem overrideCode_eq (bottom : ClassName) (m : Method) :
    overrideCode bottom m =
      .invoke .super (if m.signature.slots true ≤ 5 then .fixed else .range)
          (allOwn m.signature) ⟨bottom, m.name, m.signature⟩ ::
        handBack m.signature.result := by
  have hCall : callRun .super (allOwn m.signature) ⟨bottom, m.name, m.signature⟩ =
      .invoke .super (if m.signature.slots true ≤ 5 then .fixed else .range)
        (allOwn m.signature) ⟨bottom, m.name, m.signature⟩ := by
    show (if m.signature.slots true > 5 then _ else _) = _
    by_cases hFew : m.signature.slots true ≤ 5
    · rw [if_neg (Nat.not_lt.mpr hFew), if_pos hFew]
    · rw [if_pos (Nat.lt_of_not_le hFew), if_neg hFew]
  rw [overrideCode, stubCode]
  refine congrArg₂ List.cons hCall ?_
  cases m.signature.result with
  | none => rfl
  | some type =>
      cases type with
      | base p => cases p <;> rfl
      | object cls => rfl
      | array element => rfl

private theorem callsSuper_of_stub {bottom : ClassName} {m s : Method} (h : stub bottom m = .ok s) :
    CallsSuper bottom m s := by
  obtain ⟨b, rfl, hCheck, hCode⟩ := overrideCode_of_stub h
  exact ⟨rfl, rfl, rfl, rfl, b, allOwn m.signature, rfl, hCheck, ownArguments_allOwn m.signature,
    hCode.trans (overrideCode_eq bottom m)⟩

/-! ## The methods of a genesis class -/

/-- The role of a constructor is no matter of methods with other names. -/
theorem namedMethods_giveRole_of_ne {name : MemberName} (hName : name ≠ .init) (c : ClassDef)
    (signature : Signature) (role : ConstructorRole) (signature' : Signature) :
    (c.modifyMethod .init signature fun m => { m with role }).namedMethods name signature' =
      c.namedMethods name signature' := by
  have hSame : (fun m : Method => m.isNamed name signature') ∘ (fun m : Method =>
      if m.isNamed .init signature then { m with role } else m) =
      fun m => m.isNamed name signature' := by
    funext m
    rw [Function.comp_apply]
    split <;> rfl
  rw [ClassDef.namedMethods, ClassDef.modifyMethod, List.filter_map, hSame]
  refine (List.map_congr_left fun m hm => ?_).trans (List.map_id _)
  obtain ⟨rfl, -⟩ := Method.isNamed_iff.mp (List.mem_filter.mp hm).2
  exact if_neg fun hNamed => hName (Method.isNamed_iff.mp hNamed).1

section GenesisClass

variable {g : ClassGraph} {component : ComponentType} {bottom c : ClassDef}

/-- A genesis class declares its overrides first, and then nothing but constructors. -/
theorem genesisClass_declares (h : genesisClass g component bottom = .ok c) :
    ∃ stubs inits c₁, List.Forall₂ (fun m s => stub bottom.name m = .ok s) (overridable g bottom)
        stubs ∧
      (∀ n ∈ inits, n.name = .init) ∧
      declareAll (bareClass component bottom.name) (stubs ++ inits) = .ok c₁ ∧
      c = c₁.modifyMethod .init Interceptor.buddySignature fun m =>
        { m with role := .wormhole } := by
  obtain ⟨methods, hMethods, h⟩ := bind_eq_ok.mp h
  obtain ⟨c₁, hDeclare, h⟩ := bind_eq_ok.mp h
  cases h
  rw [mapError_eq_ok] at hDeclare
  obtain ⟨stubs, hStubs, hMethods⟩ := bind_eq_ok.mp hMethods
  obtain ⟨constructors, hConstructors, hMethods⟩ := bind_eq_ok.mp hMethods
  obtain ⟨buddy, hBuddy, hMethods⟩ := bind_eq_ok.mp hMethods
  cases hMethods
  rw [mapError_eq_ok, mapM_eq_ok_iff] at hStubs hConstructors
  have hRedeclares : Redeclares bottom constructors := hConstructors
  refine ⟨stubs, constructors ++ [buddy], c₁, hStubs, fun n hn => ?_, ?_, rfl⟩
  · obtain ⟨_, hOwn⟩ := hRedeclares.own hBuddy hn
    exact hOwn.name
  · rw [← List.append_assoc]
    exact hDeclare

/-- What can be overridden is overridden once.  Only the stub for the method itself goes by its
name. -/
theorem namedMethods_genesisClass (h : genesisClass g component bottom = .ok c)
    (hApart : Method.Apart (overridable g bottom)) {m : Method} (hm : m ∈ overridable g bottom) :
    ∃ s, c.namedMethods m.name m.signature = [s] ∧ CallsSuper bottom.name m s := by
  obtain ⟨stubs, inits, c₁, hStubs, -, hDeclare, rfl⟩ := genesisClass_declares h
  have hName : m.name ≠ .init := by
    have hInit := name_of_mem_overridable hm
    intro hSame
    rw [hSame] at hInit
    cases hInit
  obtain ⟨s, hs, hNew⟩ := exists_left_of_forall₂ hStubs.flip hm
  have hSome : (stubs.find? (·.isNamed m.name m.signature)).isSome = true := by
    rw [List.find?_isSome]
    have hCalls := callsSuper_of_stub hNew
    exact ⟨s, hs, Method.isNamed_iff.mpr ⟨hCalls.name, hCalls.signature⟩⟩
  obtain ⟨s', hFind⟩ := Option.isSome_iff_exists.mp hSome
  have hCalls : CallsSuper bottom.name m s' := by
    obtain ⟨m', hm', hNew'⟩ := exists_left_of_forall₂ hStubs (List.mem_of_find?_eq_some hFind)
    have hCalls' := callsSuper_of_stub hNew'
    have hNamed := List.find?_some hFind
    rw [Method.isNamed_iff, hCalls'.name, hCalls'.signature, ← Method.isNamed_iff] at hNamed
    obtain rfl := hApart.eq_of_isNamed hm hm' hNamed
    exact hCalls'
  refine ⟨{ s' with owner := genesisName bottom.name }, ?_,
    ⟨rfl, hCalls.name, hCalls.signature, hCalls.access, hCalls.body⟩⟩
  rw [namedMethods_giveRole_of_ne hName, namedMethods_declareAll m.name m.signature hDeclare rfl,
    List.find?_append, hFind]
  rfl

/-- A genesis class declares nothing but overrides and constructors. -/
theorem mem_genesisClass (h : genesisClass g component bottom = .ok c) {n : Method}
    (hn : n ∈ c.methods) : n.name = .init ∨ ∃ m ∈ overridable g bottom, n.sameKey m = true := by
  obtain ⟨stubs, inits, c₁, hStubs, hInits, hDeclare, rfl⟩ := genesisClass_declares h
  obtain ⟨n', hn', rfl⟩ := List.mem_map.mp hn
  have hDeclared : n'.name = .init ∨ ∃ m ∈ overridable g bottom, n'.sameKey m = true := by
    rcases mem_declareAll hDeclare n' hn' with hn' | ⟨declared, hMem, rfl⟩
    · cases hn'
    · rcases List.mem_append.mp hMem with hMem | hMem
      · obtain ⟨m, hm, hNew⟩ := exists_left_of_forall₂ hStubs hMem
        have hCalls := callsSuper_of_stub hNew
        exact .inr ⟨m, hm, Method.sameKey_iff.mpr ⟨hCalls.name, hCalls.signature⟩⟩
      · exact .inl (hInits declared hMem)
  split
  · exact hDeclared
  · exact hDeclared

/-- A genesis class can be built if its registers can be counted. -/
theorem Countable.exists_genesisClass (h : Countable g bottom) (component : ComponentType) :
    ∃ c, genesisClass g component bottom = .ok c := by
  obtain ⟨stubs, constructors, buddy, _, hMethods, _⟩ := exists_synthesize h
  obtain ⟨c₁, hDeclare⟩ : ∃ c₁, declareAll (bareClass component bottom.name)
      (stubs ++ constructors ++ [buddy]) = .ok c₁ := exists_declareAll rfl
  exact ⟨_, bind_eq_ok.mpr ⟨_, hMethods, bind_eq_ok.mpr ⟨c₁, mapError_eq_ok.mpr hDeclare, rfl⟩⟩⟩

/-- **A genesis class overrides exactly what can be overridden.**  That is, for each name and
signature, the nearest declaration from the platform class up, unless it is final.  The class is
built and added to the program if the registers of its code can be counted and its name is free. -/
theorem genesisClass_overrides {chain : List ClassDef} (hChain : Chain g bottom chain)
    (hApart : ∀ c ∈ chain, Method.Apart c.methods) :
    Method.Apart (overridable g bottom) ∧
      (∀ m, m ∈ overridable g bottom ↔ Nearest chain m ∧ m.access.isFinal = false) ∧
      (∀ component c, genesisClass g component bottom = .ok c →
        (∀ m ∈ overridable g bottom, ∃ s, c.namedMethods m.name m.signature = [s] ∧
          CallsSuper bottom.name m s) ∧
        ∀ n ∈ c.methods, n.name = .init ∨ ∃ m ∈ overridable g bottom, n.sameKey m = true) ∧
      ∀ boundaries component, Unopened ⟨g, boundaries⟩ bottom → Countable g bottom →
        ∃ c, genesisClass g component bottom = .ok c ∧
          Opens component bottom ⟨g, boundaries⟩ c := by
  have hOnce : Method.Apart (overridable g bottom) := by
    rw [hChain.overridable_eq]
    exact apart_entered chain
  refine ⟨hOnce, fun m => ?_, fun component c hClass => ⟨fun m hm => ?_, fun n hn => ?_⟩,
    fun boundaries component hSite hCountable => ?_⟩
  · rw [hChain.overridable_eq]
    exact mem_entered_iff hApart
  · exact namedMethods_genesisClass hClass hOnce hm
  · exact mem_genesisClass hClass hn
  · obtain ⟨c, hClass⟩ := hCountable.exists_genesisClass component
    exact ⟨c, hClass, hSite.opens hClass⟩

end GenesisClass

def panelMethod (owner : ClassName) (name : String) (signature : Signature)
    (access : MethodAccess) : Method where
  owner := owner
  name := ⟨name⟩
  signature := signature
  access := access

/-- Six slots with the receiver, and a wide answer. -/
def measure : Signature := ⟨[.base .long, .object .string, .base .double], some (.base .long)⟩

def rootPanel : ClassDef where
  name := .of "a/Root"
  kind := .library
  access := { pub := true }
  methods := [panelMethod (.of "a/Root") "measure" measure { prot := true },
    panelMethod (.of "a/Root") "close" (.void []) { pub := true },
    panelMethod (.of "a/Root") "peek" (.void [.base .int]) { pub := true, isAbstract := true },
    panelMethod (.of "a/Root") "wake" (.void []) { pub := true, isFinal := true }]

/-- The nearest declaration of its name. -/
def midMeasure : Method :=
  panelMethod (.of "a/Mid") "measure" measure { pub := true, isNative := true }

/-- Declares one method anew, makes one final, and has a private one that overrides nothing. -/
def midPanel : ClassDef where
  name := .of "a/Mid"
  kind := .library
  access := { pub := true }
  superclass := some (.of "a/Root")
  methods := [midMeasure,
    panelMethod (.of "a/Mid") "close" (.void []) { pub := true, isFinal := true },
    panelMethod (.of "a/Mid") "peek" (.void [.base .int]) { priv := true }]

/-- Declares a method that is final above. -/
def panel : ClassDef where
  name := .of "a/Panel"
  kind := .library
  access := { pub := true }
  superclass := some (.of "a/Mid")
  methods := [panelMethod (.of "a/Panel") "wake" (.void []) { pub := true },
    panelMethod (.of "a/Panel") "<init>" (.void []) { pub := true, isInitializer := true }]

def panelGraph : ClassGraph := ⟨[rootPanel, midPanel, panel]⟩

private theorem countable_panel : Countable panelGraph panel :=
  ⟨by decide +kernel, by decide +kernel⟩

/-- Of the methods with one name, the nearest is overridden, unless it is final. -/
theorem genesisClass_overrides_panel :
    (overridable panelGraph panel).map (fun m => (m.owner.text, m.name.text)) =
        [("a/Root", "peek"), ("a/Mid", "measure"), ("a/Panel", "wake")] ∧
      ∃ c s, Opens .activity panel ⟨panelGraph, []⟩ c ∧
        c.namedMethods ⟨"measure"⟩ measure = [s] ∧
        CallsSuper panel.name midMeasure s := by
  have hChain : Chain panelGraph panel [panel, midPanel, rootPanel] :=
    .under (d := midPanel) (by decide +kernel) rfl (.under (d := rootPanel) (by decide +kernel) rfl
      (.top (by decide +kernel) rfl))
  have hApart : ∀ c ∈ [panel, midPanel, rootPanel], Method.Apart c.methods := by
    simp only [Method.apart_iff_nodup]
    decide +kernel
  obtain ⟨-, -, hOverrides, hExists⟩ := genesisClass_overrides hChain hApart
  obtain ⟨c, hClass, hOpens⟩ := hExists [] .activity
    ⟨by decide +kernel, nofun, by decide +kernel⟩ countable_panel
  obtain ⟨s, hNamed, hCalls⟩ :=
    (hOverrides .activity c hClass).1 midMeasure (by decide +kernel)
  exact ⟨by decide +kernel, c, s, hOpens, hNamed, hCalls⟩

/-- A method that takes some numbers. -/
def wallMethod (count : Nat) : Method :=
  panelMethod (.of "a/Wall") "fill" (.void (.replicate count (.base .int))) { pub := true }

def wall (count : Nat) : ClassDef where
  name := .of "a/Wall"
  kind := .library
  access := { pub := true }
  methods := [wallMethod count]

/-- A class that has the name of a genesis class. -/
def impostor : ClassDef where
  name := genesisName (.of "a/Panel")
  kind := .program
  access := { pub := true }

/-- Not every class gets a genesis class with its overrides: one method may take more numbers than
there are indices for, and the name may be taken. -/
theorem genesisClass_overrides_fails :
    (Chain ⟨[wall 65535]⟩ (wall 65535) [wall 65535] ∧ Method.Apart (wall 65535).methods ∧
      overridable ⟨[wall 65535]⟩ (wall 65535) = [wallMethod 65535] ∧
      ∀ component, genesisClass ⟨[wall 65535]⟩ component (wall 65535) =
        .error (.body .indexOverflow)) ∧
    (Chain ⟨impostor :: panelGraph.classes⟩ panel [panel, midPanel, rootPanel] ∧
      (∀ c ∈ [panel, midPanel, rootPanel], Method.Apart c.methods) ∧
      ∀ component, (openBoundary component panel).on ⟨⟨impostor :: panelGraph.classes⟩, []⟩ =
        (.error (.graph (.duplicateClass (genesisName panel.name))),
          ⟨⟨impostor :: panelGraph.classes⟩, []⟩)) := by
  have hWall : ∀ count, Chain ⟨[wall count]⟩ (wall count) [wall count] := fun count =>
    .top rfl rfl
  have hAll : ∀ count, overridable ⟨[wall count]⟩ (wall count) = [wallMethod count] := by
    intro count
    rw [(hWall count).overridable_eq]
    rfl
  refine ⟨⟨hWall _, List.pairwise_singleton _ _, hAll _, fun component => ?_⟩, ?_, ?_,
    fun component => ?_⟩
  · have hSlots : ∀ count, (wallMethod count).signature.slots true = 1 + count := by
      intro count
      show 1 + ValueType.totalWidth (.replicate count (.base .int)) = _
      rw [ValueType.totalWidth_replicate]
      exact congrArg (1 + ·) (Nat.mul_one count)
    have hMany : Register.maxIndex < (wallMethod 65535).signature.slots true := by
      rw [hSlots]
      decide
    have hStub : stub (wall 65535).name (wallMethod 65535) = .error .indexOverflow := by
      rw [stub, Boxing.parameters_eq_error_iff.mpr ⟨hMany, rfl⟩]
      rfl
    rw [genesisClass, synthesize, hAll, List.mapM_cons, hStub]
    rfl
  · exact .under (d := midPanel) (by decide +kernel) rfl (.under (d := rootPanel)
      (by decide +kernel) rfl (.top (by decide +kernel) rfl))
  · simp only [Method.apart_iff_nodup]
    decide +kernel
  · have hCountable : Countable ⟨impostor :: panelGraph.classes⟩ panel :=
      ⟨by decide +kernel, by decide +kernel⟩
    obtain ⟨c, hClass⟩ := hCountable.exists_genesisClass component
    exact openBoundary_taken (by decide +kernel) nofun (by decide +kernel) hClass

end Genesis

end HotPatch
