import Mathlib.Data.List.Sort
import HotPatch.Proofs.Bytecode.FrameSize
import HotPatch.Proofs.Descriptor.Rendering
import HotPatch.Proofs.Genesis.Synthesis

/-!
# The constructors of a genesis class

A genesis class can be built as long as registers can be counted: then all
code that is made for it can be encoded.  Its constructors are the ones
redeclared and then the buddy constructor, each once.

The redeclared ones are numbered by their place in the byte order of
descriptors.  Since descriptors tell signatures apart, the order is strict,
and no other order in which the platform class may declare its constructors
leads to other numbers.
-/

namespace HotPatch

namespace Genesis

/-! ## The order of constructors -/

/-- What is promised of a platform class: no two of the constructors that are redeclared take the
same arguments, and there is no buddy constructor yet. -/
structure Regular (bottom : ClassDef) : Prop where
  once : (bottom.methods.filter isInheritable).Pairwise fun m n => m.sameKey n = false
  buddy : bottom.findMethod? .init Interceptor.buddySignature = none

/-- The descriptor of a method. -/
def descriptor (m : Method) : String := m.signature.render

/-- The descriptor of one method comes before that of the other. -/
def Before (m n : Method) : Prop :=
  Text.byteLe (descriptor m) (descriptor n) = true ∧ descriptor m ≠ descriptor n

section Order

variable {bottom : ClassDef}

/-- Ordering the constructors leaves none of them out. -/
theorem inheritable_perm (bottom : ClassDef) :
    (inheritable bottom).Perm (bottom.methods.filter isInheritable) :=
  List.mergeSort_perm _ _

private theorem mem_inheritable {m : Method} :
    m ∈ inheritable bottom ↔ m ∈ bottom.methods ∧ isInheritable m = true := by
  rw [(inheritable_perm bottom).mem_iff, List.mem_filter]

private theorem sorted_inheritable (bottom : ClassDef) : (inheritable bottom).Pairwise fun m n =>
    Text.byteLe (descriptor m) (descriptor n) = true := by
  refine List.pairwise_mergeSort ?_ ?_ _
  · intro m n o hmn hno
    exact Text.byteLe_trans hmn hno
  · intro m n
    exact Text.byteLe_total _ _

private theorem name_of_isInheritable {m : Method} (h : isInheritable m = true) :
    m.name = .init := by
  simp only [isInheritable, Method.isConstructor, MemberName.isInit, Bool.and_eq_true,
    beq_iff_eq] at h
  exact h.1.1

/-- Constructors that subclasses can call have different descriptors. -/
theorem Regular.nodup_descriptors (h : Regular bottom) :
    ((inheritable bottom).map descriptor).Nodup := by
  rw [((inheritable_perm bottom).map descriptor).nodup_iff, List.Nodup, List.pairwise_map]
  refine h.once.imp_of_mem fun {m n} hm hn hKey hSame => ?_
  have hmInit := (List.mem_filter.mp hm).2
  have hnInit := (List.mem_filter.mp hn).2
  have hSignature : m.signature = n.signature := Signature.render_inj hSame
  have hName := (name_of_isInheritable hmInit).trans (name_of_isInheritable hnInit).symm
  rw [Method.sameKey, Method.isNamed_iff.mpr ⟨hName, hSignature⟩] at hKey
  cases hKey

/-- No two constructors have the same place in the order. -/
theorem Regular.ordered (h : Regular bottom) : (inheritable bottom).Pairwise Before :=
  (sorted_inheritable bottom).and (List.pairwise_map.mp h.nodup_descriptors)

/-- The order in which a class declares its methods plays no part. -/
theorem Regular.inheritable_eq (h : Regular bottom) (other : ClassDef)
    (hPerm : other.methods.Perm bottom.methods) : inheritable other = inheritable bottom := by
  have hSame : (inheritable other).Perm (inheritable bottom) :=
    (inheritable_perm other).trans ((hPerm.filter _).trans (inheritable_perm bottom).symm)
  refine hSame.eq_of_pairwise (fun m n hm hn hmn hnm => ?_) (sorted_inheritable other)
    (sorted_inheritable bottom)
  exact List.inj_on_of_nodup_map h.nodup_descriptors (hSame.mem_iff.mp hm) hn
    (Text.byteLe_antisymm hmn hnm)

end Order

/-! ## Code that passes registers on -/

section Calls

variable {locals : Nat}

private theorem plain_callRun {kind : InvokeKind} {args : RegisterList} {target : MethodRef}
    (hSlots : RegisterList.slotCount args = target.signature.slots kind.hasReceiver)
    (hRun : target.signature.slots kind.hasReceiver > maxFixedSlots →
      RegisterList.isContiguous args locals = true ∧
        ∀ p ∈ RegisterList.absoluteSlots args locals, p ≤ Register.maxIndex) :
    (callRun kind args target).Plain locals := by
  unfold callRun
  split
  · next hMany => exact ⟨rfl, rfl, Code.invokeError?_range_iff.mpr ⟨hSlots, hRun hMany⟩⟩
  · next hFew => exact ⟨rfl, rfl, Code.invokeError?_fixed hSlots (Nat.le_of_not_lt hFew)⟩

private theorem absoluteSlots_receiver_layout (bank : Bank) (next : Nat) (types : List ValueType) :
    RegisterList.absoluteSlots (⟨bank, next, false⟩ ::
        (Boxing.layout bank (next + 1) types).map Prod.fst) locals =
      List.range' (bank.start locals + next) (ValueType.totalWidth types + 1) := by
  rw [RegisterList.absoluteSlots_cons, Boxing.absoluteSlots_layout, Register.map_absolute_slots]
  rfl

/-- A receiver and the arguments right behind it are a run. -/
theorem isContiguous_receiver_layout (bank : Bank) (next : Nat) (types : List ValueType) :
    RegisterList.isContiguous (⟨bank, next, false⟩ ::
      (Boxing.layout bank (next + 1) types).map Prod.fst) locals = true := by
  rw [RegisterList.isContiguous, absoluteSlots_receiver_layout]
  exact RegisterList.isRun_range' _ _

private theorem run_receiver_layout (bank : Bank) (next : Nat) (types : List ValueType)
    (hFits : bank.start locals + next + 1 + ValueType.totalWidth types ≤ Register.maxIndex + 1) :
    RegisterList.isContiguous (⟨bank, next, false⟩ ::
        (Boxing.layout bank (next + 1) types).map Prod.fst) locals = true ∧
      ∀ p ∈ RegisterList.absoluteSlots (⟨bank, next, false⟩ ::
        (Boxing.layout bank (next + 1) types).map Prod.fst) locals, p ≤ Register.maxIndex := by
  refine ⟨isContiguous_receiver_layout bank next types, fun p hp => ?_⟩
  rw [absoluteSlots_receiver_layout] at hp
  have hLast := (List.mem_range'_1.mp hp).2
  omega

/-- A receiver and registers in a row fill the slots of the callee. -/
theorem slotCount_receiver_layout (r : Register) (hNarrow : r.wide = false) (bank : Bank)
    (next : Nat) (s : Signature) :
    RegisterList.slotCount (r :: (Boxing.layout bank next s.parameters).map Prod.fst) =
      s.slots true := by
  rw [RegisterList.slotCount, Boxing.slotCount_layout, Register.width, hNarrow]
  rfl

/-- The receiver and the declared parameters of a method. -/
def allOwn (s : Signature) : RegisterList := ownRegisters (Boxing.declared s true)

private theorem plain_callOwn {kind : InvokeKind} (hKind : kind.hasReceiver = true)
    {target : MethodRef} (hFits : locals + target.signature.slots true ≤ Register.maxIndex + 1) :
    (callRun kind (allOwn target.signature) target).Plain locals := by
  refine plain_callRun ?_ fun _ => run_receiver_layout .params 0 _ ?_
  · rw [hKind]
    exact slotCount_receiver_layout _ rfl _ _ _
  · have hSlots : target.signature.slots true =
        1 + ValueType.totalWidth target.signature.parameters := rfl
    show locals + 0 + 1 + _ ≤ _
    omega

private theorem localExtent_allOwn (s : Signature) : ∀ r ∈ allOwn s, r.localExtent = 0 := by
  refine List.forall_mem_cons.mpr ⟨rfl, fun r hr => ?_⟩
  obtain ⟨x, hx, rfl⟩ := List.mem_map.mp hr
  exact Register.localExtent_of_params (Boxing.bank_of_mem_layout hx).1

private theorem registers_callRun (kind : InvokeKind) (args : RegisterList) (target : MethodRef) :
    (callRun kind args target).registers = args := by
  unfold callRun
  split <;> rfl

end Calls

/-! ## Overrides -/

/-- Locals that an override needs, for what it returns. -/
def resultWidth (s : Signature) : Nat := (s.result.map ValueType.width).getD 0

/-- The registers of an override can be counted: its parameters, and all behind its result. -/
structure StubFits (s : Signature) : Prop where
  slots : s.slots true ≤ Register.maxIndex
  frame : resultWidth s + s.slots true ≤ Register.maxIndex + 1

instance (s : Signature) : Decidable (StubFits s) :=
  decidable_of_iff (s.slots true ≤ Register.maxIndex ∧
    resultWidth s + s.slots true ≤ Register.maxIndex + 1) ⟨fun h => ⟨h.1, h.2⟩, fun h => ⟨h.1, h.2⟩⟩

/-- The code of an override, whatever the number of its parameters. -/
def overrideCode (bottom : ClassName) (m : Method) : List Instruction :=
  stubCode bottom m (Boxing.declared m.signature true)

private theorem usedLocals_overrideCode (bottom : ClassName) (m : Method) :
    Code.usedLocals (overrideCode bottom m) ≤ resultWidth m.signature := by
  have hCall : ∀ target, ∀ r ∈ (callRun .super (allOwn m.signature) target).registers,
      r.localExtent ≤ resultWidth m.signature := by
    intro target r hr
    rw [registers_callRun] at hr
    exact (localExtent_allOwn m.signature r hr).trans_le (Nat.zero_le _)
  rw [overrideCode, stubCode, Code.usedLocals_cons_le_iff]
  refine ⟨hCall _, ?_⟩
  cases hResult : m.signature.result with
  | none => exact Nat.zero_le _
  | some type =>
      have hValue : ((Register.v 0).withWide type.isWide).localExtent ≤
          resultWidth m.signature := by
        rw [resultWidth, hResult]
        show 0 + (if type.isWide then 2 else 1) ≤ type.width
        rw [Nat.zero_add]
        exact Nat.le_refl _
      simp only [Boxing.returnAs, List.cons_append, List.nil_append, Code.usedLocals_cons_le_iff]
      exact ⟨List.forall_mem_singleton.mpr hValue, List.forall_mem_singleton.mpr hValue,
        Nat.zero_le _⟩

private theorem exists_stub (bottom : ClassName) {m : Method} (h : StubFits m.signature) :
    ∃ s, stub bottom m = .ok s := by
  have hUsed := usedLocals_overrideCode bottom m
  have hFrame := h.frame
  have hSlots := h.slots
  have hPlain : ∀ i ∈ overrideCode bottom m,
      i.Plain (Code.usedLocals (overrideCode bottom m)) := by
    intro i hi
    simp only [overrideCode, stubCode, List.mem_cons, List.mem_append, List.not_mem_nil,
      or_false] at hi
    rcases hi with rfl | hi | rfl
    · refine plain_callOwn rfl ?_
      show _ + m.signature.slots true ≤ _
      omega
    · split at hi
      · cases hi
      · obtain rfl := List.mem_singleton.mp hi
        exact ⟨rfl, rfl, rfl⟩
    · unfold Boxing.returnAs
      split <;> exact ⟨rfl, rfl, rfl⟩
  have hLocals : Code.usedLocals (overrideCode bottom m) ≤ Register.maxIndex := by
    have hReceiver : 1 ≤ m.signature.slots true := Nat.le_add_right 1 _
    omega
  obtain ⟨body, hBody, _, _⟩ := Draft.finish_plain hPlain m.parameterRegisters hLocals
  exact ⟨_, bind_eq_ok.mpr ⟨_, Boxing.parameters_eq_ok_iff.mpr ⟨h.slots, rfl⟩,
    bind_eq_ok.mpr ⟨body, hBody, rfl⟩⟩⟩

/-- What an override is made of. -/
theorem overrideCode_of_stub {bottom : ClassName} {m s : Method} (h : stub bottom m = .ok s) :
    ∃ body, s = { owner := genesisName bottom, name := m.name, signature := m.signature
                  access := { m.access with isAbstract := false, isNative := false }
                  body := some body } ∧
      body.check = .ok () ∧ body.instructions = overrideCode bottom m := by
  obtain ⟨arguments, hArguments, h⟩ := bind_eq_ok.mp h
  obtain ⟨body, hBody, hNew⟩ := bind_eq_ok.mp h
  obtain ⟨_, rfl⟩ := Boxing.parameters_eq_ok_iff.mp hArguments
  obtain ⟨_, rfl, hCheck⟩ := Draft.finish_eq_ok_iff.mp hBody
  exact ⟨_, (Except.ok.inj hNew).symm, Body.check_eq_ok_iff.mpr hCheck, rfl⟩

/-! ## Redeclared constructors -/

/-- A constructor of the platform class, redeclared under a number. -/
structure Redeclared (bottom : ClassName) (source : Method) (id : Nat) (n : Method) : Prop where
  owner : n.owner = genesisName bottom
  name : n.name = .init
  signature : n.signature = source.signature
  isConstructor : n.isConstructor = true
  genesisId : n.genesisId = some id
  tags : n.tags = [⟨Interceptor.genesisInitTag,
    [(Interceptor.methodIdElement, .int (Int32.ofNat id))]⟩]

/-- The code of a redeclared constructor. -/
def passOn (source : Method) : List Instruction :=
  [callRun .direct (allOwn source.signature) source.ref, .returnVoid]

/-- A constructor is redeclared if its parameters can be counted. -/
theorem exists_redeclare (bottom : ClassName) {source : Method} (id : Nat)
    (h : source.signature.slots true ≤ Register.maxIndex) :
    ∃ n, redeclare bottom source id = .ok n := by
  have hNone : Code.usedLocals (passOn source) = 0 := by
    rw [← Nat.le_zero, passOn, Code.usedLocals_cons_le_iff, registers_callRun]
    exact ⟨fun r hr => (localExtent_allOwn _ r hr).le, Nat.le_refl 0⟩
  have hPlain : ∀ i ∈ passOn source, i.Plain (Code.usedLocals (passOn source)) := by
    rw [hNone]
    intro i hi
    simp only [passOn, List.mem_cons, List.not_mem_nil, or_false] at hi
    rcases hi with rfl | rfl
    · refine plain_callOwn rfl ?_
      show 0 + source.signature.slots true ≤ _
      omega
    · exact ⟨rfl, rfl, rfl⟩
  obtain ⟨body, hBody, _, _⟩ := Draft.finish_plain hPlain source.parameterRegisters
    (hNone ▸ Nat.zero_le _)
  exact ⟨_, bind_eq_ok.mpr ⟨_, Boxing.parameters_eq_ok_iff.mpr ⟨h, rfl⟩,
    bind_eq_ok.mpr ⟨body, hBody, rfl⟩⟩⟩

/-- A redeclared constructor passes everything on, and can be encoded. -/
theorem redeclared_of_eq_ok {bottom : ClassName} {source n : Method} {id : Nat}
    (h : redeclare bottom source id = .ok n) : Redeclared bottom source id n ∧
      ∃ body, n.body = some body ∧ body.check = .ok () ∧ body.instructions = passOn source := by
  obtain ⟨arguments, hArguments, h⟩ := bind_eq_ok.mp h
  obtain ⟨body, hBody, hNew⟩ := bind_eq_ok.mp h
  obtain ⟨_, rfl⟩ := Boxing.parameters_eq_ok_iff.mp hArguments
  obtain ⟨_, rfl, hCheck⟩ := Draft.finish_eq_ok_iff.mp hBody
  obtain rfl := Except.ok.inj hNew
  exact ⟨⟨rfl, rfl, rfl, rfl, rfl, rfl⟩, _, rfl, Body.check_eq_ok_iff.mpr hCheck, rfl⟩

section Redeclares

variable {bottom : ClassDef} {constructors : List Method}

/-- As many constructors are redeclared as can be called from below. -/
theorem Redeclares.length_eq (h : Redeclares bottom constructors) :
    constructors.length = (inheritable bottom).length := by
  rw [← List.Forall₂.length_eq h, List.length_zipIdx]

/-- The constructor with a number, and what it was made from. -/
theorem Redeclares.get (h : Redeclares bottom constructors) {k : Nat} {n : Method}
    (hAt : constructors[k]? = some n) :
    ∃ source, (inheritable bottom)[k]? = some source ∧ redeclare bottom.name source k = .ok n := by
  obtain ⟨hk, rfl⟩ := List.getElem?_eq_some_iff.mp hAt
  have hk' : k < (inheritable bottom).length := h.length_eq ▸ hk
  have hNew := List.Forall₂.get h (i := k) (by simpa using hk') hk
  simp only [List.get_eq_getElem, List.getElem_zipIdx, Nat.zero_add] at hNew
  exact ⟨_, List.getElem?_eq_getElem hk', hNew⟩

private theorem Redeclares.map_signature (h : Redeclares bottom constructors) :
    constructors.map Method.signature = (inheritable bottom).map Method.signature := by
  refine List.ext_getElem? fun k => ?_
  rw [List.getElem?_map, List.getElem?_map]
  cases hAt : constructors[k]? with
  | none =>
      rw [List.getElem?_eq_none_iff, h.length_eq] at hAt
      rw [List.getElem?_eq_none hAt]
  | some n =>
      obtain ⟨source, hSource, hNew⟩ := h.get hAt
      rw [hSource, Option.map_some, Option.map_some, (redeclared_of_eq_ok hNew).1.signature]

/-- Each redeclared constructor has its source. -/
theorem Redeclares.mem (h : Redeclares bottom constructors) {n : Method} (hn : n ∈ constructors) :
    ∃ source k, source ∈ inheritable bottom ∧ Redeclared bottom.name source k n := by
  obtain ⟨k, hAt⟩ := List.mem_iff_getElem?.mp hn
  obtain ⟨source, hSource, hNew⟩ := h.get hAt
  exact ⟨source, k, List.mem_of_getElem? hSource, (redeclared_of_eq_ok hNew).1⟩

/-- The numbers that are read off the constructors are their positions. -/
theorem Redeclares.mapM_numberOf (h : Redeclares bottom constructors) :
    constructors.mapM numberOf = .ok (List.range constructors.length) := by
  rw [mapM_eq_ok_iff, List.forall₂_iff_get]
  refine ⟨by simp, fun k hk hk' => ?_⟩
  obtain ⟨source, _, hNew⟩ := h.get (List.getElem?_eq_getElem hk)
  simp [numberOf, (redeclared_of_eq_ok hNew).1.genesisId]

end Redeclares

/-! ## The buddy constructor -/

/-- The first register into which an argument of a constructor is unpacked. -/
def caseStart (m : Method) : Nat := if caseRanged m then 5 else 4

/-- The registers into which the arguments of a constructor are unpacked, however many there are. -/
def caseLayout (m : Method) : List (Register × ValueType) :=
  Boxing.layout .locals (caseStart m) m.signature.parameters

/-- One case of the buddy constructor, between its label and the jump to the end. -/
def caseLine (m : Method) : List Instruction :=
  (if caseRanged m then [.move .object (.v 4) (.p 0)] else []) ++
    (Boxing.loadAll (.v 2) (.v 3) (caseLayout m) ++
      [callRun .direct ((if caseRanged m then .v 4 else .p 0) :: (caseLayout m).map Prod.fst)
        m.ref])

private theorem dispatchCase_eq (m : Method) (start done : Label) :
    dispatchCase (m, caseLayout m) start done =
      .label start :: (caseLine m ++ [.goto done]) := by
  simp [dispatchCase, caseLine]

/-- The arguments of a constructor have registers to be unpacked into. -/
structure Fits (m : Method) : Prop where
  isConstructor : m.isConstructor = true
  room : 5 + ValueType.totalWidth m.signature.parameters ≤ Register.maxIndex

/-- A case loads its arguments behind the registers of the dispatcher. -/
theorem caseStart_le (m : Method) : 4 ≤ caseStart m ∧ caseStart m ≤ 5 := by
  unfold caseStart
  split <;> decide

private theorem caseTarget_eq {m : Method} (h : Fits m) : caseTarget m = .ok (m, caseLayout m) := by
  have hStart := caseStart_le m
  have hRoom := h.room
  have hMax : Register.maxIndex = 0xFFFF := rfl
  exact bind_eq_ok.mpr ⟨_, (Boxing.assign_eq_ok_iff (show caseStart m ≤ Register.maxIndex by
    omega)).mpr ⟨by omega, rfl⟩, rfl⟩

theorem Fits.slots_le {m : Method} (h : Fits m) : m.signature.slots true ≤ Register.maxIndex := by
  have hRoom := h.room
  show 1 + ValueType.totalWidth m.signature.parameters ≤ _
  omega

/-- Its registers are counted as they are. -/
theorem Fits.parameterRegisters {m : Method} (h : Fits m) :
    m.parameterRegisters = m.signature.slots true := by
  have hConstructor := h.isConstructor
  simp only [Method.isConstructor, Bool.and_eq_true, Bool.not_eq_true'] at hConstructor
  rw [Method.parameterRegisters, hConstructor.2]
  exact Nat.mod_eq_of_lt (Nat.lt_succ_of_le h.slots_le)

private theorem plain_caseLine {m : Method} (h : Fits m) (locals : Nat) :
    ∀ i ∈ caseLine m, i.Plain locals := by
  intro i hi
  simp only [caseLine, List.mem_append, List.mem_singleton] at hi
  rcases hi with hi | hi | rfl
  · split at hi
    · obtain rfl := List.mem_singleton.mp hi
      exact ⟨rfl, rfl, rfl⟩
    · cases hi
  · exact Boxing.plain_loadAll i hi
  · refine plain_callRun ?_ fun hMany => ?_
    · refine slotCount_receiver_layout _ ?_ _ _ m.signature
      split <;> rfl
    · have hRanged : caseRanged m = true := by
        rw [caseRanged, h.parameterRegisters]
        exact decide_eq_true hMany
      rw [caseLayout, caseStart, if_pos hRanged, if_pos hRanged]
      refine run_receiver_layout .locals 4 _ ?_
      have hRoom := h.room
      show 0 + 4 + 1 + _ ≤ _
      omega

private theorem usedLocals_caseLine {m : Method} (h : Fits m) :
    Code.usedLocals (caseLine m) ≤ Register.maxIndex := by
  have hV : ∀ k, k < 5 → (Register.v k).localExtent ≤ Register.maxIndex := fun k hk =>
    Nat.le_trans hk (by decide)
  have hArguments : ∀ x ∈ caseLayout m, x.1.wide = x.2.isWide ∧
      x.1.localExtent ≤ Register.maxIndex := by
    intro x hx
    refine ⟨(Boxing.bank_of_mem_layout hx).2, ?_⟩
    have hExtent := Boxing.localExtent_of_mem_layout hx
    have hStart := caseStart_le m
    have hRoom := h.room
    omega
  rw [caseLine, Code.usedLocals_append_le_iff, Code.usedLocals_append_le_iff,
    Code.usedLocals_cons_le_iff, registers_callRun]
  refine ⟨?_, Boxing.usedLocals_loadAll (hV 2 (by decide)) (hV 3 (by decide)) hArguments,
    List.forall_mem_cons.mpr ⟨?_, fun r hr => ?_⟩, Nat.zero_le _⟩
  · split <;> decide
  · split <;> decide
  · obtain ⟨x, hx, rfl⟩ := List.mem_map.mp hr
    exact (hArguments x hx).2

/-- All cases of the buddy constructor, the first with label `start`. -/
def caseLines (constructors : List Method) (start : Nat) (done : Label) : List Instruction :=
  (constructors.zipIdx start).flatMap fun (m, k) => dispatchCase (m, caseLayout m) ⟨k⟩ done

/-- The cases follow on each other, each with its label and a jump to the end. -/
theorem caseLines_cons (m : Method) (rest : List Method) (start : Nat) (done : Label) :
    caseLines (m :: rest) start done =
      .label ⟨start⟩ :: (caseLine m ++ .goto done :: caseLines rest (start + 1) done) := by
  simp [caseLines, List.zipIdx_cons, dispatchCase_eq]

private theorem placed_caseLines {constructors : List Method} (h : ∀ m ∈ constructors, Fits m)
    (done : Label) : ∀ start, Code.placed (caseLines constructors start done) =
      (List.range' start constructors.length).map Label.mk := by
  induction constructors with
  | nil => intro start; rfl
  | cons m rest ih =>
      intro start
      obtain ⟨hFirst, hRest⟩ := List.forall_mem_cons.mp h
      have hLine : Code.placed (caseLine m) = [] :=
        Code.placed_of_plain (plain_caseLine hFirst 0)
      rw [caseLines_cons, List.length_cons, List.range'_succ, List.map_cons, ← ih hRest (start + 1)]
      show ⟨start⟩ :: Code.placed (caseLine m ++ _) = _
      rw [Code.placed_append, hLine]
      rfl

private theorem mem_caseLines {constructors : List Method} {done : Label} {i : Instruction} :
    ∀ {start : Nat}, i ∈ caseLines constructors start done →
      (∃ l, i = .label l) ∨ i = .goto done ∨ ∃ m ∈ constructors, i ∈ caseLine m := by
  induction constructors with
  | nil =>
      intro start hi
      cases hi
  | cons m rest ih =>
      intro start hi
      rw [caseLines_cons, List.mem_cons, List.mem_append, List.mem_cons] at hi
      rcases hi with rfl | hi | rfl | hi
      · exact .inl ⟨_, rfl⟩
      · exact .inr (.inr ⟨m, List.mem_cons_self, hi⟩)
      · exact .inr (.inl rfl)
      · rcases ih hi with hi | hi | ⟨m', hm', hi⟩
        · exact .inl hi
        · exact .inr (.inl hi)
        · exact .inr (.inr ⟨m', List.mem_cons_of_mem m hm', hi⟩)

/-- The table of the switch: each number to the label of its case. -/
def table (count : Nat) : List (Int32 × Label) :=
  (List.range count).map fun k => (Int32.ofNat k, ⟨k⟩)

/-- What the buddy constructor does first: read the number, and get at the arguments. -/
def approach : List Instruction :=
  [.instanceGet .plain (.v 0) (.p 1) Interceptor.buddyInitMethodId,
    .invoke .virtual .fixed [.p 1] Interceptor.buddyCurrent,
    .moveResult .object (.v 1),
    .instanceGet .object (.v 2) (.v 1) Interceptor.buddyParameters]

/-- The code of the buddy constructor for constructors that are numbered in order. -/
def pickCode (constructors : List Method) : List Instruction :=
  approach ++ .sparseSwitch (.v 0) (table constructors.length) ::
    (refuseNumber ++ (caseLines constructors 0 ⟨constructors.length⟩ ++
      [.label ⟨constructors.length⟩, .returnVoid]))

private theorem dispatcherCode_eq (constructors : List Method) :
    dispatcherCode (List.range constructors.length)
      (constructors.map fun m => (m, caseLayout m)) = pickCode constructors := by
  have hTable : ∀ entry : Nat × Nat → Int32 × Label,
      (∀ id k, entry (id, k) = (Int32.ofNat id, ⟨k⟩)) →
      (List.range constructors.length).zipIdx.map entry = table constructors.length := by
    intro entry hEntry
    refine List.ext_getElem? fun k => ?_
    simp only [table, List.getElem?_map, List.getElem?_zipIdx, Nat.zero_add]
    by_cases hk : k < constructors.length
    · simp [List.getElem?_range hk, hEntry]
    · simp [List.getElem?_eq_none (l := List.range constructors.length) (by simpa using hk)]
  rw [dispatcherCode, hTable _ fun _ _ => rfl]
  simp [pickCode, approach, caseLines, List.zipIdx_map, List.flatMap_map]

private theorem plain_approach (locals : Nat) : ∀ i ∈ approach, i.Plain locals := by
  intro i hi
  simp only [approach, List.mem_cons, List.not_mem_nil, or_false] at hi
  rcases hi with rfl | rfl | rfl | rfl
  · exact ⟨rfl, rfl, rfl⟩
  · exact ⟨rfl, rfl, Code.invokeError?_fixed rfl (by decide)⟩
  · exact ⟨rfl, rfl, rfl⟩
  · exact ⟨rfl, rfl, rfl⟩

private theorem plain_refuseNumber (locals : Nat) : ∀ i ∈ refuseNumber, i.Plain locals := by
  intro i hi
  simp only [refuseNumber, List.mem_cons, List.not_mem_nil, or_false] at hi
  rcases hi with rfl | rfl | rfl | rfl
  · exact ⟨rfl, rfl, rfl⟩
  · exact ⟨rfl, rfl, rfl⟩
  · exact ⟨rfl, rfl, Code.invokeError?_fixed rfl (by decide)⟩
  · exact ⟨rfl, rfl, rfl⟩

/-- The labels of the buddy constructor: one for each case, and one for the end. -/
theorem placed_pickCode {constructors : List Method} (h : ∀ m ∈ constructors, Fits m) :
    Code.placed (pickCode constructors) =
      (List.range (constructors.length + 1)).map Label.mk := by
  have hSwitch : Code.placed (.sparseSwitch (.v 0) (table constructors.length) ::
      (refuseNumber ++ (caseLines constructors 0 ⟨constructors.length⟩ ++
        [.label ⟨constructors.length⟩, .returnVoid]))) =
      Code.placed (refuseNumber ++ (caseLines constructors 0 ⟨constructors.length⟩ ++
        [.label ⟨constructors.length⟩, .returnVoid])) := rfl
  have hEnd : Code.placed [.label ⟨constructors.length⟩, .returnVoid] =
      [⟨constructors.length⟩] := rfl
  rw [pickCode, Code.placed_append, Code.placed_of_plain (plain_approach 0),
    hSwitch, Code.placed_append, Code.placed_of_plain (plain_refuseNumber 0),
    Code.placed_append, placed_caseLines h, hEnd, List.range_succ, List.map_append,
    List.range_eq_range']
  rfl

/-- The labels of the dispatcher are placed once. -/
theorem nodup_pickCode {constructors : List Method} (h : ∀ m ∈ constructors, Fits m) :
    (Code.placed (pickCode constructors)).Nodup := by
  rw [placed_pickCode h]
  exact List.nodup_range.map fun _ _ hSame => Label.mk.inj hSame

private theorem usedLocals_pickCode {constructors : List Method} (h : ∀ m ∈ constructors, Fits m) :
    Code.usedLocals (pickCode constructors) ≤ Register.maxIndex := by
  have hCases : Code.usedLocals (caseLines constructors 0 ⟨constructors.length⟩) ≤
      Register.maxIndex := by
    rw [Code.usedLocals_le_iff]
    intro i hi r hr
    rcases mem_caseLines hi with ⟨l, rfl⟩ | rfl | ⟨m, hm, hi⟩
    · cases hr
    · cases hr
    · exact Code.usedLocals_le_iff.mp (usedLocals_caseLine (h m hm)) i hi r hr
  rw [pickCode, Code.usedLocals_append_le_iff, Code.usedLocals_cons_le_iff,
    Code.usedLocals_append_le_iff, Code.usedLocals_append_le_iff]
  exact ⟨by decide, List.forall_mem_singleton.mpr (by decide), by decide, hCases, Nat.zero_le _⟩

/-- The buddy constructor can be encoded. -/
theorem exists_dispatcher {bottom : ClassDef} {constructors : List Method}
    (hRedeclares : Redeclares bottom constructors) (h : ∀ m ∈ constructors, Fits m) :
    ∃ n body, dispatcher bottom.name constructors = .ok n ∧ n.body = some body ∧
      body.check = .ok () ∧ body.instructions = pickCode constructors := by
  let d := (Draft.empty.skipLabels (constructors.length + 1)).append (pickCode constructors)
  have hCode : d.instructions = pickCode constructors := rfl
  have hLabel : ∀ k, k ≤ constructors.length →
      Label.mk k ∈ Code.placed (pickCode constructors) := by
    intro k hk
    rw [placed_pickCode h]
    exact List.mem_map.mpr ⟨k, List.mem_range.mpr (Nat.lt_succ_of_le hk), rfl⟩
  have hPlain : ∀ {i : Instruction}, i.Plain d.locals →
      (∀ l ∈ i.targets, l ∈ Code.placed d.instructions) ∧ Code.invokeError? d.locals i = none :=
    fun hPlain => ⟨by simp [hPlain.targets], hPlain.call⟩
  have hEach : ∀ i ∈ d.instructions, (∀ l ∈ i.targets, l ∈ Code.placed d.instructions) ∧
      Code.invokeError? d.locals i = none := by
    intro i hi
    rw [hCode, pickCode] at hi
    simp only [List.mem_append, List.mem_cons, List.not_mem_nil, or_false] at hi
    rcases hi with hi | rfl | hi | hi | rfl | rfl
    · exact hPlain (plain_approach _ i hi)
    · refine ⟨fun l hl => ?_, rfl⟩
      simp only [Instruction.targets, table, List.map_map, List.mem_map, List.mem_range] at hl
      obtain ⟨k, hk, rfl⟩ := hl
      exact hLabel k (Nat.le_of_lt hk)
    · exact hPlain (plain_refuseNumber _ i hi)
    · rcases mem_caseLines hi with ⟨l, rfl⟩ | rfl | ⟨m, hm, hi⟩
      · exact ⟨nofun, rfl⟩
      · refine ⟨fun l hl => ?_, rfl⟩
        obtain rfl := List.mem_singleton.mp hl
        exact hLabel _ (Nat.le_refl _)
      · exact hPlain (plain_caseLine (h m hm) _ i hi)
    · exact ⟨nofun, rfl⟩
    · exact ⟨nofun, rfl⟩
  obtain ⟨hFinish, hCheck⟩ := Draft.finish_eq 2 (hCode ▸ nodup_pickCode h) hEach
    (usedLocals_pickCode h)
  have hTargets : constructors.mapM caseTarget =
      .ok (constructors.map fun m => (m, caseLayout m)) :=
    mapM_eq_map fun m hm => caseTarget_eq (h m hm)
  refine ⟨_, _, bind_eq_ok.mpr ⟨_, hRedeclares.mapM_numberOf, bind_eq_ok.mpr ⟨_,
    mapError_eq_ok.mpr hTargets, bind_eq_ok.mpr ⟨_, mapError_eq_ok.mpr ?_, rfl⟩⟩⟩, rfl, hCheck, rfl⟩
  rw [dispatcherCode_eq]
  exact hFinish

/-! ## All constructors -/

/-- An open class takes any methods, and stays open. -/
theorem exists_declareAll {methods : List Method} :
    ∀ {c : ClassDef}, c.closed = false → ∃ c', declareAll c methods = .ok c' := by
  induction methods with
  | nil =>
      intro c _
      exact ⟨c, rfl⟩
  | cons m rest ih =>
      intro c hOpen
      obtain ⟨c₁, hAdd, hOpen₁⟩ : ∃ c₁, c.addMethod m = .ok c₁ ∧ c₁.closed = false := by
        unfold ClassDef.addMethod
        split
        · exact ⟨c, rfl, hOpen⟩
        · exact ⟨_, if_neg (by simp [hOpen]), hOpen⟩
      obtain ⟨c', hRest⟩ := ih hOpen₁
      refine ⟨c', ?_⟩
      rw [declareAll, List.foldlM_cons, hAdd]
      exact hRest

/-- The constructors among some methods. -/
def inits (methods : List Method) : List Method := methods.filter (·.name.isInit)

private theorem inits_append (front back : List Method) :
    inits (front ++ back) = inits front ++ inits back :=
  List.filter_append _ _

private theorem inits_cons (m : Method) (rest : List Method) :
    inits (m :: rest) = if m.name.isInit then m :: inits rest else inits rest :=
  List.filter_cons

/-- Constructors with signatures of their own are declared one after the other. -/
theorem inits_declareAll {methods : List Method} :
    ∀ {c c' : ClassDef}, declareAll c methods = .ok c' →
      ((inits (c.methods ++ methods)).map Method.signature).Nodup →
      inits c'.methods =
        inits c.methods ++ (inits methods).map fun m => { m with owner := c.name } := by
  induction methods with
  | nil =>
      intro c c' h _
      cases h
      simp [inits]
  | cons m rest ih =>
      intro c c' h hNodup
      obtain ⟨c₁, hAdd, hRest⟩ := declareAll_cons h
      have hMethods := ClassDef.methods_addMethod hAdd
      have hName := ClassGraph.name_addMethod hAdd
      rw [Method.addOnce] at hMethods
      by_cases hInit : m.name.isInit = true
      · have hNew : ¬ c.methods.any (·.isNamed m.name m.signature) = true := by
          intro hAny
          obtain ⟨old, hOld, hNamed⟩ := List.any_eq_true.mp hAny
          obtain ⟨hSameName, hSame⟩ := Method.isNamed_iff.mp hNamed
          have hOldInit : old ∈ inits c.methods := List.mem_filter.mpr ⟨hOld, by rwa [hSameName]⟩
          rw [inits_append, inits_cons, if_pos hInit, List.map_append, List.map_cons] at hNodup
          refine List.disjoint_of_nodup_append hNodup (List.mem_map_of_mem hOldInit) ?_
          rw [hSame]
          exact List.mem_cons_self
        rw [if_neg hNew] at hMethods
        have hSignatures : (inits (c₁.methods ++ rest)).map Method.signature =
            (inits (c.methods ++ m :: rest)).map Method.signature := by
          simp [hMethods, inits_append, inits_cons, hInit]
        rw [ih hRest (hSignatures ▸ hNodup), hMethods, hName]
        simp [inits, hInit]
      · have hSame : inits c₁.methods = inits c.methods := by
          rw [hMethods]
          split
          · rfl
          · simp [inits, hInit]
        have hDropped : inits (m :: rest) = inits rest := by rw [inits_cons, if_neg hInit]
        have hAll : inits (c₁.methods ++ rest) = inits (c.methods ++ m :: rest) := by
          rw [inits_append, inits_append, hSame, hDropped]
        rw [ih hRest (hAll ▸ hNodup), hSame, hName, hDropped]

/-- The registers of all code of a genesis class can be counted in 16 bits. -/
structure Countable (g : ClassGraph) (bottom : ClassDef) : Prop where
  overrides : ∀ m ∈ overridable g bottom, StubFits m.signature
  constructors : ∀ m ∈ bottom.methods, isInheritable m = true →
    5 + ValueType.totalWidth m.signature.parameters ≤ Register.maxIndex

/-- The registers of every redeclared constructor can be counted. -/
theorem Countable.fits {g : ClassGraph} {bottom : ClassDef} (h : Countable g bottom)
    {constructors : List Method} (hRedeclares : Redeclares bottom constructors) :
    ∀ m ∈ constructors, Fits m := by
  intro m hm
  obtain ⟨source, k, hSource, hIs⟩ := hRedeclares.mem hm
  obtain ⟨hMem, hInheritable⟩ := mem_inheritable.mp hSource
  exact ⟨hIs.isConstructor, hIs.signature ▸ h.constructors source hMem hInheritable⟩

/-- The signatures of all constructors of a genesis class. -/
theorem Regular.nodup_signatures {bottom : ClassDef} (h : Regular bottom) :
    ((inheritable bottom).map Method.signature ++ [Interceptor.buddySignature]).Nodup := by
  have hRendered : (((inheritable bottom).map Method.signature).map Signature.render).Nodup := by
    rw [List.map_map]
    exact h.nodup_descriptors
  refine List.nodup_append.mpr ⟨hRendered.of_map _, List.nodup_singleton _, ?_⟩
  rintro signature hSignature _ hBuddy rfl
  obtain rfl := List.mem_singleton.mp hBuddy
  obtain ⟨m, hm, hSame⟩ := List.mem_map.mp hSignature
  obtain ⟨hMem, hInheritable⟩ := mem_inheritable.mp hm
  exact List.find?_eq_none.mp h.buddy m hMem
    (Method.isNamed_iff.mpr ⟨name_of_isInheritable hInheritable, hSame⟩)

/-- The buddy constructor of a genesis class, finished. -/
structure PicksConstructor (bottom : ClassName) (constructors : List Method) (n : Method)
    (b : Body) : Prop where
  owner : n.owner = genesisName bottom
  name : n.name = .init
  signature : n.signature = Interceptor.buddySignature
  isConstructor : n.isConstructor = true
  role : n.role = .wormhole
  body : n.body = some b
  check : b.check = .ok ()
  code : b.instructions = pickCode constructors

/-- All methods of a genesis class can be written if its registers can be counted. -/
theorem exists_synthesize {g : ClassGraph} {bottom : ClassDef} (h : Countable g bottom) :
    ∃ stubs constructors buddy body, synthesize g bottom = .ok (stubs ++ constructors ++ [buddy]) ∧
      (∀ s ∈ stubs, s.name.isInit = false) ∧ Redeclares bottom constructors ∧
      dispatcher bottom.name constructors = .ok buddy ∧ buddy.body = some body ∧
      body.check = .ok () ∧ body.instructions = pickCode constructors := by
  obtain ⟨stubs, hStubs⟩ : ∃ stubs, (overridable g bottom).mapM (stub bottom.name) = .ok stubs := by
    exact exists_mapM fun m hm => exists_stub bottom.name (h.overrides m hm)
  obtain ⟨constructors, hConstructors⟩ : ∃ constructors, (inheritable bottom).zipIdx.mapM
      (fun (m, k) => redeclare bottom.name m k) = .ok constructors := by
    refine exists_mapM fun entry hEntry => exists_redeclare bottom.name entry.2 ?_
    obtain ⟨hMem, hInheritable⟩ := mem_inheritable.mp (List.fst_mem_of_mem_zipIdx hEntry)
    have hRoom := h.constructors entry.1 hMem hInheritable
    show 1 + ValueType.totalWidth entry.1.signature.parameters ≤ _
    omega
  have hRedeclares : Redeclares bottom constructors := mapM_eq_ok_iff.mp hConstructors
  obtain ⟨buddy, body, hBuddy, hBody, hCheck, hCode⟩ :=
    exists_dispatcher hRedeclares (h.fits hRedeclares)
  refine ⟨stubs, constructors, buddy, body, ?_, fun s hs => ?_, hRedeclares, hBuddy, hBody, hCheck,
    hCode⟩
  · exact bind_eq_ok.mpr ⟨stubs, mapError_eq_ok.mpr hStubs, bind_eq_ok.mpr ⟨constructors,
      mapError_eq_ok.mpr hConstructors, bind_eq_ok.mpr ⟨buddy, hBuddy, rfl⟩⟩⟩
  · obtain ⟨m, hm, hStub⟩ := exists_left_of_forall₂ (mapM_eq_ok_iff.mp hStubs) hs
    exact (stub_eq_ok hStub).1 ▸ name_of_mem_overridable hm

/-- **A genesis class can be built** if its registers can be counted.  Its constructors are the ones
redeclared, in the order of their numbers, and behind them the buddy constructor. -/
theorem exists_genesisClass {g : ClassGraph} (component : ComponentType) {bottom : ClassDef}
    (h : Regular bottom) (hCountable : Countable g bottom) :
    ∃ c constructors n body, genesisClass g component bottom = .ok c ∧
      inits c.methods = constructors ++ [n] ∧ Redeclares bottom constructors ∧
      PicksConstructor bottom.name constructors n body := by
  obtain ⟨stubs, constructors, buddy, body, hMethods, hStubs, hRedeclares, hBuddy, hBody, hCheck,
    hCode⟩ := exists_synthesize hCountable
  have hOwn : ∀ m ∈ constructors ++ [buddy], ∃ signature,
      OwnConstructor bottom.name signature m := fun m hm => hRedeclares.own hBuddy hm
  have hInits : inits (stubs ++ constructors ++ [buddy]) = constructors ++ [buddy] := by
    have hNone : stubs.filter (·.name.isInit) = [] :=
      List.filter_eq_nil_iff.mpr fun s hs => by simp [hStubs s hs]
    rw [List.append_assoc, inits_append, inits, hNone, List.nil_append, inits,
      List.filter_eq_self]
    intro m hm
    obtain ⟨_, hm⟩ := hOwn m hm
    rw [hm.name]
    rfl
  have hSignatures : (constructors ++ [buddy]).map Method.signature =
      (inheritable bottom).map Method.signature ++ [Interceptor.buddySignature] := by
    rw [List.map_append, hRedeclares.map_signature, List.map_singleton,
      (dispatcher_own hBuddy).signature]
  have hNodup := h.nodup_signatures
  obtain ⟨c₁, hDeclare⟩ : ∃ c₁, declareAll (bareClass component bottom.name)
      (stubs ++ constructors ++ [buddy]) = .ok c₁ := exists_declareAll rfl
  have hDeclared : inits c₁.methods = constructors ++ [buddy] := by
    have hNodup' : ((inits ((bareClass component bottom.name).methods ++
        (stubs ++ constructors ++ [buddy]))).map Method.signature).Nodup := by
      show ((inits (stubs ++ constructors ++ [buddy])).map Method.signature).Nodup
      rw [hInits, hSignatures]
      exact hNodup
    rw [inits_declareAll hDeclare hNodup', hInits]
    show (constructors ++ [buddy]).map _ = _
    refine (List.map_congr_left fun m hm => ?_).trans (List.map_id _)
    obtain ⟨_, hm⟩ := hOwn m hm
    show ({ m with owner := genesisName bottom.name } : Method) = m
    rw [← hm.owner]
  have hSealed : inits (c₁.modifyMethod .init Interceptor.buddySignature
      fun m => { m with role := .wormhole }).methods =
      constructors ++ [{ buddy with role := .wormhole }] := by
    have hFilter : inits (c₁.methods.map sealBuddy) = (inits c₁.methods).map sealBuddy := by
      rw [inits, inits, List.filter_map]
      congr 2
      funext m
      simp only [Function.comp_apply, sealBuddy]
      split <;> rfl
    show inits (c₁.methods.map sealBuddy) = _
    rw [hFilter, hDeclared, List.map_append, List.map_singleton]
    refine congrArg₂ (· ++ ·) ((List.map_congr_left fun m hm => ?_).trans (List.map_id _)) ?_
    · refine if_neg fun hNamed => ?_
      rw [← hRedeclares.map_signature] at hNodup
      refine List.disjoint_of_nodup_append hNodup (List.mem_map_of_mem hm) ?_
      rw [(Method.isNamed_iff.mp hNamed).2]
      exact List.mem_cons_self
    · have hBuddyOwn := dispatcher_own hBuddy
      rw [sealBuddy, if_pos (Method.isNamed_iff.mpr ⟨hBuddyOwn.name, hBuddyOwn.signature⟩)]
  have hBuddyOwn := dispatcher_own hBuddy
  refine ⟨_, constructors, _, body, ?_, hSealed, hRedeclares, ⟨hBuddyOwn.owner, hBuddyOwn.name,
    hBuddyOwn.signature, hBuddyOwn.isConstructor, rfl, hBody, hCheck, hCode⟩⟩
  exact bind_eq_ok.mpr ⟨_, hMethods, bind_eq_ok.mpr ⟨c₁, mapError_eq_ok.mpr hDeclare, rfl⟩⟩

end Genesis

end HotPatch
