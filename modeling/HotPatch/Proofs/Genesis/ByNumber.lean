import HotPatch.Proofs.Bytecode.Interpreter
import HotPatch.Proofs.Genesis.Stubs
import HotPatch.Proofs.Intercept.ConstructorProtocol

/-!
# What the constructors of a genesis class do

A redeclared constructor passes its receiver and all arguments on to the
constructor it was made from.  The buddy constructor reads a number and calls
the redeclared constructor that has it, with arguments from the current
holder; a number that no constructor has is refused before anything is called
on the receiver.
-/

namespace HotPatch

namespace Genesis

open Intercept (Initializes)

/-! ## The table of numbers -/

private theorem table_succ (count : Nat) :
    table (count + 1) = table count ++ [(Int32.ofNat count, ⟨count⟩)] := by
  simp [table, List.range_succ]

/-- A number leads to the case that has it, and a number out of range nowhere. -/
theorem lookup_table {count : Nat} (hCount : count ≤ 0x80000000) (key : Int32) :
    (table count).lookup key =
      if 0 ≤ key.toInt ∧ key.toInt < count then some ⟨key.toInt.toNat⟩ else none := by
  induction count with
  | zero =>
      rw [if_neg (by omega)]
      rfl
  | succ count ih =>
      have hLast : key = Int32.ofNat count ↔ key.toInt = count := by
        rw [← Int32.toInt_inj, Int32.toInt_ofNat_of_lt (by omega)]
      rw [table_succ, List.lookup_append, ih (by omega), List.lookup_cons]
      by_cases hKey : key = Int32.ofNat count
      · have hInt := hLast.mp hKey
        rw [if_neg (by omega), if_pos (by omega), beq_iff_eq.mpr hKey]
        simp [hInt]
      · have hInt := mt hLast.mpr hKey
        rw [beq_eq_false_iff_ne.mpr hKey]
        simp only [List.lookup_nil, Option.or_none]
        congr 1
        rw [eq_iff_iff]
        omega

/-- Where the case of a constructor stands. -/
theorem caseLines_split {constructors : List Method} (done : Label) {n : Method} :
    ∀ (start : Nat) {k : Nat}, constructors[k]? = some n → ∃ front back,
      caseLines constructors start done =
        front ++ .label ⟨start + k⟩ :: (caseLine n ++ .goto done :: back) := by
  induction constructors with
  | nil =>
      intro start k hAt
      cases hAt
  | cons m rest ih =>
      intro start k hAt
      rw [caseLines_cons]
      cases k with
      | zero =>
          obtain rfl := Option.some.inj hAt
          exact ⟨[], _, rfl⟩
      | succ k =>
          obtain ⟨front, back, hSplit⟩ := ih (start + 1) hAt
          refine ⟨.label ⟨start⟩ :: (caseLine m ++ .goto done :: front), back, ?_⟩
          rw [hSplit, Nat.add_assoc, Nat.add_comm 1 k]
          simp

private theorem pickCode_case {constructors : List Method} {k : Nat} {n : Method}
    (hAt : constructors[k]? = some n) : ∃ front back, pickCode constructors =
      front ++ .label ⟨k⟩ :: (caseLine n ++ .goto ⟨constructors.length⟩ :: back) := by
  obtain ⟨front, back, hSplit⟩ := caseLines_split ⟨constructors.length⟩ 0 hAt
  rw [Nat.zero_add] at hSplit
  rw [pickCode, hSplit]
  exact ⟨approach ++ .sparseSwitch (.v 0) (table constructors.length) :: (refuseNumber ++ front),
    back ++ [.label ⟨constructors.length⟩, .returnVoid], by simp⟩

private theorem pickCode_end (constructors : List Method) : ∃ front, pickCode constructors =
    front ++ .label ⟨constructors.length⟩ :: [.returnVoid] :=
  ⟨approach ++ .sparseSwitch (.v 0) (table constructors.length) ::
    (refuseNumber ++ caseLines constructors 0 ⟨constructors.length⟩), by simp [pickCode]⟩

section Protocol

variable {V H E R : Type} (M : Platform V H E R)

/-- Any position of the code. -/
def anywhere (_ : Nat) : Prop := True

/-- The call asks for the current holder. -/
structure AsksHolder (context : V) (call : Call V H) : Prop where
  kind : call.kind = .virtual
  target : call.target = Interceptor.buddyCurrent
  values : call.values = [context]

/-- The array has objects, from its front on, that can be turned into the arguments. -/
def Unpacks (heap : H) (array : V) (arguments : List (ValueType × List V)) : Prop :=
  arguments ≠ [] → ∃ objects rest, M.look heap (.array array) = some (objects ++ rest) ∧
    List.Forall₂ (M.Converts heap) objects arguments

/-- Every run calls the constructor once, on the receiver and with the arguments, makes no other
calls but those that unbox, and returns. -/
def Constructs (code : List Instruction) (target : MethodRef) (receiver : V)
    (arguments : List (ValueType × List V)) (c : Config V H R) : Prop :=
  M.Leads code anywhere c fun calls d => ∃ unboxing call heap, calls = unboxing ++ [call] ∧
    (∀ u ∈ unboxing, u.unboxes) ∧ Initializes target receiver arguments call ∧
    d = .ended (M.returned []) heap ∧ M.Keeps [] call.after heap

/-- The constructor of the exception for a number that no constructor has. -/
def refusal : MethodRef := ⟨illegalState, .init, .void [.object .string]⟩

/-- The call initializes an exception, with the message that the number is unknown. -/
structure InitsRefusal (object : V) (call : Call V H) : Prop where
  kind : call.kind = .direct
  target : call.target = refusal
  values : call.values = [object, M.string "unknown genesis constructor id"]
  fits : M.fits call.before object (.object illegalState)

/-- Every run makes an exception, which is not the receiver, and throws it; the one call on the way
is the one that initializes it. -/
def Refuses (code : List Instruction) (receiver : V) (c : Config V H R) : Prop :=
  M.Leads code anywhere c fun calls d => ∃ object call heap, calls = [call] ∧
    InitsRefusal M object call ∧ object ≠ receiver ∧ d = .ended (M.thrown object) heap

/-- Every run calls the source once, on the receiver and with the arguments, and nothing else, and
returns. -/
def PassesOn (code : List Instruction) (source : MethodRef) (receiver : V)
    (arguments : List (ValueType × List V)) (c : Config V H R) : Prop :=
  M.Leads code anywhere c fun calls d => ∃ call heap, calls = [call] ∧
    Initializes source receiver arguments call ∧ d = .ended (M.returned []) heap ∧
    M.Keeps [] call.after heap

/-- The constructor passes its receiver and all arguments on to the one it was made from. -/
def Forwards (source n : Method) : Prop :=
  ∃ b, n.body = some b ∧ b.check = .ok () ∧
    ∀ {receiver : V} {arguments : List (ValueType × List V)} {registers : Register → V} {heap : H},
      Boxing.CalledWith n.signature (some receiver) arguments registers → M.returns source.ref →
      PassesOn M b.instructions source.ref receiver arguments (.running 0 registers heap)

/-- One constructor for each that subclasses of the platform class can call.  The numbers follow
the byte order of descriptors, and the order in which the platform class declares its methods plays
no part.  Each constructor carries its number in a tag too, and passes everything on. -/
structure Numbered (bottom : ClassDef) (constructors : List Method) : Prop where
  sources : (inheritable bottom).Perm (bottom.methods.filter isInheritable)
  ordered : (inheritable bottom).Pairwise Before
  anyOrder : ∀ other : ClassDef, other.methods.Perm bottom.methods →
    inheritable other = inheritable bottom
  count : constructors.length = (inheritable bottom).length
  each : ∀ {k : Nat} {n : Method}, constructors[k]? = some n → ∃ source,
    (inheritable bottom)[k]? = some source ∧ Redeclared bottom.name source k n ∧
      (Int32.ofNat k).toInt = k ∧ Forwards M source n

/-- The object has the fields that the class declares. -/
def HasFields (heap : H) (c : ClassDef) (object : V) : Prop :=
  ∀ f ∈ c.fields, (M.look heap (.field object f.ref)).isSome

variable {M} {registers : Register → V} {heap : H} {receiver : V}
  {arguments : List (ValueType × List V)}

/-! ## Redeclared constructors -/

private theorem goes_callRun {kind : InvokeKind} {args : RegisterList} {target : MethodRef}
    {values : List V} {rest : List Instruction}
    {required : List (Call V H) → (Register → V) → H → Prop} (hReturns : M.returns target)
    (hValues : (args.flatMap Register.slots).map registers = values)
    (hRest : ∀ call : Call V H, call.kind = kind → call.target = target → call.values = values →
      M.Goes rest registers call.after fun calls => required (call :: calls)) :
    M.Goes (callRun kind args target :: rest) registers heap required := by
  unfold callRun
  split
  · exact Runtime.goes_call hValues (M.call hReturns) fun out hOut =>
      ⟨hOut.control, hRest ⟨kind, .range, target, values, heap, out.heap⟩ rfl rfl rfl⟩
  · exact Runtime.goes_call hValues (M.call hReturns) fun out hOut =>
      ⟨hOut.control, hRest ⟨kind, .fixed, target, values, heap, out.heap⟩ rfl rfl rfl⟩

private theorem leads_passOn {source : Method}
    (hCalled : Boxing.CalledWith source.signature (some receiver) arguments registers)
    (hReturns : M.returns source.ref) :
    PassesOn M (passOn source) source.ref receiver arguments (.running 0 registers heap) := by
  have hLine : M.Goes [callRun .direct (allOwn source.signature) source.ref] registers heap
      fun calls _ heap' => ∃ call, calls = [call] ∧
        Initializes source.ref receiver arguments call ∧ call.after = heap' :=
    goes_callRun hReturns
      (Boxing.map_slots_receiver rfl hCalled.receiver_eq hCalled.held_declared)
      fun call hKind hTarget hValues => ⟨call, rfl, ⟨hKind, hTarget, hValues⟩, rfl⟩
  have hCode : passOn source = [] ++
      ([callRun .direct (allOwn source.signature) source.ref] ++ [.returnVoid]) := rfl
  refine hLine.leads hCode rfl (fun _ _ _ => trivial) ?_
  rintro calls registers₁ h₁ ⟨call, rfl, hInit, rfl⟩
  exact Runtime.leads_stop trivial (Machine.getElem?_behind hCode rfl) rfl rfl M.returnVoid
    fun h₂ k₂ => ⟨call, h₂, rfl, hInit, rfl, k₂⟩

/-! ## Cases -/

private theorem goes_loadArguments {types : List ValueType} {next : Nat} {array : V}
    (hNext : 4 ≤ next)
    (hTypes : arguments.map Prod.fst = types) (hCount : types.length < 0x80000000)
    (hArray : registers (.v 2) = array) (hUnpacks : Unpacks M heap array arguments) :
    M.Goes (Boxing.loadAll (.v 2) (.v 3) (Boxing.layout .locals next types)) registers heap
      fun calls registers' _ => (∀ u ∈ calls, u.unboxes) ∧
        Boxing.held registers' (Boxing.layout .locals next types) = arguments ∧
        ∀ r : Register, r ≠ .v 3 → (r.bank = .locals → r.index < next) →
          registers' r = registers r := by
  subst hTypes
  cases arguments with
  | nil => exact ⟨nofun, rfl, fun _ _ _ => rfl⟩
  | cons first rest =>
      obtain ⟨objects, others, hLook, hConverts⟩ := hUnpacks nofun
      refine (Boxing.goes_loadAll (by decide) (by omega) (by omega) (by simpa using hCount) hArray
        hLook hConverts).mono ?_
      rintro calls registers₁ h₁ ⟨hCalls, _, hHeld, hSame⟩
      exact ⟨hCalls, hHeld, hSame⟩

/-- What an array can be unpacked to stays the same while nothing is stored. -/
theorem Unpacks.keep {array : V} {heap' : H} (h : Unpacks M heap array arguments)
    (hKeeps : M.Keeps [] heap heap') : Unpacks M heap' array arguments := by
  intro hSome
  obtain ⟨objects, rest, hLook, hConverts⟩ := h hSome
  exact ⟨objects, rest, hKeeps.look List.not_mem_nil hLook,
    hConverts.imp fun _ _ => hKeeps.converts⟩

/-- **One case.**  Whatever the number and width of its arguments, in either form, the constructor
gets the receiver and every argument as the array has it. -/
theorem goes_caseLine {n : Method} {array : V} (hFits : Fits n)
    (hTypes : arguments.map Prod.fst = n.signature.parameters)
    (hArray : registers (.v 2) = array) (hReceiver : registers (.p 0) = receiver)
    (hUnpacks : Unpacks M heap array arguments) (hReturns : M.returns n.ref) :
    M.Goes (caseLine n) registers heap fun calls _ heap' => ∃ unboxing call,
      calls = unboxing ++ [call] ∧ (∀ u ∈ unboxing, u.unboxes) ∧
      Initializes n.ref receiver arguments call ∧ call.after = heap' := by
  have hCall : ∀ {r : Register} {next : Nat} {registers' : Register → V} {heap' : H}
      {unboxing : List (Call V H)}, r.wide = false → registers' r = receiver →
      (∀ u ∈ unboxing, u.unboxes) →
      Boxing.held registers' (Boxing.layout .locals next n.signature.parameters) = arguments →
      M.Goes [callRun .direct
          (r :: (Boxing.layout .locals next n.signature.parameters).map Prod.fst) n.ref]
        registers' heap' fun calls _ h => ∃ unboxing' call,
          unboxing ++ calls = unboxing' ++ [call] ∧
          (∀ u ∈ unboxing', u.unboxes) ∧ Initializes n.ref receiver arguments call ∧
          call.after = h := by
    intro r next registers' heap' unboxing hNarrow hAt hUnboxing hHeld
    exact goes_callRun hReturns (Boxing.map_slots_receiver hNarrow hAt hHeld)
      fun call hKind hTarget hValues =>
        ⟨unboxing, call, rfl, hUnboxing, ⟨hKind, hTarget, hValues⟩, rfl⟩
  have hLength := Signature.length_lt_of_slots hFits.slots_le
  simp only [caseLine]
  split
  · next hRanged =>
    rw [List.singleton_append]
    refine Runtime.goes_sets rfl rfl (congrArg (· :: []) hReceiver) (M.move rfl) fun h₁ k₁ => ?_
    refine .append ((goes_loadArguments (caseStart_le n).1 hTypes hLength
      ((Function.update_of_ne (by simp) _ _).trans hArray) (hUnpacks.keep k₁)).mono ?_)
    rintro unboxing registers₂ h₂ ⟨hUnboxing, hHeld, hSame⟩
    refine hCall rfl ?_ hUnboxing hHeld
    rw [hSame (.v 4) (by simp) fun _ => by rw [caseStart, if_pos hRanged]; decide]
    exact Function.update_self _ _ _
  · rw [List.nil_append]
    refine .append ((goes_loadArguments (caseStart_le n).1 hTypes hLength hArray
      hUnpacks).mono ?_)
    rintro unboxing registers₂ h₂ ⟨hUnboxing, hHeld, hSame⟩
    refine hCall rfl ?_ hUnboxing hHeld
    rw [hSame (.p 0) (Register.ne_v_of_params rfl 3) fun hLocal => by cases hLocal]
    exact hReceiver

section Code

variable {constructors : List Method}

/-- From the label of a case to the end of the buddy constructor. -/
theorem constructs_case (hFits : ∀ m ∈ constructors, Fits m) {k t : Nat} {n : Method} {array : V}
    (hTo : Code.position? (pickCode constructors) ⟨k⟩ = some t)
    (hAt : constructors[k]? = some n)
    (hTypes : arguments.map Prod.fst = n.signature.parameters)
    (hArray : registers (.v 2) = array) (hReceiver : registers (.p 0) = receiver)
    (hUnpacks : Unpacks M heap array arguments) (hReturns : M.returns n.ref) :
    Constructs M (pickCode constructors) n.ref receiver arguments
      (.running t registers heap) := by
  obtain ⟨front, back, hCase⟩ := pickCode_case hAt
  obtain ⟨lead, hEnd⟩ := pickCode_end constructors
  have hNodup := nodup_pickCode hFits
  have hStart : Code.position? (pickCode constructors) ⟨k⟩ = some front.length := by
    rw [hCase] at hNodup ⊢
    exact Code.position?_of_nodup hNodup
  have hDone : Code.position? (pickCode constructors) ⟨constructors.length⟩ =
      some lead.length := by
    rw [hEnd] at hNodup ⊢
    exact Code.position?_of_nodup hNodup
  obtain rfl := Option.some.inj (hStart.symm.trans hTo)
  have hLine : pickCode constructors = (front ++ [.label ⟨k⟩]) ++
      (caseLine n ++ .goto ⟨constructors.length⟩ :: back) := by
    simp [hCase]
  refine Runtime.leads_label trivial (Code.getElem?_position? hStart) ?_
  refine (goes_caseLine (hFits n (List.mem_of_getElem? hAt)) hTypes hArray hReceiver hUnpacks
    hReturns).leads hLine (by simp) (fun _ _ _ => trivial) ?_
  rintro calls registers₁ h₁ ⟨unboxing, call, rfl, hUnboxing, hInit, rfl⟩
  refine Runtime.leads_to lead.length trivial (Machine.getElem?_behind hLine (by simp)) rfl rfl rfl
    M.goto ?_ fun h₂ k₂ => ?_
  · rintro out ⟨hKeeps, hJump⟩
    exact ⟨hKeeps, by rw [hJump]; exact hDone⟩
  · have hReturn : (pickCode constructors)[lead.length + 1]? = some .returnVoid := by
      simp [hEnd]
    refine Runtime.leads_label trivial (Code.getElem?_position? hDone) ?_
    exact Runtime.leads_stop trivial hReturn rfl rfl M.returnVoid fun h₃ k₃ =>
      ⟨unboxing, call, h₃, by simp, hUnboxing, hInit, rfl, k₂.trans k₃⟩

/-- From behind the switch. -/
theorem refuses_number {name : FieldRef} (hReturns : M.returns refusal)
    (hReceiver : (M.look heap (.field receiver name)).isSome) :
    Refuses M (pickCode constructors) receiver (.running 5 registers heap) := by
  have hCode : pickCode constructors =
      (approach ++ [.sparseSwitch (.v 0) (table constructors.length)]) ++
        ([.newInstance (.v 0) illegalState, .constString (.v 1) "unknown genesis constructor id",
          .invoke .direct .fixed [.v 0, .v 1] refusal] ++ .throw (.v 0) ::
            (caseLines constructors 0 ⟨constructors.length⟩ ++
              [.label ⟨constructors.length⟩, .returnVoid])) := by
    simp [pickCode, refuseNumber, refusal]
  have hLine : M.Goes [.newInstance (.v 0) illegalState,
      .constString (.v 1) "unknown genesis constructor id",
      .invoke .direct .fixed [.v 0, .v 1] refusal] registers heap
      fun calls registers' _ => ∃ object call, calls = [call] ∧ InitsRefusal M object call ∧
        object ≠ receiver ∧ registers' (.v 0) = object := by
    refine Runtime.goes_writes rfl rfl (M.newInstance rfl) ?_
    rintro out ⟨object, hYields, hNew, hType⟩
    refine ⟨[object], hYields, fun registers₁ hWrote => ?_⟩
    obtain rfl := hWrote.eq_update rfl
    have hOther : object ≠ receiver := by
      rintro rfl
      rw [hNew name] at hReceiver
      cases hReceiver
    refine Runtime.goes_sets rfl rfl rfl (M.constString rfl) fun h₂ k₂ => ?_
    have hValues : ([.v 0, .v 1].flatMap Register.slots).map (Function.update
        (Function.update registers (.v 0) object) (.v 1)
        (M.string "unknown genesis constructor id")) =
        [object, M.string "unknown genesis constructor id"] := by
      simp [Register.slots_v]
    refine Runtime.goes_call hValues (M.call hReturns) fun out₃ hOut => ⟨hOut.control, ?_⟩
    exact ⟨object, _, rfl, ⟨rfl, rfl, rfl, k₂.fits hType⟩, hOther, by simp⟩
  refine hLine.leads hCode rfl (fun _ _ _ => trivial) ?_
  rintro calls registers₁ h₁ ⟨object, call, rfl, hInits, hOther, hObject⟩
  exact Runtime.leads_stop trivial (Machine.getElem?_behind hCode rfl) rfl
    (congrArg (· :: []) hObject) M.throw fun h₂ _ => ⟨object, call, h₂, rfl, hInits, hOther, rfl⟩

/-- The arguments are fetched and the number is looked up. -/
theorem leads_switch {goal : List (Call V H) → Config V H R → Prop} {key : Int32}
    {holder array : V} (t : Nat) (hKey : registers (.v 0) = M.int key)
    (hAnswer : M.answer heap = [holder])
    (hParameters : M.look heap (.field holder Interceptor.buddyParameters) = some [array])
    (hTo : (∃ l, (table constructors.length).lookup key = some l ∧
        Code.position? (pickCode constructors) l = some t) ∨
      (table constructors.length).lookup key = none ∧ t = 5)
    (hRest : ∀ heap', M.Keeps [] heap heap' → M.Leads (pickCode constructors) anywhere
      (.running t (Function.update (Function.update registers (.v 1) holder) (.v 2) array) heap')
        goal) :
    M.Leads (pickCode constructors) anywhere (.running 2 registers heap) goal := by
  have hCode : pickCode constructors = approach.take 2 ++ ([.moveResult .object (.v 1),
      .instanceGet .object (.v 2) (.v 1) Interceptor.buddyParameters] ++
      .sparseSwitch (.v 0) (table constructors.length) :: (refuseNumber ++
        (caseLines constructors 0 ⟨constructors.length⟩ ++
          [.label ⟨constructors.length⟩, .returnVoid]))) := by
    simp [pickCode, approach]
  have hLine : M.Goes [.moveResult .object (.v 1),
      .instanceGet .object (.v 2) (.v 1) Interceptor.buddyParameters] registers heap
      fun calls registers' heap' => calls = [] ∧ registers' = Function.update
        (Function.update registers (.v 1) holder) (.v 2) array ∧ M.Keeps [] heap heap' := by
    refine Runtime.goes_result hAnswer rfl fun registers₁ h₁ hWrote k₁ => ?_
    obtain rfl := hWrote.eq_update rfl
    exact Runtime.goes_sets rfl rfl (congrArg (· :: []) (Function.update_self _ _ _))
      (M.instanceGet (k₁.look List.not_mem_nil hParameters) rfl)
      fun h₂ k₂ => ⟨rfl, rfl, k₁.trans k₂⟩
  refine hLine.leads hCode rfl (fun _ _ _ => trivial) ?_
  rintro calls registers₁ h₁ ⟨rfl, rfl, k₁⟩
  have hReads : (Instruction.sparseSwitch (.v 0) (table constructors.length)).readSlots.map
      (Function.update (Function.update registers (.v 1) holder) (.v 2) array) = [M.int key] := by
    simp [Instruction.readSlots, Instruction.reads, Instruction.written?, Instruction.registers,
      Register.slots_v, hKey]
  refine Runtime.leads_to t trivial (Machine.getElem?_behind hCode rfl) rfl rfl hReads
    M.sparseSwitch ?_ fun h₂ k₂ => hRest h₂ (k₁.trans k₂)
  intro out hOut
  refine ⟨hOut.keeps, ?_⟩
  rcases hTo with ⟨l, hLookup, hTarget⟩ | ⟨hLookup, rfl⟩
  · rw [hOut.found hLookup]
    exact hTarget
  · rw [hOut.missed hLookup]
    rfl

/-- The number is read and the holder asked for. -/
theorem goes_askHolder {context : V} {key : Int32}
    (hCalled : Boxing.CalledWith Interceptor.buddySignature (some receiver)
      [(.object Interceptor.buddyInitContext, [context])] registers)
    (hKey : M.look heap (.field context Interceptor.buddyInitMethodId) = some [M.int key])
    (hReturns : M.returns Interceptor.buddyCurrent) :
    M.Goes (approach.take 2) registers heap fun calls registers' heap' => ∃ asked,
      calls = [asked] ∧ AsksHolder context asked ∧ M.Keeps [] heap asked.before ∧
        asked.after = heap' ∧ registers' (.v 0) = M.int key ∧
        registers' (.p 0) = receiver ∧ M.Stays heap heap' := by
  have hContext : registers (.p 1) = context := hCalled.slots 1 context rfl
  refine Runtime.goes_sets rfl rfl (congrArg (· :: []) hContext) (M.instanceGet hKey rfl)
    fun h₁ k₁ => ?_
  have hSame : SameParameters registers (Function.update registers (.v 0) (M.int key)) :=
    .update (fun _ _ => rfl) 0 (M.int key)
  have hValues : ([.p 1].flatMap Register.slots).map
      (Function.update registers (.v 0) (M.int key)) = [context] :=
    congrArg (· :: []) ((hSame (.p 1) rfl).trans hContext)
  refine Runtime.goes_call hValues (M.call hReturns) fun out hOut => ⟨hOut.control, ?_⟩
  exact ⟨_, rfl, ⟨rfl, rfl, rfl⟩, k₁, rfl, Function.update_self _ _ _,
    (hCalled.same hSame).receiver_eq, k₁.stays_of_nil.trans hOut.stays⟩

end Code

/-- The redeclared constructors are numbered in the order of their descriptors. -/
theorem Redeclares.numbered {bottom : ClassDef} {constructors : List Method}
    (hBottom : Regular bottom) (hCount : (inheritable bottom).length ≤ 0x80000000)
    (h : Redeclares bottom constructors) : Numbered M bottom constructors where
  sources := inheritable_perm bottom
  ordered := hBottom.ordered
  anyOrder := hBottom.inheritable_eq
  count := h.length_eq
  each := by
    intro k n hAt
    obtain ⟨source, hSource, hNew⟩ := h.get hAt
    obtain ⟨hIs, b, hBody, hCheck, hCode⟩ := redeclared_of_eq_ok hNew
    have hk : k < (inheritable bottom).length := (List.getElem?_eq_some_iff.mp hSource).1
    refine ⟨source, hSource, hIs, Int32.toInt_ofNat_of_lt (Nat.lt_of_lt_of_le hk hCount),
      b, hBody, hCheck, fun hCalled hReturns => ?_⟩
    rw [hCode]
    exact leads_passOn (hIs.signature ▸ hCalled) hReturns

/--
**Constructors by number.**  A platform class that has no buddy constructor gets a genesis class, as
long as the name is free, registers can be counted in 16 bits and constructors in 31.  Its
constructors are the platform's own, numbered by descriptor, and a buddy constructor that can be
encoded.  On any platform, every run of the buddy constructor asks the context for the
current holder, once and before any other call.  With a holder as the answer, the number in the
context decides.  If it is that of a constructor, the run calls this constructor once on the
receiver, with each argument taken from the holder's array and converted to the type of its
parameter, calls nothing else but what unboxes them, and returns.  If it is any other number, the
run throws a new exception that says so, and no constructor is called on the receiver.
-/
theorem genesisClass_picksByNumber (M : Platform V H E R) {site : Site}
    (component : ComponentType) {bottom : ClassDef} (hBottom : Regular bottom)
    (hSite : Unopened site bottom) (hCountable : Countable site.graph bottom)
    (hNumbers : (bottom.methods.filter isInheritable).length ≤ 0x80000000) :
    ∃ c constructors n b, Opens component bottom site c ∧
      inits c.methods = constructors ++ [n] ∧ Numbered M bottom constructors ∧
      PicksConstructor bottom.name constructors n b ∧
      ∀ {receiver context : V} {key : Int32} {registers : Register → V} {heap : H},
        Boxing.CalledWith n.signature (some receiver)
          [(.object Interceptor.buddyInitContext, [context])] registers →
        M.look heap (.field context Interceptor.buddyInitMethodId) = some [M.int key] →
        HasFields M heap c receiver → M.returns Interceptor.buddyCurrent →
        M.Leads b.instructions anywhere (.running 0 registers heap) fun calls d => ∃ asked,
          calls = [asked] ∧ AsksHolder context asked ∧ M.Keeps [] heap asked.before ∧
          ∀ {holder array : V}, M.answer asked.after = [holder] →
            M.look asked.after (.field holder Interceptor.buddyParameters) = some [array] →
            (∀ {k : Nat} {m : Method} {arguments : List (ValueType × List V)},
              key.toInt = k → constructors[k]? = some m →
              arguments.map Prod.fst = m.signature.parameters →
              Unpacks M asked.after array arguments → M.returns m.ref →
              Constructs M b.instructions m.ref receiver arguments d) ∧
            (¬ (0 ≤ key.toInt ∧ key.toInt < constructors.length) → M.returns refusal →
              Refuses M b.instructions receiver d) := by
  obtain ⟨c, constructors, n, b, hClass, hInits, hRedeclares, hIs⟩ :=
    exists_genesisClass component hBottom hCountable
  have hLength : (inheritable bottom).length ≤ 0x80000000 :=
    (inheritable_perm bottom).length_eq ▸ hNumbers
  have hFits := hCountable.fits hRedeclares
  refine ⟨c, constructors, n, b, hSite.opens hClass, hInits, hRedeclares.numbered hBottom hLength,
    hIs, ?_⟩
  intro receiver context key registers heap hCalled hKey hReceiver hReturns
  have hField : (M.look heap (.field receiver
      ⟨genesisName bottom.name, Interceptor.buddyField, .rootObject⟩)).isSome := by
    have hFields : c.fields = (bareClass component bottom.name).fields := by
      have hOutline := congrArg ClassDef.fields (outline_genesisClass hClass)
      exact hOutline
    rw [HasFields, hFields] at hReceiver
    exact hReceiver _ List.mem_cons_self
  have hCount : constructors.length ≤ 0x80000000 := hRedeclares.length_eq ▸ hLength
  have hCode : pickCode constructors = [] ++ (approach.take 2 ++ (approach.drop 2 ++
      .sparseSwitch (.v 0) (table constructors.length) :: (refuseNumber ++
        (caseLines constructors 0 ⟨constructors.length⟩ ++
          [.label ⟨constructors.length⟩, .returnVoid])))) := by
    simp [pickCode, approach]
  rw [hIs.signature] at hCalled
  rw [hIs.code]
  refine (goes_askHolder hCalled hKey hReturns).leads hCode rfl (fun _ _ _ => trivial) ?_
  rintro calls registers₁ h₁ ⟨asked, rfl, hAsks, hKeeps, rfl, hv0, hp0, hStays⟩
  refine .done ⟨asked, rfl, hAsks, hKeeps, fun {holder array} hAnswer hParameters => ⟨?_, ?_⟩⟩
  · intro k m arguments hk hAt hTypes hUnpacks hCall
    have hLt : k < constructors.length := (List.getElem?_eq_some_iff.mp hAt).1
    have hLookup : (table constructors.length).lookup key = some ⟨k⟩ := by
      rw [lookup_table hCount, if_pos (by omega), hk, Int.toNat_natCast]
    have hPlaced : Label.mk k ∈ Code.placed (pickCode constructors) := by
      rw [placed_pickCode hFits]
      exact List.mem_map_of_mem (List.mem_range.mpr (Nat.lt_succ_of_lt hLt))
    obtain ⟨t, hTo⟩ := Code.exists_position? hPlaced
    refine leads_switch t hv0 hAnswer hParameters (.inl ⟨⟨k⟩, hLookup, hTo⟩) fun h₂ k₂ => ?_
    refine constructs_case hFits hTo hAt hTypes (Function.update_self _ _ _) ?_
      (hUnpacks.keep k₂) hCall
    rw [Function.update_of_ne (Register.ne_v_of_params rfl 2),
      Function.update_of_ne (Register.ne_v_of_params rfl 1), hp0]
  · intro hOut hRefusal
    have hLookup : (table constructors.length).lookup key = none := by
      rw [lookup_table hCount, if_neg hOut]
    exact leads_switch 5 hv0 hAnswer hParameters (.inr ⟨hLookup, rfl⟩) fun h₂ k₂ =>
      refuses_number hRefusal (k₂.stays_of_nil _ (hStays _ hField))

end Protocol

/-! ## A platform class -/

/-- A constructor of the class `a/Tile`. -/
def tileInit (parameters : List ValueType) (access : MethodAccess) : Method where
  owner := .of "a/Tile"
  name := .init
  signature := .void parameters
  access := access

/-- Six slots with the receiver: too many for a call that lists its registers. -/
def tileTypes : List ValueType := [.base .long, .object .string, .base .double]

/-- The constructor with wide arguments comes first but has the greater descriptor; one that is
private stands between it and the other. -/
def tileClass : ClassDef where
  name := .of "a/Tile"
  kind := .library
  access := { pub := true }
  methods := [tileInit tileTypes { prot := true }, tileInit [.base .int] { priv := true },
    tileInit [] { pub := true }]

private theorem regular_tileClass : Regular tileClass where
  once := by decide +kernel
  buddy := by decide +kernel

/-- A program with that class alone. -/
def tileSite : Site := { graph := ⟨[tileClass]⟩ }

private theorem inheritable_tileClass : inheritable tileClass =
    [tileInit [] { pub := true }, tileInit tileTypes { prot := true }] := by
  have hSwapped : List.Perm [tileInit [] { pub := true }, tileInit tileTypes { prot := true },
      tileInit [.base .int] { priv := true }] tileClass.methods := by decide +kernel
  rw [← regular_tileClass.inheritable_eq { tileClass with methods := _ } hSwapped]
  exact List.mergeSort_of_pairwise (by decide +kernel)

/-- The arguments for a constructor, as a holder has them: boxes for the wide ones. -/
def tileArguments : List (ValueType × List Interpreter.Datum) :=
  [(.base .long, [.int 7, .int 8]), (.object .string, [.ref 5]), (.base .double, [.int 1, .int 2])]

/-- A receiver, a context with a number, a holder with an array, the array, and what is in it. -/
def stash (key : Int32) : Interpreter.Store where
  objects := [Interpreter.blank,
    .record (Function.update (fun name => .replicate name.type.width (.int 0))
      Interceptor.buddyInitMethodId [.int key]),
    .record (Function.update (fun name => .replicate name.type.width (.int 0))
      Interceptor.buddyParameters [.ref 3]),
    .array [.ref 4, .ref 5, .ref 6], .box .long [.int 7, .int 8], Interpreter.blank,
    .box .double [.int 1, .int 2]]
  statics _ := none
  answer := []

/-- The second constructor is called with its wide arguments, and number seven is refused. -/
theorem genesisClass_picksByNumber_tile :
    let M := Interpreter.platform (Interpreter.holding (.ref 2)) (Interpreter.reports_holding _)
    ∃ c n b m, Opens .activity tileClass tileSite c ∧ n ∈ c.methods ∧ n.body = some b ∧
      m ∈ c.methods ∧ m.genesisId = some 1 ∧ m.signature = .void tileTypes ∧
      M.Leads b.instructions anywhere
        (.running 0 (Interpreter.entered [.ref 0, .ref 1]) (stash 1)) (fun calls d =>
          ∃ asked unboxing call heap, calls = asked :: (unboxing ++ [call]) ∧
            (∀ u ∈ unboxing, u.unboxes) ∧ Initializes m.ref (.ref 0) tileArguments call ∧
            d = .ended [] heap) ∧
      M.Leads b.instructions anywhere
        (.running 0 (Interpreter.entered [.ref 0, .ref 1]) (stash 7)) (fun calls d =>
          ∃ asked object call heap, calls = [asked, call] ∧ InitsRefusal M object call ∧
            object ≠ .ref 0 ∧ d = .ended [object, object, object] heap) := by
  intro M
  have hSite : Unopened tileSite tileClass := ⟨by decide +kernel, nofun, by decide +kernel⟩
  obtain ⟨c, constructors, n, b, hClass, hInits, hNumbered, hIs, hRuns⟩ :=
    genesisClass_picksByNumber M .activity regular_tileClass hSite
      ⟨by decide +kernel, by decide +kernel⟩ (by decide +kernel)
  have hMethods : ∀ m ∈ constructors ++ [n], m ∈ c.methods := by
    intro m hm
    rw [← hInits] at hm
    exact List.mem_of_mem_filter hm
  have hCount : constructors.length = 2 := by
    rw [hNumbered.count, inheritable_tileClass]
    rfl
  obtain ⟨m, hAt⟩ : ∃ m, constructors[1]? = some m :=
    ⟨_, List.getElem?_eq_getElem (by omega)⟩
  obtain ⟨source, hSource, hRedeclared, _⟩ := hNumbered.each hAt
  rw [inheritable_tileClass] at hSource
  obtain rfl := Option.some.inj hSource
  have hCalled : Boxing.CalledWith n.signature (some (.ref 0))
      [(.object Interceptor.buddyInitContext, [.ref 1])]
      (Interpreter.entered [.ref 0, .ref 1]) := by
    rw [hIs.signature]
    exact ⟨rfl, by decide, fun j value hj => Interpreter.entered_p hj⟩
  have hFields : ∀ key, HasFields M (stash key) c (.ref 0) := by
    intro key f _
    have hBlank : (stash key).item? (.ref 0) = some Interpreter.blank := rfl
    exact Option.isSome_of_eq_some (Interpreter.look_blank hBlank f.ref)
  have hAnswer : ∀ {key : Int32} {asked : Call Interpreter.Datum Interpreter.Store},
      AsksHolder (.ref 1) asked → M.Keeps [] (stash key) asked.before → M.Makes asked →
      M.answer asked.after = [.ref 2] ∧ M.Keeps [] (stash key) asked.after := by
    intro key asked hAsks hKeeps hMade
    have hAfter := Interpreter.after_of_makes hMade (by rw [hAsks.target]; rfl)
    rw [hAsks.target] at hAfter
    rw [hAfter]
    exact ⟨rfl, hKeeps.trans (Interpreter.keeps_answer _)⟩
  have hParameters : ∀ key, M.look (stash key) (.field (.ref 2) Interceptor.buddyParameters) =
      some [.ref 3] := fun key => rfl
  refine ⟨c, n, b, m, hClass, hMethods n (by simp), hIs.body,
    hMethods m (List.mem_append_left _ (List.mem_of_getElem? hAt)), hRedeclared.genesisId,
    hRedeclared.signature, ?_, ?_⟩
  · refine (hRuns hCalled rfl (hFields 1) rfl).makes.trans ?_
    rintro calls d ⟨⟨asked, rfl, hAsks, hKeeps, hRest⟩, hMade⟩
    obtain ⟨hHolder, hKept⟩ := hAnswer hAsks hKeeps (hMade asked List.mem_cons_self)
    have hUnpacks : Unpacks M asked.after (.ref 3) tileArguments := fun _ =>
      ⟨[.ref 4, .ref 5, .ref 6], [], hKept.look List.not_mem_nil rfl,
        .cons ⟨trivial, hKept.look List.not_mem_nil rfl⟩ (.cons ⟨fun _ => trivial, rfl⟩
          (.cons ⟨trivial, hKept.look List.not_mem_nil rfl⟩ .nil))⟩
    have hReturns : M.returns m.ref := by
      show Interpreter.builtin? ⟨m.owner, m.name, m.signature⟩ = none
      rw [hRedeclared.owner, hRedeclared.name, hRedeclared.signature]
      rfl
    refine ((hRest hHolder (hKept.look List.not_mem_nil (hParameters 1))).1 (k := 1) rfl hAt
      (by rw [hRedeclared.signature]; rfl) hUnpacks hReturns).trans ?_
    rintro more e ⟨unboxing, call, heap, rfl, hUnboxing, hInit, rfl, _⟩
    exact .done ⟨asked, unboxing, call, heap, by simp, hUnboxing, hInit, rfl⟩
  · refine (hRuns hCalled rfl (hFields 7) rfl).makes.trans ?_
    rintro calls d ⟨⟨asked, rfl, hAsks, hKeeps, hRest⟩, hMade⟩
    obtain ⟨hHolder, hKept⟩ := hAnswer hAsks hKeeps (hMade asked List.mem_cons_self)
    refine ((hRest hHolder (hKept.look List.not_mem_nil (hParameters 7))).2
      (by rw [hCount]; decide) rfl).trans ?_
    rintro more e ⟨object, call, heap, rfl, hRefusal, hOther, rfl⟩
    exact .done ⟨asked, object, call, heap, by simp, hRefusal, hOther, rfl⟩

/-! ## Platform classes without such a genesis class -/

def towerInit (parameters : List ValueType) : Method where
  owner := .of "a/Tower"
  name := .init
  signature := .void parameters
  access := { pub := true }

/-- A class with one constructor for each list of arguments. -/
def tower (lists : List (List ValueType)) : ClassDef where
  name := .of "a/Tower"
  kind := .library
  access := { pub := true }
  methods := lists.map towerInit

section Tower

variable {lists : List (List ValueType)}

private theorem overridable_tower (lists : List (List ValueType)) :
    overridable ⟨[tower lists]⟩ (tower lists) = [] := by
  have hChain : Chain ⟨[tower lists]⟩ (tower lists) [tower lists] := .top rfl rfl
  have hNone : (tower lists).methods.filter isVirtual = [] := by
    rw [List.filter_eq_nil_iff]
    intro m hm
    obtain ⟨types, _, rfl⟩ := List.mem_map.mp hm
    exact Bool.false_ne_true
  rw [hChain.overridable_eq]
  show List.filter _ (List.foldl declare [] ((tower lists).methods.filter isVirtual)) = []
  rw [hNone]
  rfl

private theorem filter_tower (lists : List (List ValueType)) :
    (tower lists).methods.filter isInheritable = lists.map towerInit := by
  refine List.filter_eq_self.mpr fun m hm => ?_
  obtain ⟨types, _, rfl⟩ := List.mem_map.mp hm
  rfl

private theorem regular_tower (hOnce : lists.Nodup)
    (hBuddy : Interceptor.buddySignature.parameters ∉ lists) : Regular (tower lists) where
  once := by
    rw [filter_tower, List.pairwise_map]
    refine hOnce.imp fun hOther => ?_
    rw [← Bool.not_eq_true, Method.sameKey_iff]
    exact fun hSame => hOther (congrArg Signature.parameters hSame.2)
  buddy := by
    refine List.find?_eq_none.mpr fun m hm hNamed => ?_
    obtain ⟨types, hTypes, rfl⟩ := List.mem_map.mp hm
    have hSame := congrArg Signature.parameters (Method.isNamed_iff.mp hNamed).2
    exact hBuddy (hSame ▸ hTypes)

private theorem countable_tower
    (h : ∀ types ∈ lists, 5 + ValueType.totalWidth types ≤ Register.maxIndex) :
    Countable ⟨[tower lists]⟩ (tower lists) := by
  refine ⟨fun m hm => ?_, fun m hm _ => ?_⟩
  · rw [overridable_tower] at hm
    cases hm
  · obtain ⟨types, hTypes, rfl⟩ := List.mem_map.mp hm
    exact h types hTypes

/-- A constructor that is redeclared may take more arguments than the buddy constructor has
registers for. -/
theorem genesisClass_tall {count : Nat} (hFits : 1 + count ≤ Register.maxIndex)
    (hTall : Register.maxIndex < 4 + count) (component : ComponentType) :
    genesisClass ⟨[tower [.replicate count (.base .int)]]⟩ component
      (tower [.replicate count (.base .int)]) = .error (.body .indexOverflow) := by
  have hWidth : ValueType.totalWidth (.replicate count (.base .int)) = count :=
    (ValueType.totalWidth_replicate count _).trans (Nat.mul_one count)
  have hSlots : (towerInit (.replicate count (.base .int))).signature.slots true ≤
      Register.maxIndex := by
    show 1 + ValueType.totalWidth (.replicate count (.base .int)) ≤ _
    rw [hWidth]
    exact hFits
  obtain ⟨n, hNew⟩ := exists_redeclare (tower [.replicate count (.base .int)]).name 0 hSlots
  obtain ⟨hIs, _⟩ := redeclared_of_eq_ok hNew
  have hNumber : numberOf n = .ok 0 := by
    rw [numberOf, hIs.genesisId]
  have hTarget : caseTarget n = .error .indexOverflow := by
    have hStart := caseStart_le n
    have hParameters : n.signature.parameters = .replicate count (.base .int) := by
      rw [hIs.signature]
      rfl
    have hAssign := Boxing.assign_eq .locals n.signature.parameters
      (show caseStart n ≤ Register.maxIndex by
        have hMax : Register.maxIndex = 0xFFFF := rfl
        omega)
    rw [hParameters, hWidth, if_neg (by omega)] at hAssign
    rw [caseTarget, hParameters]
    exact congrArg (· >>= _) hAssign
  have hOne : inheritable (tower [.replicate count (.base .int)]) =
      [towerInit (.replicate count (.base .int))] := by
    rw [inheritable, filter_tower]
    exact List.mergeSort_singleton _
  have hStubs : (overridable ⟨[tower [.replicate count (.base .int)]]⟩
      (tower [.replicate count (.base .int)])).mapM
        (stub (tower [.replicate count (.base .int)]).name) = .ok [] := by
    rw [overridable_tower]
    rfl
  simp [genesisClass, synthesize, hStubs, hOne, hNew, dispatcher, hNumber, hTarget,
    bind, Except.bind, Except.mapError, pure, Except.pure]

end Tower

/-- The class whose name has that many letters more than one. -/
def longName (count : Nat) : ClassName where
  text := .ofList (.replicate (count + 1) 'a')
  bounded := by simp [List.mem_replicate]

private theorem longName_injective {a b : Nat} (h : longName a = longName b) : a = b := by
  have hText : String.ofList (.replicate (a + 1) 'a') = .ofList (.replicate (b + 1) 'a') :=
    congrArg ClassName.text h
  have hLength := congrArg List.length (String.ofList_inj.mp hText)
  simpa using hLength

/-- Arguments for as many constructors as asked for. -/
def manyLists (count : Nat) : List (List ValueType) :=
  (List.range count).map fun k => [.object (longName k)]

private theorem regular_manyLists (count : Nat) : Regular (tower (manyLists count)) := by
  refine regular_tower (List.nodup_range.map fun a b hSame => ?_) fun hBuddy => ?_
  · have hName := ValueType.object.inj (List.cons.inj hSame).1
    exact longName_injective hName
  · obtain ⟨k, _, hSame⟩ := List.mem_map.mp hBuddy
    have hName : longName k = Interceptor.buddyInitContext :=
      ValueType.object.inj (List.cons.inj hSame).1
    have hSlash : '/' ∈ Interceptor.buddyInitContext.text.toList := by decide +kernel
    rw [← hName, longName, String.toList_ofList] at hSlash
    exact absurd (List.eq_of_mem_replicate hSlash) (by decide)

/-- However many constructors there are, each has its number, and in the tag what is left of the
number in 32 bits. -/
theorem exists_tagged {count k : Nat} (hk : k < count) :
    ∃ c n, Opens .activity (tower (manyLists count)) ⟨⟨[tower (manyLists count)]⟩, []⟩ c ∧
      n ∈ c.methods ∧ n.genesisId = some k ∧ n.tags = [⟨Interceptor.genesisInitTag,
        [(Interceptor.methodIdElement, .int (Int32.ofNat k))]⟩] := by
  have hCountable : Countable ⟨[tower (manyLists count)]⟩ (tower (manyLists count)) := by
    refine countable_tower fun types hTypes => ?_
    obtain ⟨k, _, rfl⟩ := List.mem_map.mp hTypes
    show 5 + 1 ≤ 0xFFFF
    decide
  obtain ⟨c, constructors, buddy, b, hClass, hInits, hRedeclares, -⟩ :=
    exists_genesisClass .activity (regular_manyLists count) hCountable
  have hLength : constructors.length = count := by
    rw [hRedeclares.length_eq, (inheritable_perm _).length_eq, filter_tower]
    simp [manyLists]
  have hAt : constructors[k]? = some _ := List.getElem?_eq_getElem (hLength.symm ▸ hk)
  obtain ⟨source, _, hNew⟩ := hRedeclares.get hAt
  obtain ⟨hIs, -⟩ := redeclared_of_eq_ok hNew
  have hSite : Unopened ⟨⟨[tower (manyLists count)]⟩, []⟩ (tower (manyLists count)) :=
    ⟨rfl, nofun, rfl⟩
  refine ⟨c, _, hSite.opens hClass, ?_, hIs.genesisId, hIs.tags⟩
  refine List.mem_of_mem_filter (p := (·.name.isInit)) ?_
  show _ ∈ inits c.methods
  rw [hInits]
  exact List.mem_append_left _ (List.mem_of_getElem? hAt)

/-- A class that has the name of a genesis class. -/
def tileImpostor : ClassDef where
  name := genesisName (.of "a/Tile")
  kind := .program
  access := { pub := true }

/-- Not every platform class gets a genesis class with its constructors under their numbers.  One
constructor may take more arguments than there are registers for, the name may be taken, and a
number that does not fit an `int` is another one in the tag. -/
theorem genesisClass_picksByNumber_fails :
    (Regular (tower [.replicate 65532 (.base .int)]) ∧
      ∀ component, genesisClass ⟨[tower [.replicate 65532 (.base .int)]]⟩ component
        (tower [.replicate 65532 (.base .int)]) = .error (.body .indexOverflow)) ∧
    (Regular tileClass ∧
      ∀ component, (openBoundary component tileClass).on ⟨⟨[tileClass, tileImpostor]⟩, []⟩ =
        (.error (.graph (.duplicateClass (genesisName tileClass.name))),
          ⟨⟨[tileClass, tileImpostor]⟩, []⟩)) ∧
    Regular (tower (manyLists 0x80000001)) ∧
      ∃ c n, Opens .activity (tower (manyLists 0x80000001))
          ⟨⟨[tower (manyLists 0x80000001)]⟩, []⟩ c ∧
        n ∈ c.methods ∧ n.genesisId = some 0x80000000 ∧ n.tags = [⟨Interceptor.genesisInitTag,
          [(Interceptor.methodIdElement, .int (-0x80000000))]⟩] := by
  have hTall : ∀ count, Regular (tower [.replicate (count + 2) (.base .int)]) := fun count =>
    regular_tower (List.nodup_singleton _) fun hBuddy => by
      have hOne := List.mem_singleton.mp hBuddy
      cases hOne
  refine ⟨⟨hTall 65530, genesisClass_tall (by decide) (by decide)⟩,
    ⟨regular_tileClass, fun component => ?_⟩, regular_manyLists _, ?_⟩
  · have hCountable : Countable ⟨[tileClass, tileImpostor]⟩ tileClass :=
      ⟨by decide +kernel, by decide +kernel⟩
    obtain ⟨c, hClass⟩ := hCountable.exists_genesisClass component
    exact openBoundary_taken (by decide +kernel) nofun (by decide +kernel) hClass
  · exact exists_tagged (by decide)

end Genesis

end HotPatch
