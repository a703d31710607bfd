import HotPatch.Proofs.Descriptor.Rendering
import HotPatch.Proofs.Instrument.OneClass

/-!
# The numbers of the methods of a class

A class whose methods go by different names and have no numbers yet can
always be numbered, and its methods that can have code get the numbers from
zero on.  They count in the byte order of names and then of descriptors.
Different signatures have different texts, so that order is strict, and a
number is a matter of what the class declares and not of where it stands in
the class (`assign_counts`).
-/

namespace HotPatch.Numbering

/-- The method can have code: it is neither abstract nor native, and not of an interface. -/
def HasCode (c : ClassDef) (m : Method) : Prop :=
  c.isInterface = false ∧ m.access.isAbstract = false ∧ m.access.isNative = false

private theorem retains_iff {c : ClassDef} {m : Method} : retains c m = true ↔ HasCode c m := by
  simp [retains, HasCode, and_assoc]

/-! ## The strict order of methods -/

/-- Strict byte order on pairs of texts: the first component decides, then the second. -/
def Before (a b : String × String) : Prop :=
  Text.bytes a.1 < Text.bytes b.1 ∨ a.1 = b.1 ∧ Text.bytes a.2 < Text.bytes b.2

private theorem Before.asymm {a b : String × String} (h : Before a b) : ¬ Before b a := by
  rintro (hFirst' | ⟨hFirst', hSecond'⟩)
  · rcases h with hFirst | ⟨hFirst, -⟩
    · exact List.lt_asymm hFirst hFirst'
    · rw [hFirst] at hFirst'
      exact List.lt_irrefl _ hFirst'
  · rcases h with hFirst | ⟨-, hSecond⟩
    · rw [hFirst'] at hFirst
      exact List.lt_irrefl _ hFirst
    · exact List.lt_asymm hSecond hSecond'

private theorem bytes_lt_of_byteLe {a b : String} (hLe : Text.byteLe a b = true) (hNe : a ≠ b) :
    Text.bytes a < Text.bytes b := by
  rw [← List.not_le]
  intro hGe
  exact hNe (Text.byteLe_antisymm hLe (decide_eq_true hGe))

private theorem before_of_byteLePair {a b : String × String} (hLe : Text.byteLePair a b = true)
    (hNe : a ≠ b) : Before a b := by
  unfold Text.byteLePair at hLe
  split at hLe
  · next hFirst =>
      exact .inr ⟨hFirst, bytes_lt_of_byteLe hLe fun hSecond => hNe (Prod.ext hFirst hSecond)⟩
  · next hFirst => exact .inl (bytes_lt_of_byteLe hLe hFirst)

/-- Methods that go by different names have different keys. -/
theorem sameKey_of_key_eq {m n : Method} (hKey : key m = key n) : m.sameKey n = true := by
  obtain ⟨hText, hRender⟩ := Prod.mk.inj hKey
  exact Method.sameKey_iff.mpr ⟨congrArg MemberName.mk hText, Signature.render_inj hRender⟩

private theorem perm_ordered (c : ClassDef) : (ordered c).Perm (c.methods.filter (retains c)) :=
  List.mergeSort_perm _ _

private theorem apart_ordered {c : ClassDef} (h : Method.Apart c.methods) : Method.Apart
    (ordered c) := by
  refine (List.Perm.pairwise_iff ?_ (perm_ordered c)).mpr (h.filter _)
  intro m n hmn
  rw [Method.sameKey_comm]
  exact hmn

private theorem pairwise_ordered {c : ClassDef} (hApart : Method.Apart c.methods) :
    (ordered c).Pairwise fun m n => Before (key m) (key n) := by
  have hSorted : (ordered c).Pairwise fun m n => Text.byteLePair (key m) (key n) = true := by
    refine List.pairwise_mergeSort ?_ ?_ _
    · intro _ _ _ hab hbc
      exact Text.byteLePair_trans hab hbc
    · intro _ _
      exact Text.byteLePair_total _ _
  refine (hSorted.and (apart_ordered hApart)).imp fun {m n} h => ?_
  refine before_of_byteLePair h.1 fun hKey => ?_
  have hSame := sameKey_of_key_eq hKey
  rw [h.2] at hSame
  cases hSame

/-! ## Numbering succeeds -/

/-- Methods that go by different names and have no numbers are numbered one by one. -/
theorem exists_assignFrom {methods : List Method} :
    ∀ {next : Nat} {c : ClassDef}, Method.Apart methods →
      (∀ m ∈ methods, (c.findMethod? m.name m.signature).bind (·.id) = none) →
      ∃ c', (assignFrom next methods).on c = (.ok (), c') := by
  induction methods with
  | nil =>
      intro next c _ _
      exact ⟨c, rfl⟩
  | cons first rest ih =>
      intro next c hApart hNew
      obtain ⟨hFirst, hRest⟩ := List.pairwise_cons.mp hApart
      have hStep : c.assignId first.name first.signature next =
          .ok (c.modifyMethod first.name first.signature fun m => { m with id := some next }) := by
        rw [ClassDef.assignId, hNew first List.mem_cons_self]
      have hOthers : ∀ n ∈ rest,
          ((c.modifyMethod first.name first.signature fun m =>
            { m with id := some next }).findMethod? n.name n.signature).bind (·.id) = none := by
        intro n hn
        rw [findMethod?_assigned]
        have hNone := hNew n (List.mem_cons_of_mem first hn)
        cases hFound : c.findMethod? n.name n.signature with
        | none => rfl
        | some x =>
            obtain ⟨hName, hSignature⟩ := ClassDef.named_of_findMethod? hFound
            have hNot : x.isNamed first.name first.signature = false := by
              rw [Method.isNamed_eq_sameKey, Method.sameKey_congr hName hSignature,
                Method.sameKey_comm]
              exact hFirst n hn
            rw [Option.map_some, hNot, if_neg Bool.false_ne_true, ← hFound]
            exact hNone
      obtain ⟨c', h⟩ := ih hRest hOthers
      exact ⟨c', Pass.on_bind_eq_ok.mpr ⟨(), _, Pass.on_atomic_eq_ok.mpr hStep, h⟩⟩

/-- Numbering a class succeeds, and gives each method the number of its place in the order. -/
theorem assign_on {c : ClassDef} (hApart : Method.Apart c.methods)
    (hNew : ∀ m ∈ c.methods, m.id = none) :
    assign.on c = (.ok ((ordered c).map (numbered c)),
      { c with closed := true, methods := c.methods.map (numbered c) }) := by
  have hFound : ∀ m ∈ ordered c.close,
      (c.close.findMethod? m.name m.signature).bind (·.id) = none := by
    intro m _
    cases hFind : c.close.findMethod? m.name m.signature with
    | none => rfl
    | some x => exact hNew x (List.mem_of_find?_eq_some hFind)
  obtain ⟨c', hAssign⟩ : ∃ c', (assignFrom 0 (ordered c.close)).on c.close = (.ok (), c') :=
    exists_assignFrom (apart_ordered hApart) hFound
  have hOn : assign.on c = (.ok ((ordered c.close).zipIdx.map fun p => { p.1 with id := some p.2 }),
      c') := by
    refine Pass.on_bind_eq_ok.mpr ⟨⟨⟩, c.close, rfl, ?_⟩
    rw [Pass.on_get_bind]
    exact Pass.on_bind_eq_ok.mpr ⟨(), c', hAssign, rfl⟩
  obtain ⟨-, -, hAnswer, hClass⟩ := assign_eq_ok hOn
  rw [hOn, hAnswer, hClass]

/-! ## Numbers and places -/

section Places

variable {c : ClassDef} {m : Method} {k : Nat}

/-- The number of a method is its place in the order. -/
theorem id_numbered_eq_some (hApart : Method.Apart c.methods) (hm : m ∈ c.methods)
    (hNew : m.id = none) : (numbered c m).id = some k ↔ (ordered c)[k]? = some m := by
  constructor
  · intro h
    have hIndex : (ordered c).findIdx? (·.sameKey m) = some k := by
      simpa [numbered, numberedFrom, hNew] using h
    obtain ⟨hk, hSame, -⟩ := List.findIdx?_eq_some_iff_getElem.mp hIndex
    have hAt : (ordered c)[k]? = some (ordered c)[k] := List.getElem?_eq_getElem hk
    have hMem : (ordered c)[k] ∈ c.methods := (mem_ordered.mp (List.getElem_mem hk)).1
    rw [hAt, hApart.eq_of_isNamed hm hMem hSame]
  · intro h
    rw [numbered_of_getElem? (apart_ordered hApart) h]

/-- Exactly the methods that can have code have a number. -/
theorem isSome_id_numbered (hApart : Method.Apart c.methods) (hm : m ∈ c.methods)
    (hNew : m.id = none) : (numbered c m).id.isSome = true ↔ HasCode c m := by
  rw [Option.isSome_iff_exists, ← retains_iff]
  constructor
  · rintro ⟨k, hk⟩
    exact (mem_ordered.mp (List.mem_of_getElem?
      ((id_numbered_eq_some hApart hm hNew).mp hk))).2
  · intro hRetains
    obtain ⟨k, hk⟩ := List.mem_iff_getElem?.mp (mem_ordered.mpr ⟨hm, hRetains⟩)
    exact ⟨k, (id_numbered_eq_some hApart hm hNew).mpr hk⟩

private theorem ids_ordered (hApart : Method.Apart c.methods) :
    ((ordered c).map (numbered c)).map (·.id) = (List.range (ordered c).length).map some := by
  rw [← zipIdx_ordered (apart_ordered hApart), List.map_map, List.range_eq_range',
    ← List.zipIdx_map_snd, List.map_map]
  rfl

/-- The numbers of all methods are those from zero on, each once.  Methods without code have none.
-/
theorem perm_ids (hApart : Method.Apart c.methods) (hNew : ∀ m ∈ c.methods, m.id = none) :
    ((c.methods.map (numbered c)).filterMap (·.id)).Perm (List.range (ordered c).length) := by
  have hFilter : c.methods.filterMap (fun m => (numbered c m).id) =
      (c.methods.filter (retains c)).filterMap fun m => (numbered c m).id := by
    rw [List.filterMap_filter]
    refine List.filterMap_congr fun m hm => ?_
    split
    · rfl
    · next hRetains =>
        rw [← Option.not_isSome_iff_eq_none, isSome_id_numbered hApart hm (hNew m hm),
          ← retains_iff]
        exact hRetains
  have hOrdered : (ordered c).filterMap (fun m => (numbered c m).id) =
      List.range (ordered c).length := by
    have hIds := congrArg (List.filterMap id) (ids_ordered hApart)
    simpa [List.filterMap_map, Function.comp_def] using hIds
  rw [List.filterMap_map, ← hOrdered]
  exact hFilter ▸ ((perm_ordered c).filterMap _).symm

/-- Numbers go up with the order of the methods. -/
theorem lt_iff_before (hApart : Method.Apart c.methods) {n : Method} {i j : Nat}
    (hi : (ordered c)[i]? = some m) (hj : (ordered c)[j]? = some n) :
    i < j ↔ Before (key m) (key n) := by
  have hSorted := List.pairwise_iff_getElem.mp (pairwise_ordered hApart)
  obtain ⟨hi', rfl⟩ := List.getElem?_eq_some_iff.mp hi
  obtain ⟨hj', rfl⟩ := List.getElem?_eq_some_iff.mp hj
  constructor
  · exact hSorted i j hi' hj'
  · intro h
    rcases Nat.lt_trichotomy i j with hLt | rfl | hGt
    · exact hLt
    · exact absurd h h.asymm
    · exact absurd h (hSorted j i hj' hi' hGt).asymm

end Places

/-! ## Numbers and declarations -/

/-- What a number depends on. -/
def declaration (m : Method) : MemberName × Signature × MethodAccess :=
  (m.name, m.signature, m.access)

section Declarations

variable {c d : ClassDef}

/-- The two classes declare the same methods, each in an order of its own. -/
def SameDeclarations (c d : ClassDef) : Prop :=
  (c.methods.map declaration).Perm (d.methods.map declaration)

/-- Whether methods can be told apart shows in the declarations. -/
theorem SameDeclarations.apart (h : SameDeclarations c d) (hApart : Method.Apart c.methods) :
    Method.Apart d.methods := by
  have hKeys := h.map fun p => (p.1, p.2.1)
  rw [List.map_map, List.map_map] at hKeys
  rw [Method.apart_iff_nodup] at hApart ⊢
  exact hKeys.nodup_iff.mp hApart

/-- Classes of one kind that declare the same methods have them in the same order.  Both are sorted
by one strict order, which only reads the declarations. -/
theorem SameDeclarations.ordered_eq (h : SameDeclarations c d)
    (hKind : c.isInterface = d.isInterface) (hApart : Method.Apart c.methods) :
    (ordered c).map declaration = (ordered d).map declaration := by
  let keeps : MemberName × Signature × MethodAccess → Bool := fun p =>
    !c.isInterface && !p.2.2.isAbstract && !p.2.2.isNative
  have hFilter : ∀ e : ClassDef, e.isInterface = c.isInterface →
      ((ordered e).map declaration).Perm ((e.methods.map declaration).filter keeps) := by
    intro e he
    have hKeeps : keeps ∘ declaration = retains e := by
      funext m
      simp only [keeps, declaration, retains, Function.comp_apply, he]
    rw [List.filter_map, hKeeps]
    exact (perm_ordered e).map declaration
  have hPerm : ((ordered c).map declaration).Perm ((ordered d).map declaration) :=
    ((hFilter c rfl).trans (h.filter keeps)).trans (hFilter d hKind.symm).symm
  have hSorted : ∀ e : ClassDef, Method.Apart e.methods → ((ordered e).map declaration).Pairwise
      fun p q => Before (p.1.text, p.2.1.render) (q.1.text, q.2.1.render) := by
    intro e hApart
    exact List.pairwise_map.mpr (pairwise_ordered hApart)
  exact hPerm.eq_of_pairwise (fun p q _ _ hpq hqp => absurd hqp hpq.asymm)
    (hSorted c hApart) (hSorted d (h.apart hApart))

/-- A method stands in the order where its namesake stands in the other class. -/
theorem SameDeclarations.getElem?_ordered (h : SameDeclarations c d)
    (hKind : c.isInterface = d.isInterface) (hApart : Method.Apart c.methods)
    {m n : Method} (hn : n ∈ d.methods) (hSame : m.sameKey n = true) {k : Nat}
    (hk : (ordered c)[k]? = some m) : (ordered d)[k]? = some n := by
  have hAt : ((ordered c)[k]?).map declaration = ((ordered d)[k]?).map declaration := by
    rw [← List.getElem?_map, ← List.getElem?_map, h.ordered_eq hKind hApart]
  rw [hk, Option.map_some, eq_comm, Option.map_eq_some_iff] at hAt
  obtain ⟨x, hx, hDeclared⟩ := hAt
  obtain ⟨hName, hRest⟩ := Prod.mk.inj hDeclared
  obtain ⟨hSignature, -⟩ := Prod.mk.inj hRest
  have hNamed : x.isNamed n.name n.signature = true := by
    rw [Method.isNamed_eq_sameKey, Method.sameKey_congr hName hSignature]
    exact hSame
  rw [hx, (h.apart hApart).eq_of_isNamed hn (mem_ordered.mp (List.mem_of_getElem? hx)).1 hNamed]

/-- Methods of one name and signature have one number in classes of one kind. -/
theorem SameDeclarations.id_eq (h : SameDeclarations c d)
    (hKind : c.isInterface = d.isInterface) (hApart : Method.Apart c.methods)
    (hNew : ∀ m ∈ c.methods, m.id = none) (hNew' : ∀ n ∈ d.methods, n.id = none) {m n : Method}
    (hm : m ∈ c.methods) (hn : n ∈ d.methods) (hSame : m.sameKey n = true) :
    (numbered c m).id = (numbered d n).id := by
  have hBack : SameDeclarations d c := h.symm
  refine Option.ext fun k => ?_
  rw [id_numbered_eq_some hApart hm (hNew m hm),
    id_numbered_eq_some (h.apart hApart) hn (hNew' n hn)]
  constructor
  · exact h.getElem?_ordered hKind hApart hn hSame
  · rw [Method.sameKey_comm] at hSame
    exact hBack.getElem?_ordered hKind.symm (h.apart hApart) hm hSame

end Declarations

/-! ## What numbering does -/

/-- What numbering makes of a class: the answer has the methods with a number, in order. -/
structure Counts (c c' : ClassDef) (answer : List Method) : Prop where
  /-- The class is closed, and nothing but the numbers of its methods changes. -/
  closes : ∃ number : Method → Option Nat,
    c' = { c with
      closed := true
      methods := c.methods.map fun m => { m with id := number m } }
  /-- Exactly the methods that can have code have a number. -/
  given : ∀ m ∈ c'.methods, m.id.isSome = true ↔ HasCode c m
  /-- The numbers are those from zero on, one each. -/
  dense : (c'.methods.filterMap (·.id)).Perm (List.range answer.length)
  /-- Numbers go strictly up in the byte order of names and descriptors. -/
  increasing : ∀ m ∈ c'.methods, ∀ n ∈ c'.methods, ∀ i j, m.id = some i → n.id = some j →
    (i < j ↔ Before (m.name.text, m.signature.render) (n.name.text, n.signature.render))
  listed : ∀ m, m ∈ answer ↔ m ∈ c'.methods ∧ m.id.isSome = true
  sorted : answer.map (·.id) = (List.range answer.length).map some

private theorem counts_numbered {c : ClassDef} (hApart : Method.Apart c.methods)
    (hNew : ∀ m ∈ c.methods, m.id = none) :
    Counts c { c with closed := true, methods := c.methods.map (numbered c) }
      ((ordered c).map (numbered c)) where
  closes := ⟨fun m => (numbered c m).id, rfl⟩
  given := by
    intro m' hm'
    obtain ⟨m, hm, rfl⟩ := List.mem_map.mp hm'
    exact isSome_id_numbered hApart hm (hNew m hm)
  dense := by
    rw [List.length_map]
    exact perm_ids hApart hNew
  increasing := by
    intro m' hm' n' hn' i j hi hj
    obtain ⟨m, hm, rfl⟩ := List.mem_map.mp hm'
    obtain ⟨n, hn, rfl⟩ := List.mem_map.mp hn'
    have hLt := lt_iff_before hApart ((id_numbered_eq_some hApart hm (hNew m hm)).mp hi)
      ((id_numbered_eq_some hApart hn (hNew n hn)).mp hj)
    exact hLt
  listed := by
    intro m'
    rw [List.mem_map, List.mem_map]
    constructor
    · rintro ⟨m, hm, rfl⟩
      obtain ⟨hMem, hRetains⟩ := mem_ordered.mp hm
      exact ⟨⟨m, hMem, rfl⟩,
        (isSome_id_numbered hApart hMem (hNew m hMem)).mpr (retains_iff.mp hRetains)⟩
    · rintro ⟨⟨m, hm, rfl⟩, hSome⟩
      have hCode := (isSome_id_numbered hApart hm (hNew m hm)).mp hSome
      exact ⟨m, mem_ordered.mpr ⟨hm, retains_iff.mpr hCode⟩, rfl⟩
  sorted := by
    rw [List.length_map]
    exact ids_ordered hApart

/-- **Numbers are dense and do not depend on the order of declaration.**  Numbering a class
succeeds if its methods go by different names and have no numbers yet.  Another class that declares
the same methods in any order gives each name and signature the same number, as far as both give
one; only an interface and a class that is none differ in that. -/
theorem assign_counts {c : ClassDef} (hApart : Method.Apart c.methods)
    (hNew : ∀ m ∈ c.methods, m.id = none) :
    ∃ c' answer, assign.on c = (.ok answer, c') ∧ Counts c c' answer ∧
      ∀ d : ClassDef, SameDeclarations c d → (∀ n ∈ d.methods, n.id = none) →
        ∃ d' answer', assign.on d = (.ok answer', d') ∧ Counts d d' answer' ∧
          ∀ m ∈ c'.methods, ∀ n ∈ d'.methods, m.name = n.name → m.signature = n.signature →
            (c.isInterface = d.isInterface → m.id = n.id) ∧
              ∀ i j, m.id = some i → n.id = some j → i = j := by
  refine ⟨_, _, assign_on hApart hNew, counts_numbered hApart hNew, ?_⟩
  intro d hSame hNew'
  have hApart' := hSame.apart hApart
  have hCounts' := counts_numbered hApart' hNew'
  refine ⟨_, _, assign_on hApart' hNew', hCounts', ?_⟩
  intro m' hm' n' hn' hName hSignature
  obtain ⟨m, hm, rfl⟩ := List.mem_map.mp hm'
  obtain ⟨n, hn, rfl⟩ := List.mem_map.mp hn'
  have hKey : m.sameKey n = true := Method.sameKey_iff.mpr ⟨hName, hSignature⟩
  have hEq : c.isInterface = d.isInterface → (numbered c m).id = (numbered d n).id := fun hKind =>
    hSame.id_eq hKind hApart hNew hNew' hm hn hKey
  refine ⟨hEq, fun i j hi hj => ?_⟩
  have hCode : HasCode c m :=
    (isSome_id_numbered hApart hm (hNew m hm)).mp (Option.isSome_of_eq_some hi)
  have hCode' : HasCode d n :=
    (isSome_id_numbered hApart' hn (hNew' n hn)).mp (Option.isSome_of_eq_some hj)
  have hId := hEq (hCode.1.trans hCode'.1.symm)
  rw [hi, hj] at hId
  exact Option.some.inj hId

def mainMethod (name : String) (signature : Signature) (access : MethodAccess) : Method where
  owner := .of "a/Main"
  name := ⟨name⟩
  signature := signature
  access := access

/-- Three methods with one name, one with another, and two that can have no code. -/
def mainMethods : List Method :=
  [mainMethod "run" (.void [.base .long]) { pub := true },
    mainMethod "run" (.void [.object .string]) { pub := true },
    mainMethod "run" (.void [.base .int]) { pub := true },
    mainMethod "check" ⟨[], some (.base .boolean)⟩ { pub := true },
    mainMethod "render" (.void []) { pub := true, isAbstract := true },
    mainMethod "hash" ⟨[], some (.base .int)⟩ { pub := true, isNative := true }]

def mainClass (methods : List Method) : ClassDef where
  name := .of "a/Main"
  kind := .program
  access := { pub := true, isAbstract := true }
  methods := methods

/-- The same methods have the same numbers when they are declared the other way round. -/
theorem assign_counts_main : ∃ c' d' answer answer',
    assign.on (mainClass mainMethods) = (.ok answer, c') ∧
      assign.on (mainClass mainMethods.reverse) = (.ok answer', d') ∧
      Counts (mainClass mainMethods) c' answer ∧
      c'.methods.map (·.id) = [some 2, some 3, some 1, some 0, none, none] ∧
      d'.methods.map (·.id) = [none, none, some 0, some 1, some 3, some 2] := by
  have hApart : Method.Apart mainMethods := Method.apart_iff_nodup.mpr (by decide +kernel)
  obtain ⟨c', answer, hOn, hCounts, hOther⟩ :=
    assign_counts (c := mainClass mainMethods) hApart (by decide +kernel)
  obtain ⟨d', answer', hOn', -, -⟩ :=
    hOther (mainClass mainMethods.reverse) ((List.reverse_perm _).symm.map _) (by decide +kernel)
  have hIds : ∀ methods : List Method, ∀ e found, assign.on (mainClass methods) = (.ok found, e) →
      e.methods.map (·.id) = (assign.on (mainClass methods)).2.methods.map (·.id) := by
    intro methods e found h
    rw [h]
  refine ⟨c', d', answer, answer', hOn, hOn', hCounts, ?_, ?_⟩
  · rw [hIds _ c' answer hOn]
    unfold assign
    rw [ordered_eq]
    decide +kernel
  · rw [hIds _ d' answer' hOn']
    unfold assign
    rw [ordered_eq]
    decide +kernel

end HotPatch.Numbering
