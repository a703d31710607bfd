import HotPatch.Proofs.Intercept.Shape
import HotPatch.Proofs.Program.Methods
import HotPatch.Proofs.Program.Sweeps

/-!
# Numbers and interception of one class

What a class is once its methods are numbered and intercepted, and what the
report says of it (`instrumentClass_eq_ok`).  Methods go by name and
signature, and a class that can be numbered at all has no two that can have
code and go by the same ones.
-/

namespace HotPatch

namespace Numbering

/-- The method with its number, counted from `next` in the given order. -/
def numberedFrom (next : Nat) (order : List Method) (m : Method) : Method :=
  { m with id := ((order.findIdx? (·.sameKey m)).map (· + next)).or m.id }

/-- The method with the number that its class gives it. -/
def numbered (c : ClassDef) (m : Method) : Method := numberedFrom 0 (ordered c) m

private theorem numberedFrom_cons (next : Nat) {first : Method} {rest : List Method}
    (hFirst : ∀ n ∈ rest, first.sameKey n = false) (m : Method) :
    numberedFrom (next + 1) rest
        (if m.isNamed first.name first.signature then { m with id := some next } else m) =
      numberedFrom next (first :: rest) m := by
  by_cases hKey : m.isNamed first.name first.signature = true
  · have hNone : rest.findIdx? (·.sameKey m) = none := by
      rw [List.findIdx?_eq_none_iff]
      intro n hn
      obtain ⟨hName, hSignature⟩ := Method.isNamed_iff.mp hKey
      rw [Method.sameKey_comm, Method.sameKey_congr hName hSignature]
      exact hFirst n hn
    have hNone' : rest.findIdx? (·.sameKey { m with id := some next }) = none := hNone
    have hSame : first.sameKey m = true := by rw [Method.sameKey_comm]; exact hKey
    simp [numberedFrom, hKey, hNone', List.findIdx?_cons, hSame]
  · have hOther : first.sameKey m = false := by
      rw [Method.sameKey_comm, ← Bool.not_eq_true]
      exact hKey
    have hShift : ((rest.findIdx? (·.sameKey m)).map (· + 1)).map (· + next) =
        (rest.findIdx? (·.sameKey m)).map (· + (next + 1)) := by
      rw [Option.map_map]
      refine congrArg (Option.map · _) (funext fun k => ?_)
      simp only [Function.comp_apply]
      omega
    rw [if_neg hKey, numberedFrom, numberedFrom, List.findIdx?_cons, hOther,
      if_neg Bool.false_ne_true, hShift]

/-- A number is given to a method that has none. -/
theorem assignId_eq_ok {c c' : ClassDef} {name : MemberName} {signature : Signature} {id : Nat}
    (h : c.assignId name signature id = .ok c') :
    (c.findMethod? name signature).bind (·.id) = none ∧
      c' = c.modifyMethod name signature fun m => { m with id := some id } := by
  unfold ClassDef.assignId at h
  split at h
  · cases h
  · next hNone =>
      cases h
      exact ⟨hNone, rfl⟩

/-- A change that leaves names alone changes the method that is found. -/
theorem findMethod?_map {c : ClassDef} {change : Method → Method}
    (hNamed : ∀ m name signature, (change m).isNamed name signature = m.isNamed name signature)
    (name : MemberName) (signature : Signature) :
    ({ c with methods := c.methods.map change } : ClassDef).findMethod? name signature =
      (c.findMethod? name signature).map change := by
  have hSame : (fun m : Method => m.isNamed name signature) ∘ change =
      fun m => m.isNamed name signature := by
    funext m
    exact hNamed m name signature
  rw [ClassDef.findMethod?, ClassDef.findMethod?, List.find?_map, hSame]

/-- Numbering a method hides no other one. -/
theorem findMethod?_assigned (c : ClassDef) (m : Method) (id : Nat) (name : MemberName)
    (signature : Signature) :
    (c.modifyMethod m.name m.signature fun m => { m with id := some id }).findMethod? name
        signature =
      (c.findMethod? name signature).map fun n =>
        if n.isNamed m.name m.signature then { n with id := some id } else n := by
  refine findMethod?_map (fun n name signature => ?_) name signature
  split <;> rfl

/-- Numbering one by one: every method that goes by a listed name has its number afterwards, and had
none before.  A second method of the name would find the number of the first. -/
theorem assignFrom_eq_ok {methods : List Method} :
    ∀ {next : Nat} {c c' : ClassDef},
      (∀ m ∈ methods, (c.findMethod? m.name m.signature).isSome = true) →
      (assignFrom next methods).on c = (.ok (), c') →
      Method.Apart methods ∧
        (∀ m ∈ methods, (c.findMethod? m.name m.signature).bind (·.id) = none) ∧
        c' = { c with methods := c.methods.map (numberedFrom next methods) } := by
  induction methods with
  | nil =>
      intro next c c' _ h
      cases h
      refine ⟨.nil, fun m hm => (List.not_mem_nil hm).elim, ?_⟩
      have hSame : numberedFrom next [] = id := rfl
      rw [hSame, List.map_id]
  | cons first rest ih =>
      intro next c c' hFound h
      obtain ⟨_, middle, hFirst, hRest⟩ := Pass.on_bind_eq_ok.mp h
      obtain ⟨hNone, rfl⟩ := assignId_eq_ok (Pass.on_atomic_eq_ok.mp hFirst)
      have hFind := findMethod?_assigned c first next
      obtain ⟨hApart, hUnnumbered, rfl⟩ := ih (fun m hm => by
        rw [hFind, Option.isSome_map]
        exact hFound m (List.mem_cons_of_mem first hm)) hRest
      have hOthers : ∀ n ∈ rest, first.sameKey n = false := by
        intro n hn
        rw [← Bool.not_eq_true]
        intro hSame
        obtain ⟨hName, hSignature⟩ := Method.sameKey_iff.mp hSame
        obtain ⟨x, hx⟩ := Option.isSome_iff_exists.mp (hFound n (List.mem_cons_of_mem first hn))
        have hIs : x.isNamed first.name first.signature = true := by
          rw [hName, hSignature]
          exact Method.isNamed_iff.mpr (ClassDef.named_of_findMethod? hx)
        have hHas := hUnnumbered n hn
        simp [hFind, hx, hIs] at hHas
      refine ⟨List.pairwise_cons.mpr ⟨hOthers, hApart⟩, fun m hm => ?_, ?_⟩
      · rcases List.mem_cons.mp hm with rfl | hm
        · exact hNone
        · have hHas := hUnnumbered m hm
          rw [hFind] at hHas
          cases hx : c.findMethod? m.name m.signature with
          | none => rfl
          | some x =>
              have hNot : x.isNamed first.name first.signature = false := by
                obtain ⟨hName, hSignature⟩ := ClassDef.named_of_findMethod? hx
                rw [Method.isNamed_eq_sameKey, Method.sameKey_congr hName hSignature,
                  Method.sameKey_comm]
                exact hOthers m hm
              rw [hx, Option.map_some, hNot, if_neg Bool.false_ne_true] at hHas
              exact hHas
      · simp only [ClassDef.modifyMethod, List.map_map]
        congr 1
        refine List.map_congr_left fun m _ => ?_
        exact numberedFrom_cons next hOthers m

/-- The order lists the methods that are to be numbered. -/
theorem mem_ordered {c : ClassDef} {m : Method} :
    m ∈ ordered c ↔ m ∈ c.methods ∧ retains c m = true := by
  rw [ordered, List.mem_mergeSort, List.mem_filter]

/-- In order, methods have the numbers from zero on. -/
theorem numbered_of_getElem? {c : ClassDef} (h : Method.Apart (ordered c)) {k : Nat} {m : Method}
    (hm : (ordered c)[k]? = some m) : numbered c m = { m with id := some k } := by
  rw [numbered, numberedFrom, h.findIdx? hm]
  rfl

/-- Each method gets its place in the order as its number. -/
theorem zipIdx_ordered {c : ClassDef} (h : Method.Apart (ordered c)) :
    (ordered c).zipIdx.map (fun p => { p.1 with id := some p.2 }) =
      (ordered c).map (numbered c) := by
  refine List.ext_getElem? fun k => ?_
  rw [List.getElem?_map, List.getElem?_map, List.getElem?_zipIdx, Option.map_map]
  cases hm : (ordered c)[k]? with
  | none => rfl
  | some m =>
      rw [Option.map_some, Option.map_some, numbered_of_getElem? h hm]
      simp

/-- **Numbering a class** closes it, and numbers the methods that can have code in their order. -/
theorem assign_eq_ok {c c' : ClassDef} {methods : List Method}
    (h : assign.on c = (.ok methods, c')) :
    Method.Apart (ordered c) ∧
      (∀ m ∈ ordered c, (c.findMethod? m.name m.signature).bind (·.id) = none) ∧
      methods = (ordered c).map (numbered c) ∧
      c' = { c with closed := true, methods := c.methods.map (numbered c) } := by
  obtain ⟨_, _, hClose, h⟩ := Pass.on_bind_eq_ok.mp h
  cases hClose
  rw [Pass.on_get_bind] at h
  obtain ⟨_, _, hAssign, hReturn⟩ := Pass.on_bind_eq_ok.mp h
  cases hReturn
  have hFound : ∀ m ∈ ordered c.close, (c.close.findMethod? m.name m.signature).isSome = true := by
    intro m hm
    rw [ClassDef.findMethod?, List.isSome_find?, List.any_eq_true]
    exact ⟨m, (mem_ordered.mp hm).1, Method.isNamed_iff.mpr ⟨rfl, rfl⟩⟩
  obtain ⟨hApart, hUnnumbered, rfl⟩ := assignFrom_eq_ok hFound hAssign
  exact ⟨hApart, hUnnumbered, zipIdx_ordered hApart, rfl⟩

end Numbering

namespace Instrument

open HotPatch.Numbering Intercept

/-! ## The way of a method -/

/-- What interception makes of a method, if it does anything to it. -/
def rewrite? (s : Settings) (superclass : Option ClassDef) (m : Method) : Option Method :=
  match route s superclass m with
  | .ok answer => answer
  | .error _ => none

/-- A method is intercepted in the way that suits it. -/
inductive Routed (s : Settings) (superclass : Option ClassDef) (m : Method) : Method → Prop where
  | staticInit {m' : Method} : m.isStaticInitializer = true → Intercept.staticInit m = .ok m' →
      Routed s superclass m m'
  | constructor {m' : Method} (form : InitForm) : m.isStaticInitializer = false →
      m.isConstructor = true → Intercept.constructor form superclass m = .ok m' →
      Routed s superclass m m'
  | method {m' : Method} : m.isStaticInitializer = false → m.isConstructor = false →
      Intercept.method (.classify s.shapes m) m = .ok m' → Routed s superclass m m'

/-- A method that is rewritten has code, and goes the way that the settings give. -/
theorem routed_of_rewrite? {s : Settings} {superclass : Option ClassDef} {m m' : Method}
    (h : rewrite? s superclass m = some m') :
    (∃ b, m.body = some b) ∧ Routed s superclass m m' := by
  have hRoute : route s superclass m = .ok (some m') := by
    unfold rewrite? at h
    split at h
    · next answer hAnswer => rw [hAnswer, h]
    · cases h
  unfold route at hRoute
  split at hRoute
  · cases hRoute
  · next hTouched =>
      simp only [Bool.or_eq_true, Bool.not_eq_true', not_or, Bool.not_eq_false] at hTouched
      refine ⟨Option.isSome_iff_exists.mp hTouched.2, ?_⟩
      split at hRoute
      · next hStatic => exact .staticInit hStatic (map_some_eq_ok hRoute)
      · next hStatic =>
          rw [Bool.not_eq_true] at hStatic
          split at hRoute
          · next hConstructor =>
              split at hRoute
              · cases hRoute
              · next form _ => exact .constructor form hStatic hConstructor (map_some_eq_ok hRoute)
          · next hConstructor =>
              rw [Bool.not_eq_true] at hConstructor
              exact .method hStatic hConstructor (map_some_eq_ok hRoute)

/-- The slot that an intercepted method tests. -/
theorem Routed.intercepted {s : Settings} {superclass : Option ClassDef} {m m' : Method}
    (h : Routed s superclass m m') : ∃ slot, Intercepted m slot m' := by
  cases h with
  | staticInit _ h => exact ⟨_, .staticInit h⟩
  | constructor form _ _ h => exact ⟨_, .constructor form superclass h⟩
  | method _ _ h => exact ⟨_, .method _ h⟩

/-- Whatever its way, only the body of a method changes. -/
theorem Routed.frame {s : Settings} {superclass : Option ClassDef} {m m' : Method}
    (h : Routed s superclass m m') : m' = { m with body := m'.body } := by
  obtain ⟨slot, hIntercepted⟩ := h.intercepted
  exact hIntercepted.body.1

/-! ## The methods of a class -/

/-- The method that stands where `m` stood, once `first` is intercepted. -/
def replacedOne (s : Settings) (superclass : Option ClassDef) (first m : Method) : Method :=
  if m.isNamed first.name first.signature then (rewrite? s superclass first).getD m else m

/-- The method that stands where `m` stood, once the listed ones are intercepted. -/
def replaced (s : Settings) (superclass : Option ClassDef) (methods : List Method) (m : Method) :
    Method :=
  ((methods.find? (·.sameKey m)).bind (rewrite? s superclass)).getD m

section

variable {s : Settings} {superclass : Option ClassDef}

/-- A method that no rewritten one stands for is left as it is. -/
theorem replaced_of_none {methods : List Method} {m : Method}
    (h : ∀ n ∈ methods, n.sameKey m = false) : replaced s superclass methods m = m := by
  have hNone : methods.find? (·.sameKey m) = none := by
    rw [List.find?_eq_none]
    intro n hn
    rw [h n hn]
    exact Bool.false_ne_true
  rw [replaced, hNone]
  rfl

private theorem replaced_of_mem {methods : List Method} (hApart : Method.Apart methods) {m : Method}
    (hm : m ∈ methods) :
    replaced s superclass methods m = (rewrite? s superclass m).getD m := by
  rw [replaced, hApart.find? hm, Option.bind_some]

/-- The first of the listed methods, and then the others. -/
theorem replaced_cons {first : Method} {rest : List Method}
    (hFirst : ∀ n ∈ rest, first.sameKey n = false) (m : Method) :
    replaced s superclass rest (replacedOne s superclass first m) =
      replaced s superclass (first :: rest) m := by
  by_cases hKey : m.isNamed first.name first.signature = true
  · obtain ⟨hName, hSignature⟩ := Method.isNamed_iff.mp hKey
    have hSame : first.sameKey m = true := by rw [Method.sameKey_comm]; exact hKey
    have hNew : replaced s superclass (first :: rest) m = (rewrite? s superclass first).getD m := by
      rw [replaced, List.find?_cons, hSame]
      rfl
    rw [replacedOne, if_pos hKey, hNew]
    refine replaced_of_none fun n hn => ?_
    have hStill : ((rewrite? s superclass first).getD m).name = first.name ∧
        ((rewrite? s superclass first).getD m).signature = first.signature := by
      cases hRewrite : rewrite? s superclass first with
      | none => exact ⟨hName, hSignature⟩
      | some m' =>
          rw [Option.getD_some, (routed_of_rewrite? hRewrite).2.frame]
          exact ⟨rfl, rfl⟩
    rw [Method.sameKey_comm, Method.sameKey_congr hStill.1 hStill.2]
    exact hFirst n hn
  · have hOther : first.sameKey m = false := by
      rw [Method.sameKey_comm, ← Bool.not_eq_true]
      exact hKey
    rw [replacedOne, if_neg hKey, replaced, replaced, List.find?_cons, hOther]

/-- The entry of a method in the report, by what interception makes of it. -/
def entry (s : Settings) (superclass : Option ClassDef) (m : Method) (id : Nat) : MethodReport :=
  methodReport s m id (rewrite? s superclass m).isSome

/-- Interception of one method after the other. -/
theorem interceptAll_eq_ok {methods : List Method} :
    ∀ {id : Nat} {c c' : ClassDef} {reports : List MethodReport}, Method.Apart methods →
      (interceptAll s superclass methods id).on c = (.ok reports, c') →
      reports = (methods.zipIdx id).map (fun p => entry s superclass p.1 p.2) ∧
        c' = { c with methods := c.methods.map (replaced s superclass methods) } := by
  induction methods with
  | nil =>
      intro id c c' reports _ h
      cases h
      have hSame : replaced s superclass [] = fun m => m := rfl
      exact ⟨rfl, by rw [hSame, List.map_id']⟩
  | cons first rest ih =>
      intro id c c' reports hApart h
      obtain ⟨hFirst, hRest⟩ := List.pairwise_cons.mp hApart
      have hStep : ∀ {middle : ClassDef} {report : MethodReport},
          report = entry s superclass first id →
          middle = { c with methods := c.methods.map (replacedOne s superclass first) } →
          Pass.on (do return report :: (← interceptAll s superclass rest (id + 1))) middle =
            (.ok reports, c') →
          reports = ((first :: rest).zipIdx id).map (fun p => entry s superclass p.1 p.2) ∧
            c' = { c with methods := c.methods.map (replaced s superclass (first :: rest)) } := by
        rintro middle report rfl rfl hOn
        obtain ⟨others, _, hOthers, hReturn⟩ := Pass.on_bind_eq_ok.mp hOn
        cases hReturn
        obtain ⟨rfl, rfl⟩ := ih hRest hOthers
        refine ⟨by rw [List.zipIdx_cons, List.map_cons], ?_⟩
        rw [List.map_map]
        congr 1
        exact List.map_congr_left fun m _ => replaced_cons hFirst m
      unfold interceptAll at h
      split at h
      · cases h
      · next hRoute =>
          have hNone : rewrite? s superclass first = none := by rw [rewrite?, hRoute]
          refine hStep (by rw [entry, hNone]; rfl) ?_ h
          have hSame : replacedOne s superclass first = fun m => m := by
            funext m
            rw [replacedOne, hNone, Option.getD_none, ite_self]
          rw [hSame, List.map_id']
      · next m' hRoute =>
          have hSome : rewrite? s superclass first = some m' := by rw [rewrite?, hRoute]
          obtain ⟨_, _, hModify, h⟩ := Pass.on_bind_eq_ok.mp h
          cases hModify
          refine hStep (by rw [entry, hSome]; rfl) ?_ h
          simp only [ClassDef.modifyMethod]
          congr 1
          refine List.map_congr_left fun m _ => ?_
          rw [replacedOne, hSome, Option.getD_some]

/-- **A class that is instrumented.**  It is closed, the methods that can have code are numbered in
their order, and each one stands there as interception leaves it; the report lists them. -/
structure Instrumented (s : Settings) (superclass : Option ClassDef) (c c' : ClassDef)
    (report : ClassReport) : Prop where
  apart : Method.Apart (ordered c)
  unnumbered : ∀ m ∈ ordered c, (c.findMethod? m.name m.signature).bind (·.id) = none
  methods : c' = { c with
    closed := true
    methods := c.methods.map fun m =>
      replaced s superclass ((ordered c).map (numbered c)) (numbered c m) }
  report : report = ⟨c.name,
    ((ordered c).map (numbered c)).zipIdx.map fun p => entry s superclass p.1 p.2⟩

private theorem apart_numbered {c : ClassDef} (h : Method.Apart (ordered c)) :
    Method.Apart ((ordered c).map (numbered c)) :=
  List.pairwise_map.mpr h

/-- What the instrumentation of one class comes to. -/
theorem instrumentClass_eq_ok {c c' : ClassDef} {report : ClassReport}
    (h : (instrumentClass s superclass).on c = (.ok report, c')) :
    Instrumented s superclass c c' report := by
  obtain ⟨methods, numberedClass, hAssign, h⟩ := Pass.on_bind_eq_ok.mp h
  obtain ⟨reports, _, hIntercept, h⟩ := Pass.on_bind_eq_ok.mp h
  rw [Pass.on_get_bind] at h
  cases h
  obtain ⟨hApart, hUnnumbered, rfl, rfl⟩ := assign_eq_ok hAssign
  obtain ⟨rfl, rfl⟩ := interceptAll_eq_ok (apart_numbered hApart) hIntercept
  refine ⟨hApart, hUnnumbered, ?_, rfl⟩
  rw [List.map_map]
  rfl

namespace Instrumented

variable {c c' : ClassDef} {report : ClassReport}

theorem name (h : Instrumented s superclass c c' report) : c'.name = c.name := by
  rw [h.methods]

/-- A method that can have code, when its class is instrumented: with its number, and intercepted
if interception does anything to it. -/
theorem mem_methods (h : Instrumented s superclass c c' report) {k : Nat} {m : Method}
    (hm : (ordered c)[k]? = some m) :
    (rewrite? s superclass { m with id := some k }).getD { m with id := some k } ∈
      c'.methods := by
  have hMem := List.mem_of_getElem? hm
  have hNumber := numbered_of_getElem? h.apart hm
  rw [h.methods]
  refine List.mem_map.mpr ⟨m, (mem_ordered.mp hMem).1, ?_⟩
  rw [replaced_of_mem (apart_numbered h.apart) (List.mem_map_of_mem hMem), hNumber]

/-- Whatever stands in the place of a method goes by its name. -/
theorem key_replaced (s : Settings) (superclass : Option ClassDef) (methods : List Method)
    (m : Method) :
    (replaced s superclass methods m).name = m.name ∧
      (replaced s superclass methods m).signature = m.signature := by
  rw [replaced]
  cases hFind : methods.find? (·.sameKey m) with
  | none => exact ⟨rfl, rfl⟩
  | some n =>
      rw [Option.bind_some]
      cases hRewrite : rewrite? s superclass n with
      | none => exact ⟨rfl, rfl⟩
      | some m' =>
          have hKey : n.sameKey m = true :=
            List.find?_some (p := fun n : Method => n.sameKey m) hFind
          rw [Option.getD_some, (routed_of_rewrite? hRewrite).2.frame]
          exact Method.sameKey_iff.mp hKey

end Instrumented

end

end Instrument

/-! ## All classes -/

namespace Instrument

section

variable {s : Settings} {g g' : ClassGraph} {reports : List ClassReport}

/-- Each class of the program has its report, in the order of the classes. -/
theorem instrumentClasses_answered (h : (instrumentClasses s).on g = (.ok reports, g')) :
    Answered Slots.selects (fun c => instrumentClass s (g.parent? c)) g.classes reports
      g'.classes := by
  unfold instrumentClasses at h
  rw [Pass.on_get_bind] at h
  exact sweep_answered h

/-- The class of a name, when all classes are instrumented that are not left alone. -/
theorem exists_instrumented (h : (instrumentClasses s).on g = (.ok reports, g')) {n : ClassName}
    {c : ClassDef} (hFind : g.find? n = some c) :
    ∃ c', g'.find? n = some c' ∧
      (Slots.selects c = false ∧ c' = c ∨
        Slots.selects c = true ∧ ∃ report ∈ reports,
          Instrumented s (g.parent? c) c c' report) := by
  obtain ⟨c', hFind', hWhich⟩ := (instrumentClasses_answered h).exists_find?
    (fun c => keepsName_instrumentClass s (g.parent? c)) hFind
  refine ⟨c', hFind', hWhich.imp_right ?_⟩
  rintro ⟨hSelect, report, hReport, hOn⟩
  exact ⟨hSelect, report, hReport, instrumentClass_eq_ok hOn⟩

end

end Instrument

end HotPatch
