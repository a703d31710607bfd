import HotPatch.Proofs.Instrument.OneClass
import HotPatch.Proofs.Program.Consistency

/-!
# Requests that are refused

A request to a program is an operation, or the interception of one method.  Here
every request is also given as a pass that looks and writes step by step, each
write to one cell of the program (`Request.inPlace`).  All that can stop a request
comes before its first write, so one that is refused leaves the program as it
found it; one that is carried out leaves what the request in one piece answers
(`Request.refused_unchanged`).
-/

namespace HotPatch

open ClassGraph

/-- A way to intercept one method. -/
inductive Interception where
  | method (dispatch : Dispatch)
  | constructor (form : Intercept.InitForm)
  | staticInit

/-- A request to a program that may be refused. -/
inductive Request where
  | operation (op : Operation)
  | intercept (method : MethodRef) (how : Interception)

/-- The method, intercepted; it may take a look at the direct superclass. -/
def Interception.apply (how : Interception) (superclass : Option ClassDef) (m : Method) :
    Except Fault Method :=
  match how with
  | .method dispatch => Intercept.method dispatch m
  | .constructor form => Intercept.constructor form superclass m
  | .staticInit => Intercept.staticInit m

/-- The program after a request, if it is not refused. -/
def Request.apply (request : Request) (g : ClassGraph) : Except Fault ClassGraph :=
  match request with
  | .operation op => (op.apply g).mapError Fault.graph
  | .intercept method how => Instrument.updateMethod g method how.apply

/-! ## Steps -/

namespace Pass

/-- Go on with an answer, or stop at the fault. -/
def demand {σ α : Type} (answer : Except Fault α) : Pass σ α :=
  match answer with
  | .ok a => return a
  | .error e => throw e

/-- Look something up in the program. -/
def look {α : Type} (ask : ClassGraph → Except GraphError α) : Pass ClassGraph α := do
  demand ((ask (← get)).mapError Fault.graph)

/-- See that a superclass is there, where there is one. -/
def lookAbove (superclass : Option ClassName) : Pass ClassGraph Unit :=
  match superclass with
  | none => pure ()
  | some s => do let _ ← look (·.get s)

/-- Write to the list of subclasses of a superclass, where there is one. -/
def writeAbove (superclass : Option ClassName) (write : ClassGraph → ClassName → ClassGraph) :
    Pass ClassGraph Unit :=
  match superclass with
  | none => pure ()
  | some s => modify (write · s)

/-- Write to a class that was found, unless it is closed. -/
def writeOpen (c : ClassDef) (edit : Edit) (write : ClassDef → ClassDef) :
    Pass ClassGraph Unit :=
  if c.closed then throw (.graph (.closed c.name edit)) else modify (·.modify c.name write)

/-- Write the body of a method. -/
def writeBody (method : MethodRef) (body : Body) : Pass ClassGraph Unit :=
  modify (·.modify method.owner (·.modifyMethod method.name method.signature fun m =>
    { m with body := some body }))

end Pass

open Pass

/-! ## Requests step by step -/

/-- Add a class: it is listed, and then its superclass lists it. -/
def addInPlace (c : ClassDef) : Pass ClassGraph Unit := do
  lookAbove c.superclass
  let known ← look fun g => .ok (g.find? c.name).isSome
  if known then throw (.graph (.duplicateClass c.name))
  else
    modify fun g => ⟨g.classes ++ [{ c with subclasses := [] }]⟩
    writeAbove c.superclass (·.link · c.name)

/-- An operation, step by step. -/
def Operation.inPlace : Operation → Pass ClassGraph Unit
  | .addClass c => addInPlace c.bare
  | .addMethod m => do
      let c ← look (·.get m.owner)
      match c.findMethod? m.name m.signature with
      | some _ => pure ()
      | none =>
          writeOpen c (.addMethod m.name) fun c =>
            { c with methods := c.methods ++ [{ m with owner := c.name }] }
  | .addField f => do
      let c ← look (·.get f.owner)
      match c.findField? f.name with
      | some _ => pure ()
      | none =>
          writeOpen c (.addField f.name) fun c =>
            { c with fields := c.fields ++ [{ f with owner := c.name }] }
  | .reparent name s => do
      let c ← look (·.get name)
      let _ ← look (·.get s)
      writeAbove c.superclass (·.unlink · name)
      modify (·.modify name fun c => { c with superclass := some s })
      modify (·.link s name)
  | .close name => do
      let c ← look (·.get name)
      modify (·.modify c.name ClassDef.close)
  | .setAccess name access => do
      let c ← look (·.get name)
      writeOpen c .classAccess fun c => { c with access }
  | .setMethodAccess method access => do
      let _ ← look (·.getMethod method)
      let c ← look (·.get method.owner)
      writeOpen c (.memberAccess method.name) (·.modifyMethod method.name method.signature fun m =>
        { m with access })
  | .setFieldAccess owner name access => do
      let _ ← look (·.getField owner name)
      let c ← look (·.get owner)
      writeOpen c (.memberAccess name) fun c =>
        { c with fields := c.fields.map fun f => if f.name = name then { f with access } else f }
  | .assignId method id => do
      let m ← look (·.getMethod method)
      match m.id with
      | some _ => throw (.graph (.closed method.owner (.methodId method.name)))
      | none =>
          modify (·.modify method.owner (·.modifyMethod method.name method.signature fun m =>
            { m with id := some id }))

/-- The number of a method, which it must have. -/
def Method.number (m : Method) : Except Fault Nat :=
  match m.id with
  | some id => .ok id
  | none => .error (.missingMethodId m.ref)

/-- The interception of a method that was found, step by step. -/
def Interception.inPlace (how : Interception) (method : MethodRef) (superclass : Option ClassDef)
    (m : Method) : Pass ClassGraph Unit :=
  match how with
  | .method dispatch => do
      let id ← demand m.number
      match m.body with
      | none => pure ()
      | some b =>
          let b' ← demand ((Intercept.methodBody m id dispatch b).mapError Fault.body)
          writeBody method b'
  | .constructor form => do
      let id ← demand m.number
      match m.body with
      | none => pure ()
      | some b =>
          let call ← demand (Delegation.find (superclass.map (·.name)) m b)
          let buddy ← demand (Intercept.buddyTarget form m.owner superclass)
          let b' ← demand ((Intercept.constructorBody m id call.method buddy b).mapError Fault.body)
          writeBody method b'
  | .staticInit => do
      match m.body with
      | none => pure ()
      | some b =>
          let b' ← demand ((Intercept.staticInitBody m.owner b).mapError Fault.body)
          writeBody method b'

/-- A request, step by step. -/
def Request.inPlace : Request → Pass ClassGraph Unit
  | .operation op => op.inPlace
  | .intercept method how => do
      let c ← look (·.get method.owner)
      let m ← look (·.getMethod method)
      let superclass ← look fun g => .ok (g.parent? c)
      how.inPlace method superclass m

/-! ## Refused requests -/

namespace Pass

private theorem reads_demand {σ α : Type} (answer : Except Fault α) : Reads
    (demand answer : Pass σ α) := by
  cases answer with
  | error e => exact reads_throw e
  | ok a => exact reads_pure a

private theorem on_look {α : Type} (ask : ClassGraph → Except GraphError α) (g : ClassGraph) :
    (look ask).on g = (demand ((ask g).mapError Fault.graph)).on g := on_get_bind _

private theorem reads_look {α : Type} (ask : ClassGraph → Except GraphError α) : Reads
    (look ask) := by
  intro g
  rw [on_look]
  exact reads_demand _ g

private theorem reads_lookAbove (superclass : Option ClassName) : Reads (lookAbove superclass) := by
  cases superclass with
  | none => exact reads_pure ()
  | some s => exact (reads_look _).bind fun _ => reads_pure ()

private theorem completes_writeAbove (superclass : Option ClassName)
    (write : ClassGraph → ClassName → ClassGraph) : Completes (writeAbove superclass write) := by
  cases superclass with
  | none => exact completes_pure ()
  | some s => exact completes_modify _

private theorem commits_writeOpen (c : ClassDef) (edit : Edit) (write : ClassDef → ClassDef) :
    Commits (writeOpen c edit write) := by
  unfold writeOpen
  split
  · exact (reads_throw _).commits
  · exact (completes_modify _).commits

private theorem commits_writeBody (method : MethodRef) (body : Body) : Commits
    (writeBody method body) :=
  (completes_modify _).commits

end Pass

/-- Whatever an operation writes, it writes when nothing can stop it any more. -/
theorem Operation.commits_inPlace (op : Operation) : Commits op.inPlace := by
  cases op with
  | addClass c =>
      refine (reads_lookAbove _).bind_commits fun _ => (reads_look _).bind_commits fun known => ?_
      split
      · exact (reads_throw _).commits
      · exact ((completes_modify _).bind fun _ => completes_writeAbove _ _).commits
  | addMethod m =>
      refine (reads_look _).bind_commits fun c => ?_
      split
      · exact (reads_pure ()).commits
      · exact commits_writeOpen _ _ _
  | addField f =>
      refine (reads_look _).bind_commits fun c => ?_
      split
      · exact (reads_pure ()).commits
      · exact commits_writeOpen _ _ _
  | reparent name s =>
      refine (reads_look _).bind_commits fun c => (reads_look _).bind_commits fun _ => ?_
      refine ((completes_writeAbove _ _).bind fun _ => ?_).commits
      exact (completes_modify _).bind fun _ => completes_modify _
  | close name => exact (reads_look _).bind_commits fun c => (completes_modify _).commits
  | setAccess name access => exact (reads_look _).bind_commits fun c => commits_writeOpen _ _ _
  | setMethodAccess method access =>
      exact (reads_look _).bind_commits fun _ => (reads_look _).bind_commits fun c =>
        commits_writeOpen _ _ _
  | setFieldAccess owner name access =>
      exact (reads_look _).bind_commits fun _ => (reads_look _).bind_commits fun c =>
        commits_writeOpen _ _ _
  | assignId method id =>
      refine (reads_look _).bind_commits fun m => ?_
      split
      · exact (reads_throw _).commits
      · exact (completes_modify _).commits

private theorem Interception.commits_inPlace (how : Interception) (method : MethodRef)
    (superclass : Option ClassDef) (m : Method) :
    Commits (how.inPlace method superclass m) := by
  cases how with
  | method dispatch =>
      refine (reads_demand _).bind_commits fun id => ?_
      split
      · exact (reads_pure ()).commits
      · exact (reads_demand _).bind_commits fun _ => commits_writeBody _ _
  | constructor form =>
      refine (reads_demand _).bind_commits fun id => ?_
      split
      · exact (reads_pure ()).commits
      · refine (reads_demand _).bind_commits fun call => ?_
        refine (reads_demand _).bind_commits fun buddy => ?_
        exact (reads_demand _).bind_commits fun _ => commits_writeBody _ _
  | staticInit =>
      simp only [Interception.inPlace]
      split
      · exact (reads_pure ()).commits
      · exact (reads_demand _).bind_commits fun _ => commits_writeBody _ _

private theorem Request.commits_inPlace (request : Request) : Commits request.inPlace := by
  cases request with
  | operation op => exact op.commits_inPlace
  | intercept method how =>
      refine (reads_look _).bind_commits fun c => (reads_look _).bind_commits fun m => ?_
      exact (reads_look _).bind_commits fun superclass => how.commits_inPlace method superclass m

/-! ## Requests that are carried out -/

namespace Pass

variable {α β σ : Type}

private theorem on_demand_bind (answer : Except Fault α) (next : α → Pass σ β) (state : σ) :
    (demand answer >>= next).on state =
      match answer with
      | .ok a => (next a).on state
      | .error e => (.error e, state) := by
  rw [on_bind]
  cases answer <;> rfl

private theorem on_look_bind (ask : ClassGraph → Except GraphError α) (next : α → Pass ClassGraph β)
    (g : ClassGraph) :
    (look ask >>= next).on g =
      match ask g with
      | .ok a => (next a).on g
      | .error e => (.error (.graph e), g) := by
  rw [on_bind, on_look]
  cases ask g <;> rfl

end Pass

namespace ClassGraph

variable {g : ClassGraph} {name : ClassName} {c : ClassDef}

/-- Where names are distinct, a write to a class is a write to the one that is found. -/
theorem modify_found (hNames : g.names.Nodup) (hFind : g.find? name = some c)
    (write : ClassDef → ClassDef) : g.modify name write = g.modify name fun _ => write c := by
  simp only [modify, mapClasses]
  congr 1
  refine List.map_congr_left fun d hd => ?_
  split
  · next hName =>
      have hSame := find?_of_mem hNames hd
      rw [hName, hFind] at hSame
      rw [Option.some.inj hSame]
  · rfl

private theorem modify_same (hNames : g.names.Nodup) (hFind : g.find? name = some c) :
    g.modify name (fun _ => c) = g := by
  have hId := modify_found hNames hFind id
  have hSame : g.modify name id = g := by
    simp [modify, mapClasses]
  exact hId.symm.trans hSame

/-- What becomes of a program when a change of one of its classes is answered. -/
def settle (g : ClassGraph) (name : ClassName) (answer : Except GraphError ClassDef) :
    Except Fault Unit × ClassGraph :=
  match answer with
  | .ok c => (.ok (), g.modify name fun _ => c)
  | .error e => (.error (.graph e), g)

private theorem on_edit {change : ClassDef → Except GraphError ClassDef} :
    (Pass.atomic Fault.graph (·.edit name change)).on g =
      match g.get name with
      | .ok c => g.settle name (change c)
      | .error e => (.error (.graph e), g) := by
  rw [Pass.on_atomic]
  unfold edit
  cases g.get name with
  | error e => rfl
  | ok c =>
      cases hChange : change c with
      | error e => simp [hChange, settle, bind, Except.bind]
      | ok c' => simp [hChange, settle, bind, Except.bind, pure, Except.pure]

/-- A class is looked up, and then changed. -/
theorem on_look_get {change : ClassDef → Except GraphError ClassDef}
    {next : ClassDef → Pass ClassGraph Unit}
    (h : ∀ c, g.find? name = some c → (next c).on g = g.settle name (change c)) :
    (look (·.get name) >>= next).on g =
      (Pass.atomic Fault.graph (·.edit name change)).on g := by
  rw [Pass.on_look_bind, on_edit]
  cases hGet : g.get name with
  | error e => rfl
  | ok c => exact h c (get_eq_ok.mp hGet)

private theorem on_writeOpen (hNames : g.names.Nodup) (hFind : g.find? name = some c) (edit : Edit)
    (write : ClassDef → ClassDef) :
    (writeOpen c edit write).on g = g.settle name (c.guarded edit (write c)) := by
  obtain rfl := name_of_find? hFind
  unfold writeOpen ClassDef.guarded
  split
  · rfl
  · rw [on_modify, modify_found hNames hFind]
    rfl

/-- Something is looked up, and the rest has one outcome either way. -/
theorem on_look_atomic {α : Type} {ask : ClassGraph → Except GraphError α}
    {next : α → Pass ClassGraph Unit} {change : α → ClassGraph → Except GraphError ClassGraph}
    (h : ∀ a, ask g = .ok a → (next a).on g = (Pass.atomic Fault.graph (change a)).on g) :
    (look ask >>= next).on g =
      (Pass.atomic Fault.graph fun g => do change (← ask g) g).on g := by
  rw [Pass.on_look_bind, Pass.on_atomic]
  cases hAsk : ask g with
  | error e => rfl
  | ok a =>
      refine (h a hAsk).trans ?_
      rw [Pass.on_atomic]
      rfl

/-- A method is found exactly if its class is, and has it. -/
theorem getMethod_eq_ok {method : MethodRef} {m : Method} :
    g.getMethod method = .ok m ↔ ∃ c, g.find? method.owner = some c ∧
      c.findMethod? method.name method.signature = some m := by
  unfold getMethod
  rw [bind_eq_ok]
  refine exists_congr fun c => and_congr get_eq_ok ?_
  cases c.findMethod? method.name method.signature <;> simp

end ClassGraph

private theorem on_addInPlace (g : ClassGraph) (c : ClassDef) :
    (addInPlace c).on g = (Pass.atomic Fault.graph (·.addClass c)).on g := by
  rw [Pass.on_atomic]
  simp only [addInPlace, addClass]
  by_cases hKnown : (g.find? c.name).isSome = true
  · cases c.superclass with
    | none =>
        simp only [lookAbove, pure_bind, on_look_bind, if_pos hKnown]
        rfl
    | some s =>
        simp only [lookAbove, bind_assoc, pure_bind, on_look_bind, if_pos hKnown]
        cases g.get s <;> rfl
  · cases c.superclass with
    | none =>
        simp only [lookAbove, pure_bind, on_look_bind, if_neg hKnown]
        rfl
    | some s =>
        simp only [lookAbove, bind_assoc, pure_bind, on_look_bind, if_neg hKnown]
        cases g.get s <;> rfl

/-- **Step by step or in one piece**, an operation has the same outcome. -/
theorem Operation.on_inPlace {g : ClassGraph} (hNames : g.names.Nodup) (op : Operation) :
    op.inPlace.on g = (Pass.atomic Fault.graph op.apply).on g := by
  cases op with
  | addClass c => exact on_addInPlace g c.bare
  | addMethod m =>
      refine on_look_get fun c hFind => ?_
      unfold ClassDef.addMethod
      cases c.findMethod? m.name m.signature with
      | some _ =>
          rw [settle, modify_same hNames hFind]
          rfl
      | none => exact on_writeOpen hNames hFind _ _
  | addField f =>
      refine on_look_get fun c hFind => ?_
      unfold ClassDef.addField
      cases c.findField? f.name with
      | some _ =>
          rw [settle, modify_same hNames hFind]
          rfl
      | none => exact on_writeOpen hNames hFind _ _
  | reparent name s =>
      refine on_look_atomic fun c _ => on_look_atomic fun _ _ => ?_
      cases c.superclass <;> rfl
  | close name =>
      refine on_look_get fun c hFind => ?_
      rw [on_modify, name_of_find? hFind, modify_found hNames hFind]
      rfl
  | setAccess name access =>
      exact on_look_get fun c hFind => on_writeOpen hNames hFind _ _
  | setMethodAccess method access =>
      refine on_look_atomic fun m _ => on_look_get fun c hFind => ?_
      exact on_writeOpen hNames hFind _ _
  | setFieldAccess owner name access =>
      refine on_look_atomic fun f _ => on_look_get fun c hFind => ?_
      exact on_writeOpen hNames hFind _ _
  | assignId method id =>
      refine on_look_atomic fun m hGet => ?_
      obtain ⟨c, hFind, hMethod⟩ := getMethod_eq_ok.mp hGet
      rw [on_edit, get_eq_ok.mpr hFind]
      simp only [ClassDef.assignId, hMethod, Option.bind_some]
      cases m.id with
      | some _ =>
          rw [name_of_find? hFind]
          rfl
      | none =>
          rw [on_modify, modify_found hNames hFind]
          rfl

section

variable {g : ClassGraph} {c : ClassDef} {method : MethodRef} {m : Method}

/-- Where names and methods are distinct, a write to a method is one to the method found. -/
theorem modifyMethod_found (hNames : g.names.Nodup) (hApart : Method.Apart c.methods)
    (hFind : g.find? method.owner = some c)
    (hMethod : c.findMethod? method.name method.signature = some m) (write : Method → Method) :
    g.modify method.owner (·.modifyMethod method.name method.signature write) =
      g.modify method.owner (·.modifyMethod method.name method.signature fun _ => write m) := by
  have hSame : c.modifyMethod method.name method.signature write =
      c.modifyMethod method.name method.signature fun _ => write m := by
    simp only [ClassDef.modifyMethod]
    congr 1
    refine List.map_congr_left fun n hn => ?_
    split
    · next hNamed => rw [ClassDef.eq_of_findMethod? hApart hMethod hn hNamed]
    · rfl
  refine (modify_found hNames hFind _).trans (.trans ?_ (modify_found hNames hFind _).symm)
  rw [hSame]

private theorem modifyMethod_same (hNames : g.names.Nodup) (hApart : Method.Apart c.methods)
    (hFind : g.find? method.owner = some c)
    (hMethod : c.findMethod? method.name method.signature = some m) :
    g.modify method.owner (·.modifyMethod method.name method.signature fun _ => m) = g := by
  refine (modifyMethod_found hNames hApart hFind hMethod id).symm.trans ?_
  simp [ClassGraph.modify, mapClasses, ClassDef.modifyMethod]

/-- What becomes of a program when a change of one of its methods is answered. -/
def settleMethod (g : ClassGraph) (method : MethodRef) (answer : Except Fault Method) :
    Except Fault Unit × ClassGraph :=
  match answer with
  | .ok m =>
      (.ok (), g.modify method.owner (·.modifyMethod method.name method.signature fun _ => m))
  | .error e => (.error e, g)

private theorem Interception.on_inPlace (hNames : g.names.Nodup) (hApart : Method.Apart c.methods)
    (hFind : g.find? method.owner = some c)
    (hMethod : c.findMethod? method.name method.signature = some m) (how : Interception)
    (superclass : Option ClassDef) :
    (how.inPlace method superclass m).on g = settleMethod g method (how.apply superclass m) := by
  have hBody : ∀ b', (writeBody method b').on g =
      settleMethod g method (.ok { m with body := some b' }) := by
    intro b'
    rw [writeBody, on_modify, modifyMethod_found hNames hApart hFind hMethod]
    rfl
  have hNone : (pure () : Pass ClassGraph Unit).on g = settleMethod g method (.ok m) := by
    rw [settleMethod, modifyMethod_same hNames hApart hFind hMethod]
    rfl
  cases how with
  | method dispatch =>
      simp only [Interception.inPlace, Interception.apply, Intercept.method, on_demand_bind,
        Method.number]
      cases hId : m.id with
      | none => rfl
      | some id =>
          simp only [hId] at hBody
          cases m.body with
          | none => exact hNone
          | some b =>
              simp only [on_demand_bind]
              cases Intercept.methodBody m id dispatch b with
              | error e => rfl
              | ok b' => exact hBody b'
  | constructor form =>
      simp only [Interception.inPlace, Interception.apply, Intercept.constructor, on_demand_bind,
        Method.number]
      cases hId : m.id with
      | none => rfl
      | some id =>
          simp only [hId] at hBody
          cases m.body with
          | none => exact hNone
          | some b =>
              simp only [on_demand_bind]
              cases Delegation.find (superclass.map (·.name)) m b with
              | error e => rfl
              | ok call =>
                  cases Intercept.buddyTarget form m.owner superclass with
                  | error e => rfl
                  | ok buddy =>
                      simp only [bind, Except.bind]
                      cases Intercept.constructorBody m id call.method buddy b with
                      | error e => rfl
                      | ok b' => exact hBody b'
  | staticInit =>
      simp only [Interception.inPlace, Interception.apply, Intercept.staticInit]
      cases m.body with
      | none => exact hNone
      | some b =>
          simp only [on_demand_bind]
          cases Intercept.staticInitBody m.owner b with
          | error e => rfl
          | ok b' => exact hBody b'

private theorem Request.on_inPlace (hNames : g.names.Nodup)
    (hApart : ∀ c ∈ g.classes, Method.Apart c.methods) (request : Request) :
    request.inPlace.on g = (Pass.atomic id request.apply).on g := by
  cases request with
  | operation op =>
      refine (op.on_inPlace hNames).trans ?_
      rw [Pass.on_atomic, Pass.on_atomic, Request.apply]
      cases op.apply g <;> rfl
  | intercept method how =>
      simp only [Request.inPlace, on_look_bind, Pass.on_atomic, Request.apply,
        Instrument.updateMethod]
      cases hGet : g.get method.owner with
      | error e => rfl
      | ok c =>
          cases hMethod : g.getMethod method with
          | error e => rfl
          | ok m =>
              obtain ⟨d, hFind, hHas⟩ := getMethod_eq_ok.mp hMethod
              obtain rfl := Option.some.inj ((get_eq_ok.mp hGet).symm.trans hFind)
              have hOn := how.on_inPlace hNames (hApart c (List.mem_of_find?_eq_some hFind)) hFind
                hHas (g.parent? c)
              simp only [hOn, Except.mapError, bind, Except.bind]
              cases how.apply (g.parent? c) m <;> rfl

end

/-- What holds of a request to a program. -/
structure Request.Settled (request : Request) (g : ClassGraph) : Prop where
  /-- If it is refused, the program is the same, to the last cell. -/
  refused : ∀ e g', request.inPlace.on g = (.error e, g') → g' = g
  /-- Its outcome is that of the request in one piece. -/
  outcome : g.names.Nodup → (∀ c ∈ g.classes, Method.Apart c.methods) →
    request.inPlace.on g = (Pass.atomic id request.apply).on g
  /-- A constructor is refused if it has no number, or if its delegated call is not found. -/
  constructor : ∀ method form c m, request = .intercept method (.constructor form) →
    g.find? method.owner = some c → c.findMethod? method.name method.signature = some m →
    (m.id = none ∨ ∃ b e, m.body = some b ∧
      Delegation.find ((g.parent? c).map (·.name)) m b = .error e) →
    ∃ e, request.inPlace.on g = (.error e, g)

/-- **A request that is refused leaves the program as it was.** -/
theorem Request.refused_unchanged (request : Request) (g : ClassGraph) : request.Settled g where
  refused := request.commits_inPlace g
  outcome := fun hNames hApart => request.on_inPlace hNames hApart
  constructor := by
    rintro method form c m rfl hFind hMethod hWhy
    have hGet := get_eq_ok.mpr hFind
    have hGetMethod := getMethod_eq_ok.mpr ⟨c, hFind, hMethod⟩
    simp only [Request.inPlace, on_look_bind, hGet, hGetMethod, Interception.inPlace,
      on_demand_bind, Method.number]
    cases hId : m.id with
    | none => exact ⟨_, rfl⟩
    | some id =>
        rcases hWhy with hNone | ⟨b, e, hBody, hError⟩
        · rw [hNone] at hId
          cases hId
        · simp only [hBody, on_demand_bind, hError]
          exact ⟨e, rfl⟩

/-- A constructor that calls up in each of two branches. -/
def forkedConstructor : Method where
  owner := .of "a/Main"
  name := .init
  signature := .void [.base .int]
  access := { pub := true, isInitializer := true }
  body := some ⟨0, 2,
    [.branchZero .eq (.p 1) ⟨0⟩,
      .invoke .direct .fixed [.p 0] ⟨.of "a/Base", .init, .void []⟩, .returnVoid, .label ⟨0⟩,
      .invoke .direct .fixed [.p 0] ⟨.of "a/Base", .init, .void []⟩, .returnVoid], 1⟩
  id := some 0

def forked : ClassGraph := ⟨[
  { name := .of "a/Base", kind := .library, access := { pub := true }
    subclasses := [.of "a/Main"] },
  { name := .of "a/Main", kind := .program, access := { pub := true }
    superclass := some (.of "a/Base"), methods := [forkedConstructor] }]⟩

/-- Its interception is refused, step by step and in one piece. -/
theorem Request.refused_unchanged_forked :
    ∃ e, (Request.intercept forkedConstructor.ref (.constructor .normal)).inPlace.on forked =
        (.error e, forked) ∧
      (Request.intercept forkedConstructor.ref (.constructor .normal)).apply forked = .error e := by
  have hSettled := Request.refused_unchanged
    (.intercept forkedConstructor.ref (.constructor .normal)) forked
  have hTwo : Delegation.find (some (.of "a/Base")) forkedConstructor
      (forkedConstructor.body.get rfl) = .error (.delegation forkedConstructor.ref 2) := by
    decide +kernel
  obtain ⟨e, hRefused⟩ := hSettled.constructor forkedConstructor.ref .normal _ forkedConstructor rfl
    rfl (by decide +kernel) (.inr ⟨_, _, rfl, hTwo⟩)
  have hApart : ∀ c ∈ forked.classes, Method.Apart c.methods := by
    unfold Method.Apart
    decide +kernel
  have hOutcome := hSettled.outcome (by decide +kernel) hApart
  refine ⟨e, hRefused, ?_⟩
  rw [hRefused, Pass.on_atomic] at hOutcome
  split at hOutcome
  · cases hOutcome
  · next hApply =>
      cases hOutcome
      exact hApply

end HotPatch
