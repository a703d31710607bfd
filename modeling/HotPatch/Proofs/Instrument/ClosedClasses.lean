import HotPatch.Proofs.Genesis.Lasting
import HotPatch.Proofs.Instrument.Requests
import HotPatch.Proofs.Program.ComponentMarks

/-!
# Closed classes

Once a class is closed, no request and no pass changes its members or its access
flags any more, and a number that a method has it keeps (`closed_class_lasts`).
Each of them takes every class onward, wherever it stops, and so does any
sequence of them.

Interception replaces a method by one it has seen before, when the class was
numbered.  What it has seen must be what is there still, but for bodies
(`Seen`).
-/

namespace HotPatch

open ClassGraph

/-! ## Marks, widening and slots -/

namespace Selection

private theorem onward_markVendorPush (g : ClassGraph) : g.Onward (markVendorPush g).2 := by
  refine Onward.mapClasses (fun c => ?_) g
  split
  · exact .of_same rfl rfl rfl rfl id
  · exact .refl c

private theorem onward_markDisabled (g : ClassGraph) (filter : Filter) :
    g.Onward (markDisabled g filter).2 := by
  refine Onward.mapClasses (fun c => ?_) g
  unfold markClass
  split
  · exact .refl c
  · split
    · exact .of_same rfl rfl rfl rfl id
    · refine .mapMethods fun _ m _ => ?_
      split
      · exact ⟨⟨rfl, rfl, rfl, fun _ hk => hk⟩, rfl⟩
      · exact ⟨.refl m, rfl⟩

end Selection

namespace Manifest

private theorem onward_mark (g : ClassGraph) (m : Manifest) : g.Onward (mark g m).2 := by
  rw [mark_eq_mapClasses]
  refine Onward.mapClasses (fun c => ?_) g
  exact .of_same rfl rfl rfl rfl id

private theorem onward_addStaticInitializers (g : ClassGraph) :
    g.Onward (addStaticInitializers.on g).2 := by
  refine Pass.on_bind_snd (Onward.sweep (fun c => ?_) g) fun _ _ _ hSwept => hSwept
  exact .atomic fun c' hAdd => .of_edited (ClassDef.edited_of_addMethod hAdd)

end Manifest

private theorem Slots.onward_addEach (field : ClassName → Field) (g : ClassGraph) :
    g.Onward ((addEach field).on g).2 := by
  refine Pass.on_bind_snd (Onward.sweep (fun c => ?_) g) fun _ _ _ hSwept => hSwept
  exact .atomic fun c' hAdd => .of_edited (ClassDef.edited_of_addField hAdd)

namespace Widening

private theorem lasts_widenMethod (makePublic : Bool) (m : Method) :
    m.Lasts (widenMethod makePublic m) := by
  unfold widenMethod
  split
  · exact ⟨rfl, rfl, rfl, fun _ hk => hk⟩
  · exact .refl m

private theorem onward_widen (makePublic : Bool) (g : ClassGraph) :
    g.Onward ((widen makePublic).on g).2 := by
  refine Pass.on_bind_snd (Onward.sweep (fun c => ?_) g) fun _ _ _ hSwept => hSwept
  refine .atomic fun c' hWiden => ?_
  rcases widenClass_eq_ok hWiden with ⟨_, rfl⟩ | ⟨_, hOpen, rfl⟩
  · exact .refl _
  · refine .of_open hOpen rfl ?_
    exact List.forall₂_map_right_iff.mpr (List.forall₂_same.mpr fun m _ =>
      lasts_widenMethod makePublic m)

end Widening

/-! ## Numbers -/

namespace Numbering

private theorem onward_assign (c : ClassDef) : c.Onward (assign.on c).2 := by
  have hGuards : Pass.Guards c.Onward assign := by
    refine guards_assign (fun d hOnward => ?_) fun hOnward hAssign => ?_
    · exact hOnward.trans (.of_edited .close)
    · exact hOnward.trans (.of_edited (ClassDef.edited_of_assignId hAssign))
  exact hGuards c (.refl c)

/-- Numbering closes a class first, so it is closed also where a number is refused. -/
theorem closed_assign (c : ClassDef) : (assign.on c).2.closed = true := by
  have hGuards : Pass.Guards (fun c : ClassDef => c.closed = true) assign := by
    refine guards_assign (fun _ _ => rfl) fun hClosed hAssign => ?_
    obtain ⟨_, rfl⟩ := assignId_eq_ok hAssign
    exact hClosed
  have hSame : assign.on c = assign.on c.close := rfl
  rw [hSame]
  exact hGuards c.close rfl

end Numbering

/-! ## Interception -/

namespace Instrument

open HotPatch.Numbering

/-- Methods as they were seen: where the class has them still, it has them but for their bodies. -/
def Seen (methods : List Method) (c : ClassDef) : Prop :=
  ∀ m ∈ methods, ∀ n ∈ c.methods, n.isNamed m.name m.signature = true →
    m = { n with body := m.body }

private theorem seen_of_assign {c c' : ClassDef} {methods : List Method}
    (hApart : Method.Apart c.methods)
    (hAssign : assign.on c = (.ok methods, c')) : Seen methods c' := by
  obtain ⟨_, _, rfl, rfl⟩ := assign_eq_ok hAssign
  intro _ hNumbered _ hStands hNamed
  obtain ⟨m, hm, rfl⟩ := List.mem_map.mp hNumbered
  obtain ⟨n, hn, rfl⟩ := List.mem_map.mp hStands
  obtain rfl : n = m := hApart.eq_of_isNamed (mem_ordered.mp hm).1 hn hNamed
  rfl

theorem Seen.replace {m m' : Method} {rest : List Method} {c : ClassDef}
    (h : Seen (m :: rest) c) (hFrame : m' = { m with body := m'.body }) :
    Seen rest (c.modifyMethod m.name m.signature fun _ => m') := by
  intro k hk n' hn' hNamed
  obtain ⟨n, hn, rfl⟩ := List.mem_map.mp hn'
  split at hNamed
  · next hHere =>
      rw [if_pos hHere]
      have hm := h m List.mem_cons_self n hn hHere
      have hKey : n.isNamed k.name k.signature = true := by
        obtain ⟨hName, hSignature⟩ := Method.isNamed_iff.mp hNamed
        rw [hFrame] at hName hSignature
        rw [hm] at hName hSignature
        exact Method.isNamed_iff.mpr ⟨hName, hSignature⟩
      have hk' := h k (List.mem_cons_of_mem m hk) n hn hKey
      rw [hFrame, hm]
      exact hk'
  · next hElse =>
      rw [if_neg hElse]
      exact h k (List.mem_cons_of_mem m hk) n hn hNamed

variable {s : Settings} {superclass : Option ClassDef}

private theorem onward_interceptAll {methods : List Method} :
    ∀ {c : ClassDef} (id : Nat), Seen methods c →
      c.Onward ((interceptAll s superclass methods id).on c).2 := by
  induction methods with
  | nil => exact fun _ _ => .refl _
  | cons m rest ih =>
      intro c id hSeen
      unfold interceptAll
      split
      · exact .refl c
      · have hRest : Seen rest c := fun k hk => hSeen k (List.mem_cons_of_mem m hk)
        exact Pass.on_bind_snd (ih (id + 1) hRest) fun _ _ _ h => h
      · next m' hRoute =>
          have hSome : rewrite? s superclass m = some m' := by rw [rewrite?, hRoute]
          have hFrame := (routed_of_rewrite? hSome).2.frame
          have hHere : c.Onward (c.modifyMethod m.name m.signature fun _ => m') := by
            refine .modifyMethod fun _ n hn hNamed => Method.lasts_of_frame ?_
            rw [hFrame, hSeen m List.mem_cons_self n hn hNamed]
          have hRest := ih (id + 1) (hSeen.replace hFrame)
          refine hHere.trans ?_
          show ClassDef.Onward _ (Pass.on (do
            return methodReport s m id true :: (← interceptAll s superclass rest (id + 1))) _).2
          exact Pass.on_bind_snd hRest fun _ _ _ h => h

private theorem onward_instrumentClass (s : Settings) (superclass : Option ClassDef)
    (c : ClassDef) :
    c.Onward ((instrumentClass s superclass).on c).2 := by
  by_cases hApart : Method.Apart c.methods
  · refine Pass.on_bind_snd (onward_assign c) fun methods c' hAssign hOnward => ?_
    have hSeen := seen_of_assign hApart hAssign
    exact hOnward.trans (Pass.on_bind_snd (onward_interceptAll 0 hSeen) fun _ _ _ h => h)
  · exact .of_not_apart (guardsName_instrumentClass s superclass c.name c rfl) hApart

private theorem onward_instrumentNamed (s : Settings) (name : ClassName) (g : ClassGraph) :
    g.Onward ((instrumentNamed s name).on g).2 := by
  unfold instrumentNamed
  rw [Pass.on_get_bind]
  split
  · exact .refl g
  · next c hFind =>
      have hState := Onward.replace hFind (onward_instrumentClass s (g.parent? c) c)
      refine Pass.on_bind_snd hState fun _ middle _ hMiddle => ?_
      split <;> exact hMiddle

private theorem onward_instrumentClasses (s : Settings) (g : ClassGraph) :
    g.Onward ((instrumentClasses s).on g).2 := by
  unfold instrumentClasses
  rw [Pass.on_get_bind]
  exact Onward.sweep (fun c => onward_instrumentClass s (g.parent? c) c) g

private theorem onward_prepare (s : Settings) (g : ClassGraph) : g.Onward (prepare s g) := by
  unfold prepare
  split
  · exact (Selection.onward_markVendorPush g).trans (Selection.onward_markDisabled _ s.filter)
  · exact Selection.onward_markDisabled g s.filter

private theorem guards_completeHierarchy {base : ClassGraph} :
    Pass.Guards base.Onward completeHierarchy := by
  refine Pass.guards_bind Genesis.guards_build fun _ => ?_
  refine Pass.guards_bind (Onward.guards Manifest.onward_addStaticInitializers) fun _ => ?_
  exact Pass.guards_bind (Onward.guards (Slots.onward_addEach _)) fun _ => Pass.guards_pure _

/-- **A whole run takes all classes onward**, wherever it stops. -/
theorem guards_run {base : ClassGraph} (s : Settings) : Pass.Guards base.Onward (run s) := by
  refine Pass.guards_bind (Pass.guards_modify fun g h => h.trans (onward_prepare s g)) fun _ => ?_
  refine Pass.guards_bind (Onward.guards (Widening.onward_widen _)) fun _ => ?_
  refine Pass.guards_bind (Pass.guards_modify fun g h => h.trans (Manifest.onward_mark g _))
    fun _ => ?_
  have hRest : ∀ genesisClasses, Pass.Guards base.Onward (do
      let _ ← Slots.addInterceptorFields
      let classes ← instrumentClasses s
      return ({ classes, genesisClasses } : Report)) := by
    intro genesisClasses
    refine Pass.guards_bind (Onward.guards (Slots.onward_addEach _)) fun _ => ?_
    exact Pass.guards_bind (Onward.guards (onward_instrumentClasses s)) fun _ =>
      Pass.guards_pure _
  dsimp only
  split
  · exact Pass.guards_bind guards_completeHierarchy hRest
  · exact Pass.guards_bind (Pass.guards_pure []) hRest

private theorem onward_updateMethod {g g' : ClassGraph} {method : MethodRef}
    {change : Option ClassDef → Method → Except Fault Method}
    (hFrame : ∀ superclass m m', change superclass m = .ok m' → m' = { m with body := m'.body })
    (h : updateMethod g method change = .ok g') : g.Onward g' := by
  obtain ⟨_, _, h⟩ := bind_eq_ok.mp h
  obtain ⟨m, hMethod, h⟩ := bind_eq_ok.mp h
  obtain ⟨m', hChange, h⟩ := bind_eq_ok.mp h
  cases h
  obtain ⟨c, hFind, hHas⟩ := getMethod_eq_ok.mp (mapError_eq_ok.mp hMethod)
  refine Onward.modifyFound (fun _ h => h) fun d hd => ?_
  obtain rfl := Option.some.inj (hFind.symm.trans hd)
  refine .modifyMethod fun hApart n hn hNamed => Method.lasts_of_frame ?_
  obtain rfl := ClassDef.eq_of_findMethod? hApart hHas hn hNamed
  exact hFrame _ _ _ hChange

end Instrument

/-- Interception changes the body of a method and nothing else. -/
theorem Interception.frame {how : Interception} {superclass : Option ClassDef} {m m' : Method}
    (h : how.apply superclass m = .ok m') : m' = { m with body := m'.body } := by
  cases how with
  | method dispatch => exact (Intercept.Intercepted.method dispatch h).body.1
  | constructor form => exact (Intercept.Intercepted.constructor form superclass h).body.1
  | staticInit => exact (Intercept.Intercepted.staticInit h).body.1

private theorem onward_request {request : Request} {g g' : ClassGraph}
    (h : request.apply g = .ok g') :
    g.Onward g' := by
  cases request with
  | operation op => exact .apply (mapError_eq_ok.mp h)
  | intercept method how =>
      have hUpdate : Instrument.updateMethod g method how.apply = .ok g' := h
      exact Instrument.onward_updateMethod (fun _ _ _ hApply => Interception.frame hApply) hUpdate

/-! ## Actions -/

/-- What is noted of a class and may be noted anew at any time. -/
structure ClassNotes where
  interfaces : List ClassName
  tags : List Tag
  disabled : Bool
  vendorPush : Bool
  marks : ComponentMarks
  isGenesis : Bool

/-- What belongs to a method and may be replaced at any time. -/
structure MethodNotes where
  tags : List Tag
  body : Option Body
  disabled : Bool
  role : ConstructorRole
  genesisId : Option Nat

/-- Whatever is done to a program. -/
inductive Action where
  | request (asked : Request)
  | noteClass (name : ClassName) (notes : ClassNotes)
  | noteMethod (method : MethodRef) (notes : MethodNotes)
  | markVendorPush
  | markDisabled (filter : Filter)
  | markComponents (manifest : Manifest)
  | widen (makePublic : Bool)
  | addStaticInitializers
  | addHolderFields
  | addInterceptorFields
  /-- Visit a component type, with the boundaries found so far. -/
  | visit (component : ComponentType) (root : ClassName) (boundaries : List Genesis.Boundary)
  | finish (boundaries : List Genesis.Boundary)
  | insertGenesis
  | assignIds (name : ClassName)
  | instrumentNamed (s : Settings) (name : ClassName)
  | instrumentClasses (s : Settings)
  | run (s : Settings)

namespace Action

/-- The program that an action leaves behind, whether it succeeds or stops at a fault. -/
def leave (action : Action) (g : ClassGraph) : ClassGraph :=
  match action with
  | .request asked => ((Pass.atomic id asked.apply).on g).2
  | .noteClass name notes => g.modify name fun c => { c with
      interfaces := notes.interfaces, tags := notes.tags, disabled := notes.disabled
      vendorPush := notes.vendorPush, marks := notes.marks, isGenesis := notes.isGenesis }
  | .noteMethod method notes => g.modify method.owner (·.modifyMethod method.name method.signature
      fun m => { m with
        tags := notes.tags, body := notes.body, disabled := notes.disabled, role := notes.role
        genesisId := notes.genesisId })
  | .markVendorPush => (Selection.markVendorPush g).2
  | .markDisabled filter => (Selection.markDisabled g filter).2
  | .markComponents manifest => (Manifest.mark g manifest).2
  | .widen makePublic => ((Widening.widen makePublic).on g).2
  | .addStaticInitializers => (Manifest.addStaticInitializers.on g).2
  | .addHolderFields => (Slots.addHolderFields.on g).2
  | .addInterceptorFields => (Slots.addInterceptorFields.on g).2
  | .visit component root boundaries => ((Genesis.visit component root).on ⟨g, boundaries⟩).2.graph
  | .finish boundaries => ((Genesis.finish boundaries).on g).2
  | .insertGenesis => (Genesis.build.on g).2
  | .assignIds name => g.modify name fun c => (Numbering.assign.on c).2
  | .instrumentNamed s name => ((Instrument.instrumentNamed s name).on g).2
  | .instrumentClasses s => ((Instrument.instrumentClasses s).on g).2
  | .run s => ((Instrument.run s).on g).2

/-- The program after some actions. -/
def after (actions : List Action) (g : ClassGraph) : ClassGraph :=
  actions.foldl (fun g action => action.leave g) g

/-- The action closes the class of that name. -/
def Closes (name : ClassName) (action : Action) : Prop :=
  action = .request (.operation (.close name)) ∨ action = .assignIds name

/-- **One action.** -/
theorem onward_leave (action : Action) (g : ClassGraph) : g.Onward (action.leave g) := by
  cases action with
  | request asked =>
      show g.Onward ((Pass.atomic id asked.apply).on g).2
      rw [Pass.on_atomic]
      cases hApply : asked.apply g with
      | error e => exact .refl g
      | ok g' => exact onward_request hApply
  | noteClass name notes =>
      refine Onward.modify (fun c => ?_) g
      exact .of_same rfl rfl rfl rfl id
  | noteMethod method notes =>
      refine Onward.modify (fun c => .modifyMethod fun _ m _ _ => ?_) g
      exact ⟨⟨rfl, rfl, rfl, fun _ hk => hk⟩, rfl⟩
  | markVendorPush => exact Selection.onward_markVendorPush g
  | markDisabled filter => exact Selection.onward_markDisabled g filter
  | markComponents manifest => exact Manifest.onward_mark g manifest
  | widen makePublic => exact Widening.onward_widen makePublic g
  | addStaticInitializers => exact Manifest.onward_addStaticInitializers g
  | addHolderFields => exact Slots.onward_addEach _ g
  | addInterceptorFields => exact Slots.onward_addEach _ g
  | visit component root boundaries =>
      exact Genesis.guards_visit component root ⟨g, boundaries⟩ (Onward.refl g)
  | finish boundaries => exact Genesis.guards_finish boundaries g (.refl g)
  | insertGenesis => exact Genesis.guards_build g (.refl g)
  | assignIds name => exact Onward.modify Numbering.onward_assign g
  | instrumentNamed s name => exact Instrument.onward_instrumentNamed s name g
  | instrumentClasses s => exact Instrument.onward_instrumentClasses s g
  | run s => exact Instrument.guards_run s g (.refl g)

/-- **All actions, one after the other.** -/
theorem onward_after (actions : List Action) : ∀ g, ClassGraph.Onward g (after actions g) := by
  induction actions with
  | nil => exact fun g => .refl g
  | cons action rest ih => exact fun g => (action.onward_leave g).trans (ih (action.leave g))

/-- A class is closed by its operation, and by numbering it even where that stops. -/
theorem closed_leave {name : ClassName} {action : Action} (hCloses : action.Closes name)
    {g : ClassGraph} {c : ClassDef} (hFind : g.find? name = some c) :
    ∃ c', (action.leave g).find? name = some c' ∧ c'.closed = true := by
  rcases hCloses with rfl | rfl
  · have hApply : (Request.operation (.close name)).apply g =
        .ok (g.modify name fun _ => c.close) := by
      simp only [Request.apply, Operation.apply, edit, get_eq_ok.mpr hFind]
      rfl
    have hName : c.name = name := name_of_find? hFind
    have hClose : ∀ d : ClassDef, d.name = name → c.close.name = name := fun _ _ => hName
    refine ⟨c.close, ?_, rfl⟩
    show (((Pass.atomic id (Request.operation (.close name)).apply).on g).2).find? name = _
    rw [Pass.on_atomic, hApply]
    show (g.modify name fun _ => c.close).find? name = some c.close
    rw [find?_modify hClose, if_pos rfl, hFind]
    rfl
  · refine ⟨(Numbering.assign.on c).2, ?_, Numbering.closed_assign c⟩
    show (g.modify name fun c => (Numbering.assign.on c).2).find? name = _
    rw [find?_modify fun d hd => (Numbering.onward_assign d).name.trans hd, if_pos rfl, hFind]
    rfl

/-- Actions are taken one after the other. -/
theorem after_append (first rest : List Action) (g : ClassGraph) :
    after (first ++ rest) g = after rest (after first g) := List.foldl_append

/-- In a program that starts without it, no class ever has two methods of one name and
signature. -/
theorem apart_after {g : ClassGraph} (hApart : ∀ c ∈ g.classes, Method.Apart c.methods)
    (actions : List Action) {name : ClassName} {c : ClassDef}
    (hFind : (after actions g).find? name = some c) : Method.Apart c.methods := by
  have hAfter := onward_after actions g
  cases hBefore : g.find? name with
  | none => exact hAfter.fresh hBefore hFind
  | some c₀ =>
      obtain ⟨c', hFind', hOnward⟩ := hAfter.found hBefore
      obtain rfl := Option.some.inj (hFind.symm.trans hFind')
      exact hOnward.apart (hApart c₀ (List.mem_of_find?_eq_some hBefore))

/-- **A closed class is closed for good.**  Whatever is done to a program, and whether it succeeds
or not, a class that is there stays there, and each of its methods keeps its place and its number.
If the class is closed, it stays so, and its members and all access flags stay what they are.

The program may start from any that has no two methods of one name and signature in a class, such
as the empty one. -/
theorem closed_class_lasts {g : ClassGraph} (hApart : ∀ c ∈ g.classes, Method.Apart c.methods)
    (before later : List Action) {name : ClassName} {c : ClassDef}
    (hFind : (after before g).find? name = some c) :
    ∃ c', (after later (after before g)).find? name = some c' ∧ c.Numbered c' ∧
      (c.closed = true → c.Frozen c') ∧
      ((∃ action ∈ later, action.Closes name) → c'.closed = true) := by
  have hMethods := apart_after hApart before hFind
  obtain ⟨c', hFind', hOnward⟩ := (onward_after later (after before g)).found hFind
  refine ⟨c', hFind', hOnward.numbered hMethods, hOnward.frozen hMethods, ?_⟩
  rintro ⟨action, hMem, hCloses⟩
  obtain ⟨first, rest, rfl⟩ := List.append_of_mem hMem
  obtain ⟨d, hFirst, _⟩ := (onward_after first (after before g)).found hFind
  obtain ⟨d', hThere, hClosed⟩ := closed_leave hCloses hFirst
  have hAt : (after (first ++ [action]) (after before g)).find? name = some d' := by
    rw [after_append]
    exact hThere
  have hRest : (after rest (after (first ++ [action]) (after before g))).find? name = some c' := by
    rw [← after_append, List.append_assoc]
    exact hFind'
  obtain ⟨e, hLast, hFrom⟩ := (onward_after rest _).found hAt
  obtain rfl := Option.some.inj (hRest.symm.trans hLast)
  rw [← after_append] at hAt
  exact (hFrom.frozen (apart_after hApart (before ++ (first ++ [action])) hAt) hClosed).closed

/-- A class with a static method, numbered. -/
def buildup : List Action := [
  .request (.operation (.addClass
    { name := .of "a/Main", kind := .program, access := {} })),
  .request (.operation (.addMethod
    { owner := .of "a/Main", name := ⟨"f"⟩, signature := .void [], access := { isStatic := true }
      body := some ⟨0, 0, [.returnVoid], 0⟩ })),
  .assignIds (.of "a/Main")]

/-- The class, as it is once it is numbered. -/
def numberedMain : ClassDef where
  name := .of "a/Main"
  kind := .program
  access := {}
  methods := [
    { owner := .of "a/Main", name := ⟨"f"⟩, signature := .void [], access := { isStatic := true }
      body := some ⟨0, 0, [.returnVoid], 0⟩, id := some 0 }]
  closed := true

/-- It takes no field, is not widened, and gives its method no other number. -/
theorem closed_class_lasts_main :
    numberedMain.closed = true ∧
      (after buildup ClassGraph.empty).find? (.of "a/Main") = some numberedMain ∧
      ∃ c', (after [.addInterceptorFields, .widen true,
          .request (.operation (.setAccess (.of "a/Main") { pub := true })),
          .request (.intercept ⟨.of "a/Main", ⟨"f"⟩, .void []⟩ (.method .common)),
          .run { mode := .full }] (after buildup ClassGraph.empty)).find? (.of "a/Main") = some c' ∧
        numberedMain.Frozen c' := by
  have hFind : (after buildup ClassGraph.empty).find? (.of "a/Main") = some numberedMain := by
    decide +kernel
  obtain ⟨c', hFind', _, hFrozen, _⟩ := closed_class_lasts (fun c hc => (List.not_mem_nil hc).elim)
    buildup _ hFind
  exact ⟨rfl, hFind, c', hFind', hFrozen rfl⟩

end Action

end HotPatch
