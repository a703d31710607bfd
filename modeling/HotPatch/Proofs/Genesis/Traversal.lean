import HotPatch.Proofs.Genesis.Survey

/-!
# The traversal behind a visit

A visit can be made with a stack: take the next class, visit it if it is on
the walk, and put the classes below it on the stack.  These are only known
then, and the visits before may have put genesis classes among them.

`Traverses` is that loop.  A visit, which makes its list of classes before the
first change, has the same outcome (`traverses_iff`): what comes in on the way
are genesis classes, and no walk enters these.
-/

namespace HotPatch.Genesis

open ClassGraph

/-- A class that the traversal enters is visited if it is one of the program. -/
def enter (component : ComponentType) (name : ClassName) (c : ClassDef) : Pass Site Unit :=
  if c.isProgram then visitClass component name else return ()

/-- The traversal of a stack of classes, with its outcome. -/
inductive Traverses (component : ComponentType) :
    List ClassName → Site → Except Fault Unit × Site → Prop where
  | done (site : Site) : Traverses component [] site (.ok (), site)
  | skipped {name : ClassName} {stack : List ClassName} {site : Site}
      {outcome : Except Fault Unit × Site} :
      (∀ c, site.graph.find? name = some c → onWalk component c = false) →
      Traverses component stack site outcome →
      Traverses component (name :: stack) site outcome
  | stopped {name : ClassName} {stack : List ClassName} {site site' : Site} {c : ClassDef}
      {e : Fault} : site.graph.find? name = some c → onWalk component c = true →
      (enter component name c).on site = (.error e, site') →
      Traverses component (name :: stack) site (.error e, site')
  /-- What is below the class is read after its visit. -/
  | entered {name : ClassName} {stack : List ClassName} {site site' : Site} {c c' : ClassDef}
      {outcome : Except Fault Unit × Site} : site.graph.find? name = some c →
      onWalk component c = true → (enter component name c).on site = (.ok (), site') →
      site'.graph.find? name = some c' →
      Traverses component (c'.subclasses ++ stack) site' outcome →
      Traverses component (name :: stack) site outcome

section

variable {g : ClassGraph} {component : ComponentType}

/-- The traversal has one outcome at most. -/
theorem Traverses.unique {stack : List ClassName} {site : Site}
    {outcome outcome' : Except Fault Unit × Site} (h : Traverses component stack site outcome)
    (h' : Traverses component stack site outcome') : outcome = outcome' := by
  induction h with
  | done site =>
      cases h'
      rfl
  | skipped hSkip _ ih =>
      cases h' with
      | skipped _ hRest => exact ih hRest
      | stopped hFind hOn _ =>
          rw [hSkip _ hFind] at hOn
          cases hOn
      | entered hFind hOn _ _ _ =>
          rw [hSkip _ hFind] at hOn
          cases hOn
  | stopped hFind hOn hStop =>
      cases h' with
      | skipped hSkip _ =>
          rw [hSkip _ hFind] at hOn
          cases hOn
      | stopped hFind' _ hStop' =>
          obtain rfl := Option.some.inj (hFind.symm.trans hFind')
          exact hStop.symm.trans hStop'
      | entered hFind' _ hEnter _ _ =>
          obtain rfl := Option.some.inj (hFind.symm.trans hFind')
          cases hStop.symm.trans hEnter
  | entered hFind hOn hEnter hNow _ ih =>
      cases h' with
      | skipped hSkip _ =>
          rw [hSkip _ hFind] at hOn
          cases hOn
      | stopped hFind' _ hStop =>
          obtain rfl := Option.some.inj (hFind.symm.trans hFind')
          cases hEnter.symm.trans hStop
      | entered hFind' _ hEnter' hNow' hRest =>
          obtain rfl := Option.some.inj (hFind.symm.trans hFind')
          cases hEnter.symm.trans hEnter'
          obtain rfl := Option.some.inj (hNow.symm.trans hNow')
          exact ih hRest

/-! ## Walks in a program that grows -/

/-- The walk is the same as in the beginning. -/
theorem Grown.walkWithin_eq {site : Site} (h : Grown g site) (depth : Nat) :
    walkWithin site.graph component depth = walkWithin g component depth := by
  induction depth with
  | zero => rfl
  | succ depth ih =>
      funext root
      cases hFind : g.find? root with
      | none => rw [walkWithin_new h hFind, walkWithin, hFind]
      | some c =>
          obtain ⟨more, hMore, hWalk⟩ := walkWithin_kept h hFind
          have hNew : more.flatMap (walkWithin site.graph component depth) = [] :=
            List.flatMap_eq_nil_iff.mpr fun m hm =>
              walkWithin_new h (h.new_of_mem_created (hMore m hm)) depth
          rw [hWalk, List.flatMap_append, hNew, List.append_nil, ih, walkWithin, hFind]

/-- The walk from a class ends within so many levels. -/
def EndsWithin (g : ClassGraph) (component : ComponentType) : Nat → ClassName → Prop
  | 0, name => ∀ c, g.find? name = some c → onWalk component c = false
  | depth + 1, name => ∀ c, g.find? name = some c → onWalk component c = true →
      ∀ child ∈ c.subclasses, EndsWithin g component depth child

/-- The classes on the way down are all different, so the walk ends when they are used up. -/
theorem endsWithin_of_lineage (hSync : InSync g) {bound : Nat}
    (hBound : ∀ names : List ClassName, names.Nodup →
      (∀ n ∈ names, (g.find? n).isSome = true) → names.length ≤ bound) :
    ∀ {depth : Nat} {root : ClassName} {chain : List ClassName}, Lineage g root chain →
      bound ≤ depth + chain.length → EndsWithin g component depth root := by
  intro depth
  induction depth with
  | zero =>
      intro root chain hChain hEnough c hFind
      have hFound : ∀ n ∈ root :: chain, (g.find? n).isSome = true := by
        intro n hn
        rcases List.mem_cons.mp hn with rfl | hn
        · exact Option.isSome_of_eq_some hFind
        · exact hChain.found hSync.rooted n hn
      have hLength := hBound _ (List.nodup_cons.mpr ⟨hChain.not_mem, hChain.nodup⟩) hFound
      rw [List.length_cons] at hLength
      omega
  | succ depth ih =>
      intro root chain hChain hEnough c hFind _ child hChild
      refine ih (.under (hSync.down hFind hChild) hChain) ?_
      rw [List.length_cons]
      omega

/-! ## The stack -/

/-- From any point of the visits on, the stack is traversed by visiting the names. -/
def Unrolls (g : ClassGraph) (component : ComponentType) (stack names : List ClassName) : Prop :=
  ∀ (V : ClassName → Prop) (site : Site), Surveyed g V site →
    Traverses component stack site ((visitAll component names).on site)

theorem Unrolls.nil : Unrolls g component [] [] := fun _ site _ => .done site

/-- A class that the walk did not go through in the beginning is skipped. -/
theorem Unrolls.skip {stack names : List ClassName} {name : ClassName}
    (h : Unrolls g component stack names)
    (hOff : ∀ c, g.find? name = some c → onWalk component c = false) :
    Unrolls g component (name :: stack) names := by
  intro V site hSurveyed
  refine .skipped (fun c' hFind' => ?_) (h V site hSurveyed)
  cases hFind : g.find? name with
  | none => simp [onWalk, hSurveyed.isGenesis_of_new hFind hFind']
  | some c =>
      obtain ⟨c'', _, hFind'', _, hSame⟩ := hSurveyed.find hFind
      obtain rfl := Option.some.inj (hFind'.symm.trans hFind'')
      rw [hSame]
      exact hOff c hFind

private theorem Unrolls.skipAll {stack names more : List ClassName}
    (h : Unrolls g component stack names)
    (hNew : ∀ m ∈ more, g.find? m = none) : Unrolls g component (more ++ stack) names := by
  induction more with
  | nil => exact h
  | cons m rest ih =>
      refine (ih fun n hn => hNew n (List.mem_cons_of_mem m hn)).skip fun c hFind => ?_
      rw [hNew m List.mem_cons_self] at hFind
      cases hFind

/-- The visits begin with the class that is entered. -/
theorem on_visitAll_enter {name : ClassName} {names : List ClassName} {c : ClassDef}
    (component : ComponentType) (site : Site) :
    (visitAll component ((if c.isProgram then [name] else []) ++ names)).on site =
      (do enter component name c; visitAll component names : Pass Site Unit).on site := by
  unfold enter
  split
  · rfl
  · rfl

/-- A class on the walk is entered, and what was below it in the beginning comes next. -/
theorem Unrolls.enter {stack names : List ClassName} {name : ClassName} {c : ClassDef}
    (hRooted : Rooted g) (hFind : g.find? name = some c) (hOn : onWalk component c = true)
    (h : ∀ {more : List ClassName}, (∀ m ∈ more, g.find? m = none) →
      Unrolls g component (c.subclasses ++ (more ++ stack)) names) :
    Unrolls g component (name :: stack) ((if c.isProgram then [name] else []) ++ names) := by
  intro V site hSurveyed
  obtain ⟨c₁, _, hFind₁, _, hSame₁⟩ := hSurveyed.find hFind
  have hOn₁ : onWalk component c₁ = true := by
    rw [hSame₁]
    exact hOn
  have hProgram : c.isProgram = c₁.isProgram := by
    rw [hSame₁]
    rfl
  rw [hProgram, on_visitAll_enter, Pass.on_bind]
  cases hEnter : (Genesis.enter component name c₁).on site with
  | mk answer site' =>
      cases answer with
      | error e => exact .stopped hFind₁ hOn₁ hEnter
      | ok _ =>
          obtain ⟨V', hSurveyed'⟩ : ∃ V', Surveyed g V' site' := by
            unfold Genesis.enter at hEnter
            split at hEnter
            · exact ⟨_, hSurveyed.visitClass hRooted (Option.isSome_of_eq_some hFind) hEnter⟩
            · cases hEnter
              exact ⟨V, hSurveyed⟩
          obtain ⟨c₂, more, hFind₂, hMore, hSame₂⟩ := hSurveyed'.find hFind
          have hBelow : c₂.subclasses ++ stack = c.subclasses ++ (more ++ stack) := by
            rw [hSame₂]
            exact List.append_assoc _ _ _
          refine .entered hFind₁ hOn₁ hEnter hFind₂ ?_
          rw [hBelow]
          exact h (fun m hm => hSurveyed'.new_of_mem_created (hMore m hm)) V' site' hSurveyed'

/-- **A class on the stack is traversed by the visits of its walk**, and then comes the rest. -/
theorem Unrolls.push (hRooted : Rooted g) {depth : Nat} :
    ∀ {root : ClassName} {stack names : List ClassName}, EndsWithin g component depth root →
      Unrolls g component stack names →
      Unrolls g component (root :: stack) (walkWithin g component depth root ++ names) := by
  induction depth with
  | zero => exact fun hEnds h => h.skip hEnds
  | succ depth ih =>
      intro root stack names hEnds h
      have hBelow : ∀ {children : List ClassName},
          (∀ child ∈ children, EndsWithin g component depth child) →
          ∀ {stack}, Unrolls g component stack names → Unrolls g component (children ++ stack)
            (children.flatMap (walkWithin g component depth) ++ names) := by
        intro children
        induction children with
        | nil => exact fun _ _ h => h
        | cons child rest ihRest =>
            intro hAll stack h
            have hRest := ihRest (fun n hn => hAll n (List.mem_cons_of_mem child hn)) h
            have hFirst := ih (hAll child List.mem_cons_self) hRest
            rwa [← List.append_assoc, ← List.flatMap_cons] at hFirst
      rw [walkWithin]
      cases hFind : g.find? root with
      | none =>
          refine h.skip fun c hFound => ?_
          rw [hFind] at hFound
          cases hFound
      | some c =>
          show Unrolls g component (root :: stack) ((if onWalk component c then _ else []) ++ names)
          split
          · next hOn =>
              rw [List.append_assoc]
              exact Unrolls.enter hRooted hFind hOn fun hNew =>
                hBelow (hEnds c hFind hOn) (h.skipAll hNew)
          · next hOff =>
              refine h.skip fun d hd => ?_
              obtain rfl := Option.some.inj (hFind.symm.trans hd)
              exact Bool.eq_false_iff.mpr hOff

/-- **The traversal ends with the outcome of the visit**, in a program without cycles, and wherever
the visits of it stand. -/
theorem traverses_iff (hSync : InSync g) (hAcyclic : Acyclic g) {V : ClassName → Prop} {site : Site}
    (h : Surveyed g V site) {root : ClassName} {outcome : Except Fault Unit × Site} :
    Traverses component [root] site outcome ↔ outcome = (visit component root).on site := by
  obtain ⟨chain, hChain⟩ := exists_lineage hSync.rooted hAcyclic root
  have hEnds : EndsWithin g component site.graph.classes.length root := by
    refine endsWithin_of_lineage hSync (fun names hNodup hFound => ?_) hChain
      (Nat.le_add_right _ _)
    exact length_le_of_found hNodup fun n hn => h.isSome_of_isSome (hFound n hn)
  have hVisit : Traverses component [root] site ((visit component root).on site) := by
    have hPush := Unrolls.push hSync.rooted hEnds Unrolls.nil V site h
    rwa [List.append_nil, ← h.toGrown.walkWithin_eq] at hPush
  exact ⟨fun hOther => hOther.unique hVisit, fun hSame => hSame ▸ hVisit⟩

end

end HotPatch.Genesis
