import HotPatch.Proofs.Genesis.Boundaries
import HotPatch.Proofs.Genesis.Refinement
import HotPatch.Proofs.Genesis.Retargeting

/-!
# Classes that move take their calls along

The moves at the end of the insertion, whatever their outcome.  Each class
noted at a boundary is moved once, and then its methods with it, or the moves
have stopped at a fault before (`finish_settles`).  A class that has moved
calls the genesis class where it called the library class, and finds there
the constructors it needs, but for what is behind a constructor that cannot be
analyzed (`finish_tookCallsAlong_iff`).
-/

namespace HotPatch.Genesis

open ClassGraph

/-! ## What moves do to one class -/

/-- The class is where it was, with the methods it had. -/
def Kept (g g' : ClassGraph) (n : ClassName) : Prop :=
  g'.superclassOf n = g.superclassOf n ∧ g'.methods? n = g.methods? n

/-- The class has moved, and its methods as far as they could be retargeted. -/
def Shifted (old new : ClassName) (done : Bool) (g g' : ClassGraph) (n : ClassName) : Prop :=
  g'.superclassOf n = some new ∧ ∃ methods, g.methods? n = some methods ∧
    g'.methods? n = some (retargetMethods old new methods).2 ∧
    (done = true → (retargetMethods old new methods).1 = .ok ())

/-- The class has moved, or the moves have stopped before it. -/
def Settled (old new : ClassName) (done : Bool) (g g' : ClassGraph) (n : ClassName) : Prop :=
  Shifted old new done g g' n ∨ Kept g g' n ∧ done = false

section

variable {g g₁ g' : ClassGraph} {n old new : ClassName} {done : Bool}

theorem Kept.refl (g : ClassGraph) (n : ClassName) : Kept g g n := ⟨rfl, rfl⟩

theorem Kept.trans (h : Kept g g₁ n) (h' : Kept g₁ g' n) : Kept g g' n :=
  ⟨h'.1.trans h.1, h'.2.trans h.2⟩

theorem Kept.settled (h : Kept g g₁ n) (h' : Settled old new done g₁ g' n) :
    Settled old new done g g' n := by
  rcases h' with ⟨hSuper, methods, hMethods, hNow⟩ | ⟨hKept, hStopped⟩
  · exact .inl ⟨hSuper, methods, h.2 ▸ hMethods, hNow⟩
  · exact .inr ⟨h.trans hKept, hStopped⟩

/-- A class that has moved stays where it is. -/
theorem Shifted.kept (h : Shifted old new true g g₁ n) (h' : Kept g₁ g' n) (done : Bool) :
    Shifted old new done g g' n := by
  obtain ⟨hSuper, methods, hMethods, hNow, hDone⟩ := h
  exact ⟨h'.1.trans hSuper, methods, hMethods, h'.2.trans hNow, fun _ => hDone rfl⟩

end

/-! ## The moves, one after the other -/

/-- One move: nothing happens, or the class moves and the methods that can be retargeted. -/
theorem moveClass_settles (bottom genesis top : ClassName) (g : ClassGraph)
    {answer : Except Fault Unit} {g' : ClassGraph}
    (h : (moveClass bottom genesis top).on g = (answer, g')) :
    Settled bottom genesis answer.isOk g g' top ∧ (∀ n, n ≠ top → Kept g g' n) ∧
      ∀ n, g'.stem? n = g.stem? n := by
  unfold moveClass at h
  rw [Pass.on_bind, Pass.on_atomic] at h
  cases hMove : g.reparent top genesis with
  | error e =>
      simp only [hMove] at h
      cases h
      exact ⟨.inr ⟨.refl g top, rfl⟩, fun n _ => .refl g n, fun _ => rfl⟩
  | ok moved =>
      obtain ⟨hSuper, hStem⟩ := reparent_eq_ok hMove
      have hMethods := methods?_reparent hMove
      simp only [hMove, Pass.on_get_bind] at h
      have hTop : moved.superclassOf top = some genesis := by rw [hSuper, if_pos rfl]
      obtain ⟨c, hFind, _⟩ := find?_of_superclassOf hTop
      simp only [hFind, Pass.on_bind, Pass.on_modify] at h
      have hAnswer : answer = (retargetMethods bottom genesis c.methods).1 := by
        split at h <;> cases h <;> simp_all
      have hGraph : g' = moved.modify top fun d =>
          { d with methods := (retargetMethods bottom genesis c.methods).2 } := by
        split at h <;> cases h <;> rfl
      subst hAnswer hGraph
      have hOutline := @outline_eq_of_methods moved top (retargetMethods bottom genesis c.methods).2
      have hMethods' := methods?_setMethods moved top (retargetMethods bottom genesis c.methods).2
      have hHad := methods?_of_find? hFind
      refine ⟨.inl ⟨?_, c.methods, ?_, ?_, fun hDone => ?_⟩, fun n hn => ⟨?_, ?_⟩, fun n => ?_⟩
      · rw [superclassOf_eq_outline, hOutline, ← superclassOf_eq_outline, hTop]
      · rw [← hMethods, hHad]
      · rw [hMethods', if_pos rfl, hHad, Option.map_some]
      · cases hRetarget : (retargetMethods bottom genesis c.methods).1 with
        | error e => rw [hRetarget] at hDone; cases hDone
        | ok _ => rfl
      · rw [superclassOf_eq_outline, hOutline, ← superclassOf_eq_outline, hSuper, if_neg hn]
      · rw [hMethods', if_neg hn, hMethods]
      · rw [stem?_eq_outline, hOutline, ← stem?_eq_outline, hStem]

private theorem moveAll_settles (bottom genesis : ClassName) {tops : List ClassName} :
    ∀ {g g' : ClassGraph} {answer : Except Fault Unit}, tops.Nodup →
      (moveAll bottom genesis tops).on g = (answer, g') →
      (∀ t ∈ tops, Settled bottom genesis answer.isOk g g' t) ∧ (∀ n, n ∉ tops → Kept g g' n) ∧
        ∀ n, g'.stem? n = g.stem? n := by
  induction tops with
  | nil =>
      intro g g' answer _ h
      cases h
      exact ⟨nofun, fun n _ => .refl g n, fun _ => rfl⟩
  | cons top rest ih =>
      intro g g' answer hNodup h
      obtain ⟨hNew, hNodup⟩ := List.nodup_cons.mp hNodup
      have hApart : ∀ n ∈ rest, n ≠ top := by
        rintro n hn rfl
        exact hNew hn
      rw [moveAll, Pass.on_bind] at h
      cases hFirst : (moveClass bottom genesis top).on g with
      | mk first middle =>
          obtain ⟨hTop, hOthers, hStem⟩ := moveClass_settles bottom genesis top g hFirst
          rw [hFirst] at h
          cases first with
          | error e =>
              cases h
              refine ⟨fun t ht => ?_, fun n hn => ?_, hStem⟩
              · rcases List.mem_cons.mp ht with rfl | ht
                · exact hTop
                · exact .inr ⟨hOthers t (hApart t ht), rfl⟩
              · exact hOthers n fun hEq => hn (hEq ▸ List.mem_cons_self)
          | ok _ =>
              obtain ⟨hRest, hKept, hStem'⟩ := ih hNodup h
              refine ⟨fun t ht => ?_, fun n hn => ?_, fun n => (hStem' n).trans (hStem n)⟩
              · rcases List.mem_cons.mp ht with rfl | ht
                · rcases hTop with hShifted | ⟨_, hStopped⟩
                  · exact .inl (hShifted.kept (hKept t hNew) _)
                  · cases hStopped
                · exact (hOthers t (hApart t ht)).settled (hRest t ht)
              · rw [List.mem_cons, not_or] at hn
                exact (hOthers n hn.1).trans (hKept n hn.2)

/-- **Every class noted at a boundary moves once**, unless the moves stop before it; no other
class changes. -/
theorem finish_settles {boundaries : List Boundary} :
    ∀ {g g' : ClassGraph} {answer : Except Fault (List ClassName)},
      (∀ b ∈ boundaries, b.tops.Nodup) →
      boundaries.Pairwise (fun b b' => ∀ n ∈ b.tops, n ∉ b'.tops) →
      (finish boundaries).on g = (answer, g') →
      (∀ b ∈ boundaries, ∀ t ∈ b.tops, Settled b.bottom b.genesis answer.isOk g g' t) ∧
        (∀ n, (∀ b ∈ boundaries, n ∉ b.tops) → Kept g g' n) ∧
        ∀ n, g'.stem? n = g.stem? n := by
  induction boundaries with
  | nil =>
      intro g g' answer _ _ h
      cases h
      exact ⟨nofun, fun n _ => .refl g n, fun _ => rfl⟩
  | cons b rest ih =>
      intro g g' answer hNodup hApart h
      obtain ⟨hFirst, hRest⟩ := List.pairwise_cons.mp hApart
      rw [finish, Pass.on_bind] at h
      cases hMove : (moveAll b.bottom b.genesis b.tops).on g with
      | mk first middle =>
          obtain ⟨hTops, hOthers, hStem⟩ :=
            moveAll_settles b.bottom b.genesis (hNodup b List.mem_cons_self) hMove
          rw [hMove] at h
          cases first with
          | error e =>
              cases h
              refine ⟨fun b' hb' t ht => ?_, fun n hn => hOthers n (hn b List.mem_cons_self), hStem⟩
              rcases List.mem_cons.mp hb' with rfl | hb'
              · exact hTops t ht
              · exact .inr ⟨hOthers t fun ht' => hFirst b' hb' t ht' ht, rfl⟩
          | ok _ =>
              cases hFinish : (finish rest).on middle with
              | mk others last =>
                  have hEnd : g' = last ∧ answer.isOk = others.isOk := by
                    simp only [Pass.on_bind, hFinish] at h
                    cases others <;> cases h <;> exact ⟨rfl, rfl⟩
                  obtain ⟨rfl, hSame⟩ := hEnd
                  rw [hSame]
                  obtain ⟨hSettled, hKept, hStem'⟩ :=
                    ih (fun b' hb' => hNodup b' (List.mem_cons_of_mem b hb')) hRest hFinish
                  refine ⟨fun b' hb' t ht => ?_, fun n hn => ?_,
                    fun n => (hStem' n).trans (hStem n)⟩
                  · rcases List.mem_cons.mp hb' with rfl | hb'
                    · rcases hTops t ht with hShifted | ⟨_, hStopped⟩
                      · exact .inl (hShifted.kept (hKept t fun b'' hb'' => hFirst b'' hb'' t ht) _)
                      · cases hStopped
                    · have hKeep := hOthers t fun ht' => hFirst b' hb' t ht' ht
                      exact hKeep.settled (hSettled b' hb' t ht)
                  · have hKeep := hOthers n (hn b List.mem_cons_self)
                    exact hKeep.trans (hKept n fun b' hb' => hn b' (List.mem_cons_of_mem b hb'))

/-! ## Calls -/

/-- What has become of a class that moved from a library class to a genesis class. -/
structure TookCallsAlong (g' : ClassGraph) (old new : ClassName) (c c' : ClassDef) : Prop where
  own : c.isOwn = true
  library : HasLibrary g' old
  genesis : ∃ d, g'.find? new = some d ∧ d.isGenesis = true
  methods : List.Forall₂ (MovedMethod old new) c.methods c'.methods
  /-- A reference to a constructor of the library class that subclasses can call leads, under the
  new name, to a constructor that the genesis class declares. -/
  resolves : ∀ {p : ClassDef} {m : Method} {target : MethodRef}, g'.find? old = some p →
    m ∈ p.methods → isInheritable m = true → target.name = .init →
    target.signature = m.signature → ∃ n, g'.getMethod (target.withOwner new) = .ok n ∧
      n.isConstructor = true ∧ n.owner = new

/-- A method is found through its class. -/
theorem getMethod_of_find? {g : ClassGraph} {c : ClassDef} {m : Method} {ref : MethodRef}
    (hFind : g.find? ref.owner = some c)
    (hMethod : c.findMethod? ref.name ref.signature = some m) : g.getMethod ref = .ok m := by
  simp [getMethod, get_eq_ok.mpr hFind, hMethod, bind, Except.bind]

/-- What a class is that keeps its methods, when others move. -/
theorem Kept.find {g g' : ClassGraph} {n : ClassName} {c : ClassDef} (h : Kept g g' n)
    (hStem : g'.stem? n = g.stem? n) (hFind : g.find? n = some c) :
    ∃ c', g'.find? n = some c' ∧ c'.methods = c.methods ∧ c'.kind = c.kind ∧
      c'.isGenesis = c.isGenesis := by
  rw [stem?, stem?, hFind, Option.map_some] at hStem
  obtain ⟨c', hFind', hEq⟩ := Option.map_eq_some_iff.mp hStem
  have hMethods := h.2
  rw [methods?_of_find? hFind, methods?_of_find? hFind', Option.some.injEq] at hMethods
  have hKind : c'.stem.kind = c.stem.kind := congrArg ClassDef.kind hEq
  have hGenesis : c'.stem.isGenesis = c.stem.isGenesis := congrArg ClassDef.isGenesis hEq
  exact ⟨c', hFind', hMethods, hKind, hGenesis⟩

/-- Two boundaries have no top in common. -/
theorem Laid.apart {site : Site} (h : Laid site) :
    site.boundaries.Pairwise fun b b' => ∀ n ∈ b.tops, n ∉ b'.tops := by
  have hApart := List.pairwise_map.mp h.distinct
  refine hApart.imp_of_mem fun {b b'} hb hb' hNe n hn hn' => hNe ?_
  obtain ⟨c, hc, _, hs⟩ := (h.stands b hb).tops n hn
  obtain ⟨c', hc', _, hs'⟩ := (h.stands b' hb').tops n hn'
  obtain rfl := Option.some.inj (hc.symm.trans hc')
  exact Option.some.inj (hs.symm.trans hs')

/-- No class is its own genesis class. -/
theorem genesisName_ne (bottom : ClassName) : genesisName bottom ≠ bottom := by
  intro h
  have hText : bottom.text ++ suffix = bottom.text := congrArg ClassName.text h
  have hLength := congrArg String.length hText
  rw [String.length_append] at hLength
  have hSuffix : suffix.length = 8 := by decide
  omega

/-- Moves from boundaries that stand, whatever the outcome.  Classes that are not own are no tops,
and stay as they are. -/
theorem Laid.tookCallsAlong_iff {site : Site} (hLaid : Laid site) {g' : ClassGraph}
    {answer : Except Fault (List ClassName)}
    (hFinish : (finish site.boundaries).on site.graph = (answer, g'))
    {name old new : ClassName} {c c' : ClassDef} (hBefore : site.graph.find? name = some c)
    (hAfter : g'.find? name = some c') (hOld : c.superclass = some old)
    (hNew : c'.superclass = some new) (hMoved : new ≠ old) :
    TookCallsAlong g' old new c c' ↔
      ∀ m ∈ c.methods.dropWhile analyzes, ¬ CallsUpTo old m := by
  obtain ⟨hSettled, hKept, hStem⟩ :=
    finish_settles (fun b hb => (hLaid.stands b hb).once) hLaid.apart hFinish
  have hNotKept : ¬ Kept site.graph g' name := by
    intro hKept
    have hSame := hKept.1
    rw [superclassOf_of_find? hBefore, superclassOf_of_find? hAfter, hOld, hNew] at hSame
    exact hMoved (Option.some.inj hSame)
  have hTop : ∃ b ∈ site.boundaries, name ∈ b.tops := by
    by_contra hNone
    refine hNotKept (hKept name fun b hb hn => hNone ⟨b, hb, hn⟩)
  obtain ⟨b, hb, hn⟩ := hTop
  have hStands := hLaid.stands b hb
  obtain ⟨d, hd, hOwn, hSuper⟩ := hStands.tops name hn
  obtain rfl := Option.some.inj (hBefore.symm.trans hd)
  obtain rfl := Option.some.inj (hOld.symm.trans hSuper)
  have hOthers : ∀ {n : ClassName} {d : ClassDef}, site.graph.find? n = some d →
      d.isOwn = false → Kept site.graph g' n := by
    intro n d hd hOther
    refine hKept n fun b' hb' hn' => ?_
    rw [((hLaid.stands b' hb').tops n hn').isOwn hd] at hOther
    cases hOther
  obtain ⟨p, G, hp, hLibrary, hG, hGenesis, hOffers⟩ := hStands.ends
  have hOtherG : G.isOwn = false := by simp [ClassDef.isOwn, hGenesis]
  obtain ⟨p', hp', hSame, hKind, _⟩ :=
    (hOthers hp (isOwn_of_isLibrary hLibrary)).find (hStem _) hp
  obtain ⟨G', hG', hSame', _, hIs⟩ := (hOthers hG hOtherG).find (hStem _) hG
  rcases hSettled b hb name hn with ⟨hNow, methods, hHad, hHas, _⟩ | ⟨hKept, _⟩
  · rw [superclassOf_of_find? hAfter, hNew, Option.some.injEq] at hNow
    subst hNow
    rw [methods?_of_find? hBefore, Option.some.injEq] at hHad
    subst hHad
    rw [methods?_of_find? hAfter, Option.some.injEq] at hHas
    rw [← forall₂_retargetMethods_iff hMoved, ← hHas]
    refine ⟨fun h => h.methods, fun hMethods =>
      ⟨hOwn, ⟨p', hp', ?_⟩, ⟨G', hG', hIs.trans hGenesis⟩, hMethods, ?_⟩⟩
    · rw [ClassDef.isLibrary, hKind]
      exact hLibrary
    · intro p'' m target hp'' hm hInheritable hInit hSignature
      obtain rfl := Option.some.inj (hp'.symm.trans hp'')
      obtain ⟨n, hFound, hConstructor, hOwner⟩ := hOffers m (hSame ▸ hm) hInheritable
      refine ⟨n, getMethod_of_find? hG' ?_, hConstructor, ?_⟩
      · rw [ClassDef.findMethod?, hSame']
        show G.findMethod? target.name target.signature = some n
        rw [hInit, hSignature]
        exact hFound
      · rw [hOwner, hStands.named, name_of_find? hp]
  · exact (hNotKept hKept).elim

/-- **When a class that moves takes its calls along.**  After any visits of any graph, and moves of
any outcome: the class names the genesis class where it called up to the library class before,
nothing else of its methods is different, and delegated calls are found where they were.  This
holds exactly if no call up to the library class is in a constructor that cannot be analyzed or in
a method behind one: there the moves have stopped, with the class already moved. -/
theorem finish_tookCallsAlong_iff {g g' : ClassGraph} {visits : List (ComponentType × ClassName)}
    {answer : Except Fault (List ClassName)}
    (hFinish : (finish (siteAfter g visits).boundaries).on (siteAfter g visits).graph =
      (answer, g'))
    {name old new : ClassName} {c c' : ClassDef}
    (hBefore : (siteAfter g visits).graph.find? name = some c)
    (hAfter : g'.find? name = some c') (hOld : c.superclass = some old)
    (hNew : c'.superclass = some new) (hMoved : new ≠ old) :
    TookCallsAlong g' old new c c' ↔
      ∀ m ∈ c.methods.dropWhile analyzes, ¬ CallsUpTo old m :=
  (laid_siteAfter g visits).tookCallsAlong_iff hFinish hBefore hAfter hOld hNew hMoved

/-- A constructor that makes another object of the superclass before it calls up. -/
def mirrorConstructor (owner superclass : ClassName) : Method where
  owner := owner
  name := .init
  signature := .void []
  access := { pub := true, isInitializer := true }
  body := some ⟨1, 1,
    [.newInstance (.v 0) superclass,
      .invoke .direct .fixed [.v 0] ⟨superclass, .init, .void []⟩,
      .invoke .direct .fixed [.p 0] ⟨superclass, .init, .void []⟩, .returnVoid], 0⟩

/-- A component with these methods, right below a library class. -/
def lone (methods : List Method) : ClassGraph := ⟨[
  { name := screenName, kind := .library, access := {}, subclasses := [mainName]
    methods := [plainConstructor screenName topName]
    marks := ComponentMarks.none.mark .activity { ancestor := true } },
  { name := mainName, kind := .program, access := {}, superclass := some screenName
    methods
    marks := ComponentMarks.none.mark .activity { direct := true } }]⟩

/-- The constructor calls two constructors of the library class. -/
def mirrored : ClassGraph := lone [mirrorConstructor mainName screenName]

/-- The object made on the way is still one of the library class. -/
theorem finish_tookCallsAlong_iff_mirrored :
    ∃ g' c c', (finish (siteAfter mirrored [(.activity, screenName)]).boundaries).on
        (siteAfter mirrored [(.activity, screenName)]).graph =
          (.ok [genesisName screenName], g') ∧
      (siteAfter mirrored [(.activity, screenName)]).graph.find? mainName = some c ∧
      g'.find? mainName = some c' ∧
      c'.methods.map (fun m => (m.body.map (·.instructions)).getD []) =
        [[.newInstance (.v 0) screenName,
          .invoke .direct .fixed [.v 0] ⟨screenName, .init, .void []⟩,
          .invoke .direct .fixed [.p 0] ⟨genesisName screenName, .init, .void []⟩,
          .returnVoid]] ∧
      TookCallsAlong g' screenName (genesisName screenName) c c' := by
  obtain ⟨site, hSite⟩ : ∃ site, site = siteAfter mirrored [(.activity, screenName)] := ⟨_, rfl⟩
  have hAnswer : ((finish site.boundaries).on site.graph).1 = .ok [genesisName screenName] := by
    subst hSite
    decide +kernel
  have hFinish : (finish site.boundaries).on site.graph =
      (.ok [genesisName screenName], ((finish site.boundaries).on site.graph).2) :=
    Prod.ext hAnswer rfl
  have hOld : site.graph.superclassOf mainName = some screenName := by
    subst hSite
    decide +kernel
  have hNew : ((finish site.boundaries).on site.graph).2.superclassOf mainName =
      some (genesisName screenName) := by
    subst hSite
    decide +kernel
  have hCode : (((finish site.boundaries).on site.graph).2.methods? mainName).map
      (fun methods => methods.map fun m => (m.body.map (·.instructions)).getD []) = some
        [[.newInstance (.v 0) screenName,
          .invoke .direct .fixed [.v 0] ⟨screenName, .init, .void []⟩,
          .invoke .direct .fixed [.p 0] ⟨genesisName screenName, .init, .void []⟩,
          .returnVoid]] := by
    subst hSite
    decide +kernel
  have hAnalyzed : (site.graph.methods? mainName).map (·.dropWhile analyzes) = some [] := by
    subst hSite
    decide +kernel
  obtain ⟨c, hc, hSuper⟩ := find?_of_superclassOf hOld
  obtain ⟨c', hc', hSuper'⟩ := find?_of_superclassOf hNew
  rw [methods?_of_find? hc', Option.map_some, Option.some.injEq] at hCode
  rw [methods?_of_find? hc, Option.map_some, Option.some.injEq] at hAnalyzed
  subst hSite
  refine ⟨_, c, c', hFinish, hc, hc', hCode, ?_⟩
  refine (finish_tookCallsAlong_iff hFinish hc hc' hSuper hSuper'
    (genesisName_ne screenName)).mpr ?_
  rw [hAnalyzed]
  exact List.forall_mem_nil _

/-- A constructor that places a label twice. -/
def doubledConstructor (owner : ClassName) : Method where
  owner := owner
  name := .init
  signature := .void [.base .int]
  access := { pub := true, isInitializer := true }
  body := some ⟨0, 2, [.label ⟨0⟩, .label ⟨0⟩, .returnVoid], 1⟩

/-- The first constructor cannot be analyzed, the second one calls up. -/
def doubled : ClassGraph :=
  lone [doubledConstructor mainName, plainConstructor mainName screenName]

/-- The moves stop at the first constructor: the class is below the genesis class and its second
constructor still calls the one of the library class. -/
theorem finish_leavesCallsBehind :
    ∃ g' c c', (finish (siteAfter doubled [(.activity, screenName)]).boundaries).on
        (siteAfter doubled [(.activity, screenName)]).graph =
          (.error (.body (.duplicateLabel ⟨0⟩)), g') ∧
      (siteAfter doubled [(.activity, screenName)]).graph.find? mainName = some c ∧
      g'.find? mainName = some c' ∧
      c.superclass = some screenName ∧ c'.superclass = some (genesisName screenName) ∧
      (∃ m ∈ c'.methods, CallsUpTo screenName m) ∧
      ¬ TookCallsAlong g' screenName (genesisName screenName) c c' := by
  obtain ⟨site, hSite⟩ : ∃ site, site = siteAfter doubled [(.activity, screenName)] := ⟨_, rfl⟩
  have hAnswer : ((finish site.boundaries).on site.graph).1 =
      .error (.body (.duplicateLabel ⟨0⟩)) := by
    subst hSite
    decide +kernel
  have hOld : site.graph.superclassOf mainName = some screenName := by
    subst hSite
    decide +kernel
  have hNew : ((finish site.boundaries).on site.graph).2.superclassOf mainName =
      some (genesisName screenName) := by
    subst hSite
    decide +kernel
  have hMethods : ((finish site.boundaries).on site.graph).2.methods? mainName =
      some [doubledConstructor mainName,
        { plainConstructor mainName screenName with role := .componentDirect }] := by
    subst hSite
    decide +kernel
  have hFind : Delegation.find (some screenName) (plainConstructor mainName screenName)
      ⟨0, 1, [.invoke .direct .fixed [.p 0] ⟨screenName, .init, .void []⟩, .returnVoid], 0⟩ =
        .ok ⟨0, ⟨screenName, .init, .void []⟩⟩ := by
    decide +kernel
  have hUp := callsUp_of_find rfl hFind
  obtain ⟨c, hc, hSuper⟩ := find?_of_superclassOf hOld
  obtain ⟨c', hc', hSuper'⟩ := find?_of_superclassOf hNew
  rw [methods?_of_find? hc', Option.some.injEq] at hMethods
  have hLast : { plainConstructor mainName screenName with role := .componentDirect } ∈
      c'.methods := by
    rw [hMethods]
    exact List.mem_cons_of_mem _ List.mem_cons_self
  subst hSite
  refine ⟨_, c, c', Prod.ext hAnswer rfl, hc, hc', hSuper, hSuper',
    ⟨_, hLast, _, _, _, rfl, hUp, rfl⟩, fun hAlong => ?_⟩
  obtain ⟨m, _, hMoved⟩ := exists_left_of_forall₂ hAlong.methods hLast
  cases hBody : m.body with
  | none => cases hMoved.none hBody
  | some b =>
      obtain ⟨b', hBody', hGone⟩ := hMoved.body hBody
      obtain rfl := Option.some.inj hBody'
      have hSame : m.isConstructor = true := (congrArg Method.isConstructor hMoved.frame).symm
      exact hGone.gone (hUp.imp_right fun h => ⟨hSame, h.2⟩) rfl

end HotPatch.Genesis
