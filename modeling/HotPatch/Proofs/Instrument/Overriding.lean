import HotPatch.Proofs.Program.Sweeps

/-!
# Overriding and wider access

A method that is visible in its package only cannot be overridden from another
package, and one that is public can.  Widening makes no private method virtual,
and it takes no method out of anybody's sight; so all that was overridden still
is.  What it adds are the pairs of methods that only a package kept apart, and
these alone (`widen_overrides_iff`).
-/

namespace HotPatch

/-! ## Overriding -/

/-- The method takes part in virtual dispatch. -/
def Method.isDispatched (m : Method) : Bool :=
  !m.isStatic && m.access.visibility != .priv && !m.name.isInit && !m.name.isClinit

/-- What a class declares with that visibility can be overridden in the class `below`. -/
def Visibility.opens (v : Visibility) (owner below : ClassName) : Bool :=
  match v with
  | .pub | .prot => true
  | .pkg => below.package == owner.package
  | .priv => false

namespace ClassGraph

/-- The method that a reference names. -/
def method? (g : ClassGraph) (ref : MethodRef) : Option Method :=
  (g.find? ref.owner).bind (·.findMethod? ref.name ref.signature)

/-- Two methods of one name and signature that take part in virtual dispatch, the second one,
`n`, in a class above that of the first. -/
structure Lined (g : ClassGraph) (ref above : MethodRef) (n : Method) : Prop where
  name : above.name = ref.name
  signature : above.signature = ref.signature
  ancestor : above.owner ∈ g.ancestors ref.owner
  lower : ∃ m ∈ g.method? ref, m.isDispatched = true
  upper : n.isDispatched = true

/-- The first method overrides the second. -/
def Overrides (g : ClassGraph) (ref above : MethodRef) : Prop :=
  ∃ n ∈ g.method? above, g.Lined ref above n ∧
    n.access.visibility.opens above.owner ref.owner = true

/-- The first method does not override the second for one reason: that one can be seen in its
package only, and the first is in another. -/
def KeptApart (g : ClassGraph) (ref above : MethodRef) : Prop :=
  ∃ n ∈ g.method? above, g.Lined ref above n ∧
    n.access.visibility = .pkg ∧ ref.owner.package ≠ above.owner.package

private theorem lined_iff {g : ClassGraph} {ref above : MethodRef} {n : Method} :
    g.Lined ref above n ↔ above.name = ref.name ∧ above.signature = ref.signature ∧
      above.owner ∈ g.ancestors ref.owner ∧ (∃ m ∈ g.method? ref, m.isDispatched = true) ∧
      n.isDispatched = true :=
  ⟨fun h => ⟨h.name, h.signature, h.ancestor, h.lower, h.upper⟩,
    fun h => ⟨h.1, h.2.1, h.2.2.1, h.2.2.2.1, h.2.2.2.2⟩⟩

instance (g : ClassGraph) (ref above : MethodRef) (n : Method) :
    Decidable (g.Lined ref above n) :=
  decidable_of_iff _ lined_iff.symm

instance (g : ClassGraph) (ref above : MethodRef) : Decidable (g.Overrides ref above) :=
  inferInstanceAs (Decidable (∃ n ∈ g.method? above, _))

instance (g : ClassGraph) (ref above : MethodRef) : Decidable (g.KeptApart ref above) :=
  inferInstanceAs (Decidable (∃ n ∈ g.method? above, _))

/-- Of two methods in line, the lower one overrides the upper one or is kept apart from it. -/
theorem Lined.opens_or {g : ClassGraph} {ref above : MethodRef} {n : Method}
    (h : g.Lined ref above n) :
    n.access.visibility.opens above.owner ref.owner = true ∨
      n.access.visibility = .pkg ∧ ref.owner.package ≠ above.owner.package := by
  have hUpper := h.upper
  unfold Method.isDispatched at hUpper
  cases hVisibility : n.access.visibility with
  | priv => simp [hVisibility] at hUpper
  | pkg =>
      by_cases hPackage : ref.owner.package = above.owner.package
      · exact .inl (beq_iff_eq.mpr hPackage)
      · exact .inr ⟨rfl, hPackage⟩
  | prot => exact .inl rfl
  | pub => exact .inl rfl

end ClassGraph

/-! ## Wider access -/

namespace Widening

open ClassGraph

/-- What is to become public is static, or was not private. -/
theorem not_priv_of_applies {makePublic : Bool} {m : Method} (h : applies makePublic m = true) :
    m.isStatic = true ∨ m.access.visibility ≠ .priv := by
  unfold applies at h
  cases hStatic : m.isStatic with
  | true => exact .inl rfl
  | false =>
      right
      intro hPriv
      simp [hStatic, hPriv] at h

/-- A method takes part in virtual dispatch, wide or not. -/
theorem isDispatched_widenMethod (makePublic : Bool) (m : Method) :
    (widenMethod makePublic m).isDispatched = m.isDispatched := by
  unfold widenMethod
  split
  · next hApplies =>
      have hWide : ({ m with access := m.access.widened } : Method).isDispatched =
          (!m.isStatic && true && !m.name.isInit && !m.name.isClinit) := rfl
      rw [hWide, Method.isDispatched]
      rcases not_priv_of_applies hApplies with hStatic | hVisible
      · rw [hStatic]
        rfl
      · rw [bne_iff_ne.mpr hVisible]
  · rfl

/-- A method that takes part in virtual dispatch becomes public, if instance methods do. -/
theorem visibility_widenMethod {makePublic : Bool} {m : Method} (h : m.isDispatched = true) :
    (widenMethod makePublic m).access.visibility =
      if makePublic then .pub else m.access.visibility := by
  simp only [Method.isDispatched, Bool.and_eq_true, Bool.not_eq_true', bne_iff_ne, ne_eq] at h
  obtain ⟨⟨⟨hStatic, hVisible⟩, _⟩, hClinit⟩ := h
  have hApplies : applies makePublic m = (makePublic && m.access.visibility != .pub) := by
    simp [applies, Method.isStaticInitializer, hClinit, hStatic, bne_iff_ne.mpr hVisible]
  rw [widenMethod, hApplies]
  cases makePublic with
  | false => rfl
  | true =>
      by_cases hPub : m.access.visibility = .pub
      · simp [hPub]
      · simp only [Bool.true_and, bne_iff_ne, ne_eq, hPub, not_false_eq_true, if_true]
        rfl

/-- The class of that name is one that widening is about. -/
def Reaches (g : ClassGraph) (owner : ClassName) : Prop := ∃ c ∈ g.find? owner, selects c = true

instance (g : ClassGraph) (owner : ClassName) : Decidable (Reaches g owner) :=
  inferInstanceAs (Decidable (∃ c ∈ g.find? owner, _))

/-- What becomes of a method of that class. -/
def widenedAt (g : ClassGraph) (makePublic : Bool) (owner : ClassName) (m : Method) : Method :=
  if Reaches g owner then widenMethod makePublic m else m

section

variable {makePublic : Bool} {g g' : ClassGraph}

private theorem method?_widen (h : (widen makePublic).on g = (.ok (), g')) (ref : MethodRef) :
    g'.method? ref = (g.method? ref).map (widenedAt g makePublic ref.owner) := by
  obtain ⟨_, _, hSweep, hReturn⟩ := Pass.on_bind_eq_ok.mp h
  cases hReturn
  have hRel := find?_sweep (fun _ => keepsName_widenClass makePublic) hSweep ref.owner
  unfold method?
  cases hFind : g.find? ref.owner with
  | none =>
      rw [hFind] at hRel
      generalize g'.find? ref.owner = found at hRel
      cases hRel
      rfl
  | some c =>
      rw [hFind] at hRel
      generalize g'.find? ref.owner = found at hRel
      cases hRel with
      | @some _ c' hSwept =>
          rw [Option.bind_some, Option.bind_some]
          have hReaches : Reaches g ref.owner ↔ selects c = true := by
            simp [Reaches, hFind]
          unfold Swept at hSwept
          split at hSwept
          · next hSelect =>
              obtain ⟨_, hOn⟩ := hSwept
              have hSame : (fun m : Method => m.isNamed ref.name ref.signature) ∘
                  widenMethod makePublic = fun m => m.isNamed ref.name ref.signature := by
                funext m
                rw [Function.comp_apply, widenMethod]
                split <;> rfl
              have hWide : widenedAt g makePublic ref.owner = widenMethod makePublic := by
                funext m
                rw [widenedAt, if_pos (hReaches.mpr hSelect)]
              rw [ClassDef.findMethod?, methods_widenClass (Pass.on_atomic_eq_ok.mp hOn),
                List.find?_map, hSame, hWide]
              rfl
          · next hSelect =>
              have hSame : widenedAt g makePublic ref.owner = fun m => m := by
                funext m
                rw [widenedAt, if_neg (mt hReaches.mp hSelect)]
              rw [hSwept, hSame, Option.map_id']

private theorem ancestors_widen (h : (widen makePublic).on g = (.ok (), g')) (name : ClassName) :
    g'.ancestors name = g.ancestors name := by
  have hAgree : Agree edges g g' := by
    refine agree_of_widen (fun c c' hWiden => ?_) h
    rcases widenClass_eq_ok hWiden with ⟨_, rfl⟩ | ⟨_, _, rfl⟩ <;> rfl
  exact hAgree.ancestors name

private theorem isDispatched_widenedAt (g : ClassGraph) (makePublic : Bool) (owner : ClassName)
    (m : Method) : (widenedAt g makePublic owner m).isDispatched = m.isDispatched := by
  unfold widenedAt
  split
  · exact isDispatched_widenMethod makePublic m
  · rfl

private theorem visibility_widenedAt {m : Method} (h : m.isDispatched = true) (owner : ClassName) :
    (widenedAt g makePublic owner m).access.visibility =
      if makePublic = true ∧ Reaches g owner then .pub else m.access.visibility := by
  unfold widenedAt
  by_cases hReaches : Reaches g owner
  · simp only [hReaches, if_true, and_true]
    exact visibility_widenMethod h
  · simp only [hReaches, if_false, and_false]

/-- Methods in line stay in line. -/
theorem lined_widen_iff (h : (widen makePublic).on g = (.ok (), g')) {ref above : MethodRef}
    {n : Method} :
    g'.Lined ref above (widenedAt g makePublic above.owner n) ↔ g.Lined ref above n := by
  rw [lined_iff, lined_iff, ancestors_widen h, method?_widen h, isDispatched_widenedAt]
  have hLower : (∃ m ∈ (g.method? ref).map (widenedAt g makePublic ref.owner),
      m.isDispatched = true) ↔ ∃ m ∈ g.method? ref, m.isDispatched = true := by
    cases g.method? ref with
    | none => simp
    | some m => simp [isDispatched_widenedAt]
  rw [hLower]

/-- **Wider access adds to what is overridden the pairs of methods that a package kept apart, and
nothing else.**  When widening succeeds, on any program: a method overrides another afterwards
exactly if it did before; or instance methods become public, the class of the upper one is among
those that widening is about, and the two were kept apart by their packages. -/
theorem widen_overrides_iff (h : (widen makePublic).on g = (.ok (), g')) (ref above : MethodRef) :
    g'.Overrides ref above ↔ g.Overrides ref above ∨
      makePublic = true ∧ Reaches g above.owner ∧ g.KeptApart ref above := by
  unfold Overrides KeptApart
  rw [method?_widen h]
  constructor
  · rintro ⟨n', hn', hLined', hOpens⟩
    obtain ⟨n, hn, rfl⟩ := Option.map_eq_some_iff.mp hn'
    have hLined := (lined_widen_iff h).mp hLined'
    rcases hLined.opens_or with hBefore | ⟨hPackage, hApart⟩
    · exact .inl ⟨n, hn, hLined, hBefore⟩
    · rw [visibility_widenedAt hLined.upper] at hOpens
      split at hOpens
      · next hWide => exact .inr ⟨hWide.1, hWide.2, n, hn, hLined, hPackage, hApart⟩
      · rw [hPackage] at hOpens
        exact absurd (beq_iff_eq.mp hOpens) hApart
  · rintro (⟨n, hn, hLined, hOpens⟩ | ⟨hPublic, hReaches, n, hn, hLined, _, _⟩)
    · refine ⟨_, Option.mem_map_of_mem _ hn, (lined_widen_iff h).mpr hLined, ?_⟩
      rw [visibility_widenedAt hLined.upper]
      split
      · rfl
      · exact hOpens
    · refine ⟨_, Option.mem_map_of_mem _ hn, (lined_widen_iff h).mpr hLined, ?_⟩
      rw [visibility_widenedAt hLined.upper, if_pos ⟨hPublic, hReaches⟩]
      rfl

end

/-- The method `m` of a class. -/
def mOf (owner : ClassName) : MethodRef := ⟨owner, ⟨"m"⟩, .void []⟩

/-- A class that declares `m` for its package. -/
def declaringM (name : ClassName) (superclass : Option ClassName) (subclasses : List ClassName) :
    ClassDef where
  name := name
  kind := .program
  access := { pub := true }
  superclass := superclass
  subclasses := subclasses
  methods := [{ owner := name, name := (mOf name).name, signature := (mOf name).signature
                access := {} }]

def baseName : ClassName := .of "a/Base"
def subName : ClassName := .of "b/Sub"
def leafName : ClassName := .of "a/Leaf"

/-- Three classes in line, the middle one in another package. -/
def acrossPackages : ClassGraph := ⟨[declaringM baseName none [subName],
  declaringM subName (some baseName) [leafName], declaringM leafName (some subName) []]⟩

/-- Past the class in between, what is overridden stays so; and the method of that class, which was
kept apart, comes to be overridden. -/
theorem widen_overrides_iff_leaf :
    ∃ g', (widen true).on acrossPackages = (.ok (), g') ∧
      acrossPackages.Overrides (mOf leafName) (mOf baseName) ∧
      ¬ acrossPackages.Overrides (mOf leafName) (mOf subName) ∧
      acrossPackages.KeptApart (mOf leafName) (mOf subName) ∧
      g'.Overrides (mOf leafName) (mOf baseName) ∧
      g'.Overrides (mOf leafName) (mOf subName) := by
  have hOk : ((widen true).on acrossPackages).1.isOk = true := by decide +kernel
  have hBefore : acrossPackages.Overrides (mOf leafName) (mOf baseName) := by decide +kernel
  have hApart : acrossPackages.KeptApart (mOf leafName) (mOf subName) := by decide +kernel
  have hReaches : Reaches acrossPackages (mOf subName).owner := by decide +kernel
  obtain ⟨_, hRun⟩ := Pass.exists_on_eq_ok hOk
  exact ⟨_, hRun, hBefore, by decide +kernel, hApart,
    (widen_overrides_iff hRun _ _).mpr (.inl hBefore),
    (widen_overrides_iff hRun _ _).mpr (.inr ⟨rfl, hReaches, hApart⟩)⟩

/-- A method that overrides nothing comes to override one of another package. -/
theorem widen_overrides_across_packages :
    ∃ g', Acyclic acrossPackages ∧ (widen true).on acrossPackages = (.ok (), g') ∧
      ¬ acrossPackages.Overrides (mOf subName) (mOf baseName) ∧
      g'.Overrides (mOf subName) (mOf baseName) := by
  have hAcyclic : Acyclic acrossPackages := by decide +kernel
  have hOk : ((widen true).on acrossPackages).1.isOk = true ∧
      ((widen true).on acrossPackages).2.Overrides (mOf subName) (mOf baseName) := by
    decide +kernel
  obtain ⟨_, hRun⟩ := Pass.exists_on_eq_ok hOk.1
  exact ⟨_, hAcyclic, hRun, by decide +kernel, hOk.2⟩

end Widening

end HotPatch
