import HotPatch.Proofs.Program.Sweeps

/-!
# A run in two stages

Up to the numbers, a run prepares the program: marks, access flags, genesis
classes and slots (`equip`).  Then it goes through the classes once more, and
all that the report says of classes is written there.
-/

namespace HotPatch.Instrument

/-- What full mode adds to the hierarchy, and light mode does not. -/
def complete (s : Settings) : Pass ClassGraph (List ClassName) :=
  if s.isFull then completeHierarchy else pure []

/-- All that comes before methods are numbered. -/
def equip (s : Settings) : Pass ClassGraph (List ClassName) := do
  modify (prepare s)
  Widening.widen s.makePublic
  modify fun g => (Manifest.mark g s.manifest).2
  let genesisClasses ← complete s
  let _ ← Slots.addInterceptorFields
  return genesisClasses

/-- A run equips the program and then instruments its classes. -/
theorem run_eq (s : Settings) :
    run s = do
      let genesisClasses ← equip s
      let classes ← instrumentClasses s
      return { classes, genesisClasses } := by
  unfold run equip complete
  simp only [bind_assoc, pure_bind]
  split <;> simp only [pure_bind]

section

variable {s : Settings} {g g' : ClassGraph}

/-- A run that succeeds, stage by stage. -/
theorem run_ok_iff {report : Report} :
    (run s).on g = (.ok report, g') ↔
      ∃ equipped, (equip s).on g = (.ok report.genesisClasses, equipped) ∧
        (instrumentClasses s).on equipped = (.ok report.classes, g') := by
  rw [run_eq]
  constructor
  · intro h
    obtain ⟨created, equipped, hEquip, h⟩ := Pass.on_bind_eq_ok.mp h
    obtain ⟨classes, _, hClasses, hReturn⟩ := Pass.on_bind_eq_ok.mp h
    cases hReturn
    exact ⟨equipped, hEquip, hClasses⟩
  · rintro ⟨equipped, hEquip, hClasses⟩
    refine Pass.on_bind_eq_ok.mpr ⟨_, equipped, hEquip, ?_⟩
    exact Pass.on_bind_eq_ok.mpr ⟨_, g', hClasses, rfl⟩

/-- The program from pass to pass of the first stage. -/
theorem equip_eq_ok {created : List ClassName} (h : (equip s).on g = (.ok created, g')) :
    ∃ widened completed count,
      (Widening.widen s.makePublic).on (prepare s g) = (.ok (), widened) ∧
      (complete s).on (s.manifest.mark widened).2 = (.ok created, completed) ∧
      Slots.addInterceptorFields.on completed = (.ok count, g') := by
  obtain ⟨_, _, hPrepare, h⟩ := Pass.on_bind_eq_ok.mp h
  cases hPrepare
  obtain ⟨_, widened, hWiden, h⟩ := Pass.on_bind_eq_ok.mp h
  obtain ⟨_, _, hMark, h⟩ := Pass.on_bind_eq_ok.mp h
  cases hMark
  obtain ⟨_, completed, hComplete, h⟩ := Pass.on_bind_eq_ok.mp h
  obtain ⟨count, _, hSlots, hReturn⟩ := Pass.on_bind_eq_ok.mp h
  cases hReturn
  exact ⟨widened, completed, count, hWiden, hComplete, hSlots⟩

/-- In light mode no genesis classes are made. -/
theorem complete_of_light (hLight : s.isFull = false) {created : List ClassName}
    (h : (complete s).on g = (.ok created, g')) : created = [] ∧ g' = g := by
  rw [complete, hLight, if_neg Bool.false_ne_true] at h
  cases h
  exact ⟨rfl, rfl⟩

/-- The program from pass to pass of what full mode adds. -/
theorem complete_of_full (hFull : s.isFull = true) {created : List ClassName}
    (h : (complete s).on g = (.ok created, g')) :
    ∃ built initialized count count',
      Genesis.build.on g = (.ok created, built) ∧
      Manifest.addStaticInitializers.on built = (.ok count, initialized) ∧
      Slots.addHolderFields.on initialized = (.ok count', g') := by
  rw [complete, hFull, if_pos rfl] at h
  obtain ⟨_, built, hBuild, h⟩ := Pass.on_bind_eq_ok.mp h
  obtain ⟨count, initialized, hInit, h⟩ := Pass.on_bind_eq_ok.mp h
  obtain ⟨count', _, hHolders, hReturn⟩ := Pass.on_bind_eq_ok.mp h
  cases hReturn
  exact ⟨built, initialized, count, count', hBuild, hInit, hHolders⟩

end

end HotPatch.Instrument
