import Mathlib.Data.List.Forall2
import Mathlib.Data.List.Sort

/-!
# Lists and answers

General facts that more than one part of the theory needs: computations that
may fail, one after the other or for every element of a list, and lists that
are related element by element.
-/

namespace HotPatch

/-! ## Computations that may fail -/

/-- Two steps succeed exactly if the first one does, and the second one with what it gives. -/
theorem bind_eq_ok {α β ε : Type} {x : Except ε α} {next : α → Except ε β} {b : β} :
    (x >>= next) = .ok b ↔ ∃ a, x = .ok a ∧ next a = .ok b := by
  cases x with
  | error e => simp [bind, Except.bind]
  | ok a => simp [bind, Except.bind]

/-- Renaming errors makes nothing succeed. -/
theorem mapError_eq_ok {α ε ε' : Type} {x : Except ε α} {wrap : ε → ε'} {a : α} :
    x.mapError wrap = .ok a ↔ x = .ok a := by
  cases x <;> simp [Except.mapError]

theorem map_some_eq_ok {α ε : Type} {x : Except ε α} {a : α} (h : x.map some = .ok (some a)) :
    x = .ok a := by
  cases x with
  | error e => cases h
  | ok b => cases h; rfl

/-- A list is mapped without a failure if every element is. -/
theorem mapM_eq_ok_iff {α β ε : Type} {f : α → Except ε β} {l : List α} :
    ∀ {l' : List β}, l.mapM f = .ok l' ↔ List.Forall₂ (fun a b => f a = .ok b) l l' := by
  induction l with
  | nil =>
      intro l'
      rw [List.forall₂_nil_left_iff, List.mapM_nil]
      exact ⟨fun h => (Except.ok.inj h).symm, fun h => h ▸ rfl⟩
  | cons a rest ih =>
      intro l'
      rw [List.mapM_cons, List.forall₂_cons_left_iff, bind_eq_ok]
      constructor
      · rintro ⟨b, hFirst, h⟩
        obtain ⟨others, hRest, h⟩ := bind_eq_ok.mp h
        exact ⟨b, others, hFirst, ih.mp hRest, (Except.ok.inj h).symm⟩
      · rintro ⟨b, others, hFirst, hRest, rfl⟩
        exact ⟨b, hFirst, bind_eq_ok.mpr ⟨others, ih.mpr hRest, rfl⟩⟩

/-- The results that every element has, if they are known. -/
theorem mapM_eq_map {α β ε : Type} {f : α → Except ε β} {g : α → β} {l : List α}
    (h : ∀ a ∈ l, f a = .ok (g a)) : l.mapM f = .ok (l.map g) := by
  rw [mapM_eq_ok_iff, List.forall₂_map_right_iff, List.forall₂_same]
  exact h

/-- A list is mapped if each of its entries is. -/
theorem exists_mapM {α β ε : Type} {f : α → Except ε β} {l : List α}
    (h : ∀ a ∈ l, ∃ b, f a = .ok b) : ∃ l', l.mapM f = .ok l' := by
  induction l with
  | nil => exact ⟨[], rfl⟩
  | cons a rest ih =>
      obtain ⟨b, hFirst⟩ := h a List.mem_cons_self
      obtain ⟨others, hRest⟩ := ih fun a' ha' => h a' (List.mem_cons_of_mem a ha')
      exact ⟨b :: others, by simp [List.mapM_cons, hFirst, hRest, bind, Except.bind, pure,
        Except.pure]⟩

/-! ## Lists related element by element -/

/-- Each entry of the right list has its partner in the left one. -/
theorem exists_left_of_forall₂ {α β : Type} {r : α → β → Prop} {l : List α} {l' : List β}
    (h : List.Forall₂ r l l') {b : β} (hb : b ∈ l') : ∃ a ∈ l, r a b := by
  induction h with
  | nil => cases hb
  | cons hFirst _ ih =>
      rcases List.mem_cons.mp hb with rfl | hb
      · exact ⟨_, List.mem_cons_self, hFirst⟩
      · obtain ⟨a, ha, hr⟩ := ih hb
        exact ⟨a, List.mem_cons_of_mem _ ha, hr⟩

/-- Partners of partners, with the one in the middle. -/
theorem forall₂_trans {α : Type} {rel rel' : α → α → Prop} {l l' : List α}
    (h : List.Forall₂ rel l l') :
    ∀ {l'' : List α}, List.Forall₂ rel' l' l'' →
      List.Forall₂ (fun a c => ∃ b, rel a b ∧ rel' b c) l l'' := by
  induction h with
  | nil =>
      intro l'' h'
      cases h'
      exact .nil
  | cons hFirst _ ih =>
      intro l'' h'
      cases h' with
      | cons hFirst' hRest' => exact .cons ⟨_, hFirst, hFirst'⟩ (ih hRest')

/-- Lists that agree through a view agree element by element. -/
theorem forall₂_of_map_eq {α β : Type} {view : α → β} {l l' : List α}
    (h : l'.map view = l.map view) : List.Forall₂ (fun a b => view b = view a) l l' := by
  have hSame : List.Forall₂ (fun a b : β => b = a) (l.map view) (l'.map view) := by
    rw [h, List.forall₂_same]
    exact fun _ _ => rfl
  rw [List.forall₂_map_left_iff, List.forall₂_map_right_iff] at hSame
  exact hSame

/-! ## Folds and sorting -/

/-- A running maximum stays below a bound exactly if all that it has seen does. -/
theorem foldl_max_le_iff {n : Nat} {extents : List Nat} :
    ∀ {start : Nat}, extents.foldl max start ≤ n ↔ start ≤ n ∧ ∀ e ∈ extents, e ≤ n := by
  induction extents with
  | nil => simp
  | cons e rest ih =>
      intro start
      simp only [List.foldl_cons, ih, Nat.max_le, List.mem_cons, forall_eq_or_imp, and_assoc]

/-- Sorting by insertion, which reduces by itself. -/
theorem mergeSort_eq_insertionSort {α : Type} {le : α → α → Bool}
    (hTrans : ∀ a b c, le a b = true → le b c = true → le a c = true)
    (hTotal : ∀ a b, (le a b || le b a) = true) (l : List α) :
    l.mergeSort le = l.insertionSort fun a b => le a b = true := by
  induction l with
  | nil => rw [List.mergeSort_nil, List.insertionSort_nil]
  | cons a rest ih =>
      obtain ⟨front, back, hAll, hRest, hFront⟩ := List.mergeSort_cons hTrans hTotal a rest
      have hSorted := List.pairwise_mergeSort hTrans hTotal (a :: rest)
      rw [hAll, List.pairwise_append, List.pairwise_cons] at hSorted
      rw [List.insertionSort_cons, ← ih, hRest, hAll]
      have hBack : back.orderedInsert (fun a b => le a b = true) a = a :: back := by
        cases back with
        | nil => rfl
        | cons b more =>
            exact List.orderedInsert_cons_of_le _ _ (hSorted.2.1.1 b List.mem_cons_self)
      clear hAll hRest hSorted ih
      induction front with
      | nil => exact hBack.symm
      | cons b more ih =>
          have hb : ¬ le a b = true := by simpa using hFront b List.mem_cons_self
          rw [List.cons_append, List.cons_append, List.orderedInsert, if_neg hb,
            ih fun b' hb' => hFront b' (List.mem_cons_of_mem b hb')]

end HotPatch
