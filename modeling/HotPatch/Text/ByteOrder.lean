/-!
# Texts in the order of their bytes

Members are numbered and listed in the order of their UTF-8 bytes, with a
proper initial part first.  The order is taken on the bytes themselves, so
it needs no table and is total and antisymmetric on texts as it is on lists
of bytes.
-/

namespace HotPatch.Text

/-- The UTF-8 bytes of a text. -/
def bytes (s : String) : List UInt8 := s.toByteArray.data.toList

/-- `a` comes no later than `b` in byte order. -/
def byteLe (a b : String) : Bool := decide (bytes a ≤ bytes b)

/-- Byte order on pairs of texts: the first component decides, then the second. -/
def byteLePair (a b : String × String) : Bool :=
  if a.1 = b.1 then byteLe a.2 b.2 else byteLe a.1 b.1

theorem bytes_injective {a b : String} (h : bytes a = bytes b) : a = b := by
  apply String.toByteArray_inj.mp
  simp only [bytes, Array.toList_inj] at h
  exact ByteArray.ext h

theorem byteLe_total (a b : String) : byteLe a b || byteLe b a := by
  simpa [byteLe] using List.le_total (bytes a) (bytes b)

theorem byteLe_trans {a b c : String} (hab : byteLe a b) (hbc : byteLe b c) :
    byteLe a c := by
  simp only [byteLe, decide_eq_true_eq] at *
  exact List.le_trans hab hbc

theorem byteLe_antisymm {a b : String} (hab : byteLe a b) (hba : byteLe b a) :
    a = b := by
  simp only [byteLe, decide_eq_true_eq] at hab hba
  exact bytes_injective (List.le_antisymm hab hba)

theorem byteLePair_total (a b : String × String) : byteLePair a b || byteLePair b a := by
  unfold byteLePair
  by_cases h : a.1 = b.1
  · simpa [h] using byteLe_total a.2 b.2
  · have h' : ¬ b.1 = a.1 := fun hEq => h hEq.symm
    simpa [h, h'] using byteLe_total a.1 b.1

theorem byteLePair_trans {a b c : String × String} (hab : byteLePair a b)
    (hbc : byteLePair b c) : byteLePair a c := by
  unfold byteLePair at *
  by_cases h : a.1 = b.1
  · by_cases h' : b.1 = c.1
    · simp only [h, h', if_true] at hab hbc ⊢
      exact byteLe_trans hab hbc
    · simp only [h, h', if_false] at hbc ⊢
      exact hbc
  · by_cases h' : b.1 = c.1
    · rw [if_neg h] at hab
      rw [if_neg fun hEq => h (hEq.trans h'.symm), ← h']
      exact hab
    · rw [if_neg h] at hab
      rw [if_neg h'] at hbc
      rw [if_neg]
      · exact byteLe_trans hab hbc
      · intro hEq
        rw [← hEq] at hbc
        exact h (byteLe_antisymm hab hbc)

/-- The texts in byte order. -/
def sortBytes (texts : List String) : List String := texts.mergeSort byteLe

end HotPatch.Text
