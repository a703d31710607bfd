import Mathlib.Algebra.BigOperators.Fin
import Mathlib.Tactic.Ring
import HotPatch.Text.Utf16

/-!
# The hash of a text as a polynomial

Whoever makes a patch later, with other tools, has to come to the same number
for a class.  So the hash is said here without the loop that computes it: the
value at 31 of a polynomial, whose coefficients are the UTF-16 units of the
text, as a signed number of 32 bits (`hash_polynomial`).
-/

namespace HotPatch.Text

/-! ## UTF-16 -/

/-- The units are the UTF-16 form of the characters: a character of the basic plane is one unit, any
other a high and a low surrogate with ten bits each of what it is above that plane. -/
inductive Utf16 : List Char → List Nat → Prop where
  | done : Utf16 [] []
  | basic {c : Char} {chars : List Char} {us : List Nat} : c.toNat < 0x10000 → Utf16 chars us →
      Utf16 (c :: chars) (c.toNat :: us)
  | pair {c : Char} {high low : Nat} {chars : List Char} {us : List Nat} : high < 0x400 →
      low < 0x400 → c.toNat = 0x10000 + 0x400 * high + low → Utf16 chars us →
      Utf16 (c :: chars) ((0xD800 + high) :: (0xDC00 + low) :: us)

private theorem toNat_lt (c : Char) : c.toNat < 0x110000 := by
  rcases c.valid with hBelow | ⟨_, hAbove⟩
  · exact Nat.lt_trans hBelow (by decide)
  · exact hAbove

private theorem utf16_flatMap (chars : List Char) : Utf16 chars (chars.flatMap units) := by
  induction chars with
  | nil => exact .done
  | cons c rest ih =>
      rw [List.flatMap_cons, units]
      split
      · next hBasic => exact .basic hBasic ih
      · next hAbove =>
          have hLast := toNat_lt c
          exact .pair (by omega) (by omega) (by omega) ih

/-- No text has two forms. -/
theorem Utf16.eq_flatMap {chars : List Char} {us : List Nat} (h : Utf16 chars us) :
    us = chars.flatMap units := by
  induction h with
  | done => rfl
  | basic hBasic _ ih => rw [List.flatMap_cons, units, if_pos hBasic, ← ih]; rfl
  | @pair c high low _ _ hHigh hLow hc _ ih =>
      have hAbove : ¬ c.toNat < 0x10000 := by omega
      have hFirst : (c.toNat - 0x10000) / 0x400 = high := by omega
      have hSecond : (c.toNat - 0x10000) % 0x400 = low := by omega
      rw [List.flatMap_cons, units, if_neg hAbove, hFirst, hSecond, ← ih]
      rfl

private theorem utf16_iff {s : String} {us : List Nat} : Utf16 s.toList us ↔ us = units16 s :=
  ⟨Utf16.eq_flatMap, fun h => h ▸ utf16_flatMap s.toList⟩

/-- A supplementary character counts as two. -/
theorem Utf16.length_eq {chars : List Char} {us : List Nat} (h : Utf16 chars us) :
    us.length = chars.length + chars.countP fun c => 0x10000 ≤ c.toNat := by
  induction h with
  | done => rfl
  | basic hBasic _ ih =>
      rw [List.length_cons, ih, List.length_cons, List.countP_cons_of_neg (by simpa using hBasic)]
      omega
  | pair _ _ hc _ ih =>
      rw [List.length_cons, List.length_cons, ih, List.length_cons,
        List.countP_cons_of_pos (by rw [decide_eq_true_eq]; omega)]
      omega

/-! ## The polynomial -/

/-- The value at 31 of the polynomial with these coefficients, that of the highest power first. -/
def polynomial (us : List Nat) : Int :=
  ∑ i : Fin us.length, (us.get i : Int) * 31 ^ (us.length - 1 - i)

private theorem polynomial_cons (unit : Nat) (us : List Nat) :
    polynomial (unit :: us) = unit * 31 ^ us.length + polynomial us := by
  unfold polynomial
  refine (Fin.sum_univ_succ _).trans (congrArg₂ (· + ·) rfl (Finset.sum_congr rfl fun i _ => ?_))
  have hPower : (unit :: us).length - 1 - (i.succ : Nat) = us.length - 1 - i := by
    rw [List.length_cons, Fin.val_succ]
    omega
  rw [hPower]
  rfl

/-- One more unit. -/
theorem hashStep_ofInt (x : Int) (unit : Nat) :
    hashStep (.ofInt x) unit = .ofInt (x * 31 + unit) := by
  rw [hashStep, Int32.ofInt_add, Int32.ofInt_mul]
  rfl

/-- All units of a list, from any start. -/
theorem foldl_hashStep (us : List Nat) :
    ∀ x : Int, us.foldl hashStep (.ofInt x) = .ofInt (x * 31 ^ us.length + polynomial us) := by
  induction us with
  | nil =>
      intro x
      simp [polynomial]
  | cons unit rest ih =>
      intro x
      rw [List.foldl_cons, hashStep_ofInt, ih, polynomial_cons, List.length_cons]
      congr 1
      ring

private theorem hash_eq_ofInt (s : String) : hash s = .ofInt (polynomial (units16 s)) := by
  have hFold := foldl_hashStep (units16 s) 0
  rw [Int.zero_mul, Int.zero_add] at hFold
  exact hFold

private theorem hash_append (a b : String) :
    hash (a ++ b) = .ofInt ((hash a).toInt * 31 ^ (units16 b).length + polynomial (units16 b)) := by
  rw [hash, units16_append, List.foldl_append, ← foldl_hashStep, Int32.ofInt_toInt]
  rfl

/-- **The hash of a text is the polynomial in 31 over its UTF-16 units**, as the signed number of 32
bits that it is equal to modulo `2³²`.  The units are those of the standard and no others, a
supplementary character counting as two; and a text put behind another one moves the hash of that
one up by as many powers as the text has units. -/
theorem hash_polynomial (s : String) :
    (∀ us, Utf16 s.toList us ↔ us = units16 s) ∧
      (units16 s).length = s.length + (s.toList.countP fun c => 0x10000 ≤ c.toNat) ∧
      (hash s).toInt = Int.bmod (∑ i : Fin (units16 s).length,
        ((units16 s).get i : Int) * 31 ^ ((units16 s).length - 1 - i)) 4294967296 ∧
      ∀ front : String, (hash (front ++ s)).toInt =
        Int.bmod ((hash front).toInt * 31 ^ (units16 s).length + (hash s).toInt) 4294967296 := by
  have hSelf : (hash s).toInt = Int.bmod (polynomial (units16 s)) 4294967296 := by
    rw [hash_eq_ofInt, Int32.toInt_ofInt]
  refine ⟨fun us => utf16_iff, ?_, hSelf, fun front => ?_⟩
  · rw [(utf16_iff.mpr rfl : Utf16 s.toList (units16 s)).length_eq, String.length_toList]
  · rw [hash_append, Int32.toInt_ofInt, hSelf, Int.add_bmod_bmod]

example : hash "La/😀;" = -1973210178 := by decide

end HotPatch.Text
