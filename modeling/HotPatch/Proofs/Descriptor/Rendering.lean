import HotPatch.Descriptor.Type

/-!
# Descriptors tell types apart

A descriptor says where it ends: a primitive type is one letter, a class name
runs up to the first `;`, and an array is a bracket and then a descriptor.  So
of two types, whatever is written behind them, the texts differ as soon as the
types do.
-/

namespace HotPatch

/-- Texts up to the first mark, and what is behind it. -/
theorem append_mark_inj {mark : Char} {xs : List Char} :
    ∀ {ys rest rest' : List Char}, mark ∉ xs → mark ∉ ys →
      xs ++ mark :: rest = ys ++ mark :: rest' → xs = ys ∧ rest = rest' := by
  induction xs with
  | nil =>
      intro ys rest rest' _ hYs h
      cases ys with
      | nil => exact ⟨rfl, (List.cons.inj h).2⟩
      | cons y ys => exact absurd (List.mem_cons.mpr (.inl (List.cons.inj h).1)) hYs
  | cons x xs ih =>
      intro ys rest rest' hXs hYs h
      cases ys with
      | nil => exact absurd (List.mem_cons.mpr (.inl (List.cons.inj h).1.symm)) hXs
      | cons y ys =>
          rw [List.mem_cons, not_or] at hXs hYs
          obtain ⟨rfl, hMore⟩ := List.cons.inj h
          obtain ⟨rfl, hRest⟩ := ih hXs.2 hYs.2 hMore
          exact ⟨rfl, hRest⟩

/-- Primitive types have different letters. -/
theorem Primitive.code_inj {p q : Primitive} (h : p.code = q.code) : p = q := by
  have hSame := ofCode?_code p
  rw [h, ofCode?_code] at hSame
  exact (Option.some.inj hSame).symm

namespace ValueType

/-- The characters that a descriptor of a type may start with. -/
theorem descriptorChars_eq_cons (type : ValueType) :
    ∃ first rest, type.descriptorChars = first :: rest ∧ first ≠ ')' ∧ first ≠ 'V' := by
  cases type with
  | base p => exact ⟨p.code, [], rfl, by cases p <;> decide, by cases p <;> decide⟩
  | object cls => exact ⟨'L', _, rfl, by decide, by decide⟩
  | array element => exact ⟨'[', _, rfl, by decide, by decide⟩

/-- **Descriptors end where they end**: no descriptor is the beginning of another one. -/
theorem descriptorChars_append_inj {type : ValueType} :
    ∀ {type' : ValueType} {rest rest' : List Char},
      type.descriptorChars ++ rest = type'.descriptorChars ++ rest' →
        type = type' ∧ rest = rest' := by
  induction type with
  | base p =>
      intro type' rest rest' h
      cases type' with
      | base q =>
          obtain ⟨hCode, hRest⟩ := List.cons.inj h
          exact ⟨congrArg _ (Primitive.code_inj hCode), hRest⟩
      | object cls => cases p <;> cases (List.cons.inj h).1
      | array element => cases p <;> cases (List.cons.inj h).1
  | object cls =>
      intro type' rest rest' h
      cases type' with
      | base q => cases q <;> cases (List.cons.inj h).1
      | object cls' =>
          simp only [descriptorChars, ClassName.descriptorChars, List.cons_append,
            List.append_assoc, List.nil_append, List.cons.injEq, true_and] at h
          obtain ⟨hText, hRest⟩ := append_mark_inj cls.bounded cls'.bounded h
          exact ⟨congrArg object (ClassName.ext (String.toList_inj.mp hText)), hRest⟩
      | array element => cases (List.cons.inj h).1
  | array element ih =>
      intro type' rest rest' h
      cases type' with
      | base q => cases q <;> cases (List.cons.inj h).1
      | object cls => cases (List.cons.inj h).1
      | array element' =>
          simp only [descriptorChars, List.cons_append, List.cons.injEq, true_and] at h
          obtain ⟨rfl, hRest⟩ := ih h
          exact ⟨rfl, hRest⟩

/-- The same for lists of types up to a closing bracket. -/
theorem flatMap_descriptorChars_inj {types : List ValueType} :
    ∀ {types' : List ValueType} {rest rest' : List Char},
      types.flatMap descriptorChars ++ ')' :: rest =
        types'.flatMap descriptorChars ++ ')' :: rest' → types = types' ∧ rest = rest' := by
  induction types with
  | nil =>
      intro types' rest rest' h
      cases types' with
      | nil => exact ⟨rfl, (List.cons.inj h).2⟩
      | cons type' others =>
          obtain ⟨first, more, hChars, hClose, _⟩ := type'.descriptorChars_eq_cons
          rw [List.flatMap_cons, hChars] at h
          exact absurd (List.cons.inj h).1.symm hClose
  | cons type others ih =>
      intro types' rest rest' h
      cases types' with
      | nil =>
          obtain ⟨first, more, hChars, hClose, _⟩ := type.descriptorChars_eq_cons
          rw [List.flatMap_cons, hChars] at h
          exact absurd (List.cons.inj h).1 hClose
      | cons type' others' =>
          rw [List.flatMap_cons, List.flatMap_cons, List.append_assoc, List.append_assoc] at h
          obtain ⟨rfl, hMore⟩ := descriptorChars_append_inj h
          obtain ⟨rfl, hRest⟩ := ih hMore
          exact ⟨rfl, hRest⟩

end ValueType

/-- Signatures with the same descriptor are the same. -/
theorem Signature.render_inj {s s' : Signature} (h : s.render = s'.render) : s = s' := by
  obtain ⟨parameters, result⟩ := s
  obtain ⟨parameters', result'⟩ := s'
  have hChars := String.ofList_injective h
  obtain ⟨rfl, hResult⟩ := ValueType.flatMap_descriptorChars_inj (List.cons.inj hChars).2
  have hEnd : ∀ type : ValueType, type.descriptorChars ≠ ['V'] := by
    intro type hV
    obtain ⟨first, rest, hFirst, _, hVoid⟩ := type.descriptorChars_eq_cons
    rw [hFirst] at hV
    exact hVoid (List.cons.inj hV).1
  cases result with
  | none =>
      cases result' with
      | none => rfl
      | some type' => exact absurd hResult.symm (hEnd type')
  | some type =>
      cases result' with
      | none => exact absurd hResult (hEnd type)
      | some type' =>
          have hSame : type.descriptorChars ++ [] = type'.descriptorChars ++ [] := by
            rw [List.append_nil, List.append_nil]
            exact hResult
          rw [(ValueType.descriptorChars_append_inj hSame).1]

end HotPatch
