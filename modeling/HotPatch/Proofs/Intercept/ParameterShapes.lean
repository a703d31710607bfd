import HotPatch.Interceptor
import HotPatch.Intercept.Dispatch

/-!
# Shapes of parameter lists

The shape of a method is a text with one letter a parameter, and the overload
for a shape reads its parameters off that text again.  The two sides agree on
all that is left of a parameter list when references are erased: the overload
for the shape of a method takes its parameters, and methods share a shape only
if they share these (`invokeShape_faithful`).
-/

namespace HotPatch

namespace ValueType

private theorem shapeCode_erased (type : ValueType) : type.erased.shapeCode = type.shapeCode := by
  cases type <;> rfl

private theorem width_erased (type : ValueType) : type.erased.width = type.width := by
  cases type <;> rfl

private theorem totalWidth_erased (types : List ValueType) :
    totalWidth (types.map erased) = totalWidth types := by
  induction types with
  | nil => rfl
  | cons type rest ih => rw [List.map_cons, totalWidth, totalWidth, width_erased, ih]

end ValueType

namespace Interceptor

/-- A letter reads back as the type it stands for.  No type has the letter `V`. -/
theorem shapeParameter?_shapeCode (type : ValueType) :
    shapeParameter? type.shapeCode = some type.erased := by
  cases type with
  | base p =>
      rw [ValueType.shapeCode, shapeParameter?, Primitive.ofCode?_code]
      rfl
  | object cls => rfl
  | array element => rfl

/-- All letters of a shape; the one for no parameters reads back as none. -/
theorem filterMap_shape (s : Signature) :
    s.shape.toList.filterMap shapeParameter? = s.parameters.map ValueType.erased := by
  unfold Signature.shape
  split
  · next hNone =>
      rw [List.isEmpty_iff.mp hNone]
      rfl
  · rw [String.toList_ofList, List.filterMap_map, ← List.filterMap_eq_map]
    exact congrArg (List.filterMap · s.parameters) (funext shapeParameter?_shapeCode)

/-- The shape comes from the erased parameters alone. -/
theorem shape_eq_of_erased {s t : Signature}
    (h : s.parameters.map ValueType.erased = t.parameters.map ValueType.erased) :
    s.shape = t.shape := by
  have hCodes : ∀ types : List ValueType,
      types.map ValueType.shapeCode = (types.map ValueType.erased).map ValueType.shapeCode := by
    intro types
    rw [List.map_map]
    exact List.map_congr_left fun type _ => (ValueType.shapeCode_erased type).symm
  have hEmpty : s.parameters.isEmpty = t.parameters.isEmpty := by
    rw [← List.isEmpty_map, h, List.isEmpty_map]
  rw [Signature.shape, Signature.shape, hEmpty, hCodes s.parameters, h, ← hCodes]

private theorem shape_eq_iff {s t : Signature} :
    s.shape = t.shape ↔
      s.parameters.map ValueType.erased = t.parameters.map ValueType.erased := by
  refine ⟨fun h => ?_, shape_eq_of_erased⟩
  rw [← filterMap_shape s, h, filterMap_shape t]

/-- The special call takes interceptor, number and receiver, and the slots of the parameters. -/
theorem slots_invokeShape (s : Signature) :
    (invokeShape s.shape).signature.slots true = 3 + s.slots false := by
  have hWidth : ValueType.totalWidth (s.shape.toList.filterMap shapeParameter?) =
      ValueType.totalWidth s.parameters := by
    rw [filterMap_shape, ValueType.totalWidth_erased]
  show 1 + (1 + (1 + ValueType.totalWidth _)) = 3 + (0 + ValueType.totalWidth s.parameters)
  rw [hWidth]
  omega

end Interceptor

namespace Dispatch

/-- The overload of a shape serves the methods of that shape, constructors apart. -/
theorem classify_eq_special_iff {shapes : List String} {m : Method} {shape : String} :
    classify shapes m = .special shape ↔
      m.isConstructor = false ∧ shape ∈ shapes ∧ shape = m.signature.shape := by
  unfold classify
  cases m.isConstructor with
  | true => simp
  | false =>
      by_cases hKnown : m.signature.shape ∈ shapes
      · simp only [Bool.false_eq_true, if_false, List.contains_iff_mem, hKnown, if_true,
          special.injEq, true_and]
        constructor
        · rintro rfl
          exact ⟨hKnown, rfl⟩
        · exact fun h => h.2.symm
      · simp only [Bool.false_eq_true, if_false, List.contains_iff_mem, hKnown, reduceCtorEq,
          false_iff, true_and]
        rintro ⟨hMem, rfl⟩
        exact hKnown hMem

end Dispatch

/-- **Shapes stand for erased parameter lists, no more and no less.**  The overload for the shape of
a signature bears that shape in its name, takes a number, the receiver and then the parameters with
every reference erased, and so three slots more with its own receiver.  Two signatures have one
shape exactly if their erased parameters are the same.  And a method goes to the overload of a shape
exactly if it is no constructor, the shape is its own and among those with an overload. -/
theorem Interceptor.invokeShape_faithful :
    (∀ s : Signature,
      (invokeShape s.shape).name.text = "invoke" ++ s.shape ∧
        (invokeShape s.shape).signature.parameters =
          .base .int :: .rootObject :: s.parameters.map ValueType.erased ∧
        (invokeShape s.shape).signature.slots true = 3 + s.slots false) ∧
      (∀ s t : Signature, s.shape = t.shape ↔
        s.parameters.map ValueType.erased = t.parameters.map ValueType.erased) ∧
      ∀ (shapes : List String) (m : Method) (shape : String),
        Dispatch.classify shapes m = .special shape ↔
          m.isConstructor = false ∧ shape ∈ shapes ∧ shape = m.signature.shape := by
  refine ⟨fun s => ⟨rfl, ?_, slots_invokeShape s⟩, fun s t => shape_eq_iff,
    fun shapes m shape => Dispatch.classify_eq_special_iff⟩
  rw [invokeShape, filterMap_shape]

end HotPatch
