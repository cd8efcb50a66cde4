import Lowering.Instr
import Mathlib.Data.List.Nodup

/-!
What an instruction refers to: values, blocks, types, functions and variables. And what the functions
of the run-time library take.
-/
namespace Lowering

namespace Instr

/-- The operands that name values; the numbers of constants and conventions are none. -/
def uses : Instr → List Operand
  | binary _ left right _ => [left, right]
  | unary _ value _ | cast _ value _ _ => [value]
  | store value address _ => [value, address]
  | load address _ => [address]
  | condBranch condition _ _ => [condition]
  | member base first second _ => [base, first, second]
  | element _ base indices _ => base :: indices
  | call _ args _ => args
  | callPtr ptr _ args _ => ptr :: args
  | phi _ values _ _ => values
  | ret value | printType value => [value]
  | _ => []

/-- The blocks that an instruction names. -/
def targets : Instr → List Nat
  | branch target => [target]
  | condBranch _ yes no => [yes, no]
  | phi _ _ blocks _ => blocks
  | _ => []

def types : Instr → List MachineType
  | element type _ _ _ | null type _ | cast _ _ type _ | alloca type _ | phi type _ _ _
  | sizeOf type _ | sizeOfElement type _ => [type]
  | _ => []

theorem isTerminator_of_result? {i : Instr} {n : Nat} (h : i.result? = some n) : i.isTerminator = false := by
  cases i <;> first | rfl | cases h

end Instr

namespace MachineType

/-- Every structure that a type names, at any depth, has the property. -/
inductive Within (P : Int → Prop) : MachineType → Prop
  | mk {t : MachineType} (struct : t.primitive = .struct → P t.structId)
      (result : ∀ r, t.result = some r → Within P r) (params : ∀ r ∈ t.params, Within P r)
      (element : ∀ r, t.element = some r → Within P r) : Within P t

variable {P : Int → Prop}

theorem within_of_plain {t : MachineType} (hprimitive : t.primitive ≠ .struct)
    (hresult : t.result = none) (hparams : t.params = []) (helement : t.element = none) : t.Within P :=
  ⟨fun h => absurd h hprimitive, by simp [hresult], by simp [hparams], by simp [helement]⟩

theorem within_ofStruct {id : Int} (h : P id) : (ofStruct id).Within P :=
  ⟨fun _ => h, nofun, nofun, nofun⟩

theorem Within.pointerTo {t : MachineType} (h : t.Within P) : t.pointerTo.Within P := by
  cases h with
  | mk hstruct hresult hparams helement => exact ⟨hstruct, hresult, hparams, helement⟩

theorem Within.function {result : MachineType} {params : List MachineType} (h : result.Within P)
    (hs : ∀ t ∈ params, t.Within P) : (function result params).Within P := by
  refine ⟨nofun, ?_, hs, nofun⟩
  rintro _ ⟨⟩
  exact h

theorem Within.arrayOf {t : MachineType} (h : t.Within P) (size : Operand) : (arrayOf t size).Within P := by
  refine ⟨nofun, nofun, nofun, ?_⟩
  rintro _ ⟨⟩
  exact h

theorem within_true (t : MachineType) : t.Within fun _ => True := by
  cases t with
  | mk primitive structId pointers result params element size =>
    refine ⟨fun _ => trivial, fun r hr => ?_, fun r hr => ?_, fun r hr => ?_⟩
    · dsimp only at hr
      subst hr
      exact within_true r
    · have := List.sizeOf_lt_of_mem hr
      exact within_true r
    · dsimp only at hr
      subst hr
      exact within_true r
termination_by sizeOf t
decreasing_by all_goals simp_all; omega

end MachineType

namespace Library

/-- The functions of the run-time library that programs call, and how many arguments they take. -/
@[reducible] def arities : List (String × Nat) :=
  [("PyNumber_Add", 2), ("PyNumber_And", 2), ("PyNumber_FloorDivide", 2), ("PyNumber_Lshift", 2),
    ("PyNumber_MatrixMultiply", 2), ("PyNumber_Multiply", 2), ("PyNumber_Or", 2),
    ("_PyNumber_PowerNoMod", 2), ("PyNumber_Rshift", 2), ("PyNumber_Subtract", 2),
    ("PyNumber_TrueDivide", 2), ("PyNumber_Xor", 2), ("PyNumber_Remainder", 2),
    ("PyNumber_InPlaceAdd", 2), ("PyNumber_InPlaceAnd", 2), ("PyNumber_InPlaceFloorDivide", 2),
    ("PyNumber_InPlaceLshift", 2), ("PyNumber_InPlaceMatrixMultiply", 2),
    ("PyNumber_InPlaceMultiply", 2), ("PyNumber_InPlaceOr", 2), ("_PyNumber_InPlacePowerNoMod", 2),
    ("PyNumber_InPlaceRshift", 2), ("PyNumber_InPlaceSubtract", 2),
    ("PyNumber_InPlaceTrueDivide", 2), ("PyNumber_InPlaceXor", 2), ("PyNumber_InPlaceRemainder", 2),
    ("PyNumber_Positive", 1), ("PyNumber_Negative", 1), ("PyNumber_Invert", 1), ("PyObject_Not", 1),
    ("PyList_New", 1), ("PyList_SetItem", 3), ("PyList_Append", 2), ("PyList_AsTuple", 1),
    ("_PyList_Extend", 2), ("PyTuple_New", 1), ("PyTuple_SetItem", 3), ("PyDict_New", 0),
    ("PyDict_SetItem", 3), ("PyDict_GetItem", 2), ("PyDict_DelItem", 2), ("PyDict_Size", 1),
    ("PyDict_Keys", 1), ("PyDict_Update", 2), ("_PyDict_MergeEx", 3), ("PySet_New", 1),
    ("PySet_Add", 2), ("PySet_Size", 1), ("_PySet_Update", 2), ("PySlice_New", 3),
    ("PyObject_DelAttr", 2), ("PyObject_GetAttr", 2), ("PyObject_GetItem", 2),
    ("PyObject_SetItem", 3), ("PyObject_DelItem", 2), ("PyObject_IsTrue", 1),
    ("PyObject_GetIter", 1), ("PyObject_RichCompare", 3), ("PyObject_Length", 1),
    ("PyObject_Str", 1), ("PyObject_Repr", 1), ("PyObject_ASCII", 1), ("PyObject_Format", 2),
    ("_PyObject_GetMethod", 3), ("PySequence_Contains", 2), ("_PyAsyncGenValueWrapperNew", 1),
    ("PyErr_Print", 0), ("PyErr_Clear", 0), ("PyErr_Occurred", 0), ("PyErr_SetObject", 2),
    ("PyErr_GivenExceptionMatches", 2), ("PyExceptionInstance_Class", 1), ("Py_NewRef", 1),
    ("PyLong_FromLongLong", 1), ("PyFloat_FromDouble", 1), ("PyUnicode_FromStringAndSize", 2),
    ("PyUnicode_FromString", 1), ("PyBytes_FromString", 1), ("PyMem_Malloc", 1), ("PyMem_Free", 1),
    ("PyCell_New", 1), ("PyCell_SET", 2), ("PyCell_GET", 1), ("Py_Initialize", 0),
    ("Py_BytesMain", 2), ("PyImport_ImportModule", 1), ("flyable_handle_return_generator_bytecode", 0),
    ("flyable_add_impl", 3), ("flyable_init", 0)]

theorem nodup_arities : (arities.map Prod.fst).Nodup := by decide +kernel

theorem arities_inj {name : String} {n k : Nat} (hn : (name, n) ∈ arities) (hk : (name, k) ∈ arities) : n = k :=
  congrArg Prod.snd (List.inj_on_of_nodup_map nodup_arities hn hk rfl)

end Library
end Lowering
