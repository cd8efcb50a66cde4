import Lowering.Field

/-!
Types of the output program: integers, floats, structures, functions and arrays, each under a number
of pointers.
-/
namespace Lowering

inductive Primitive
  | int1 | int8 | int16 | int32 | int64 | float | double | void | struct | func | array
  deriving DecidableEq, Repr

namespace Primitive

def code : Primitive → Nat
  | int1 => 0
  | int8 => 1
  | int16 => 2
  | int32 => 3
  | int64 => 4
  | float => 5
  | double => 6
  | void => 7
  | struct => 8
  | func => 9
  | array => 10

def all : List Primitive :=
  [int1, int8, int16, int32, int64, float, double, void, struct, func, array]

def ofCode? (code : Nat) : Option Primitive := all[code]?

@[simp] theorem ofCode?_code (p : Primitive) : ofCode? p.code = some p := by
  cases p <;> rfl

end Primitive

structure MachineType where
  primitive : Primitive := .void
  structId : Int := 0
  pointers : Nat := 0
  result : Option MachineType := none
  params : List MachineType := []
  element : Option MachineType := none
  size : Operand := .id 0
  deriving Repr

namespace MachineType

instance : Inhabited MachineType := ⟨{}⟩

def void : MachineType := {}
def int1 : MachineType := { primitive := .int1 }
def int8 : MachineType := { primitive := .int8 }
def int16 : MachineType := { primitive := .int16 }
def int32 : MachineType := { primitive := .int32 }
def int64 : MachineType := { primitive := .int64 }
def float : MachineType := { primitive := .float }
def double : MachineType := { primitive := .double }

def ofStruct (id : Int) : MachineType := { primitive := .struct, structId := id }

def pointerTo (t : MachineType) : MachineType := { t with pointers := t.pointers + 1 }

def int8Ptr : MachineType := int8.pointerTo

def function (result : MachineType) (params : List MachineType) : MachineType :=
  { primitive := .func, result := some result, params := params }

def arrayOf (element : MachineType) (size : Operand) : MachineType :=
  { primitive := .array, element := some element, size := size }

/-- Types are compared by their outermost layer only. -/
def same (a b : MachineType) : Bool :=
  a.primitive == b.primitive && a.structId == b.structId && a.pointers == b.pointers

mutual

/-- A type is written as its layer and, for functions and arrays, the types inside. -/
def fields : MachineType → List Field
  | ⟨primitive, structId, pointers, result, params, element, size⟩ =>
    .count primitive.code :: .count pointers :: .word (.id structId) ::
      match primitive with
      | .func => resultFields result ++ .count params.length :: paramFields params
      | .array => elementFields element ++ [.word size]
      | _ => []

def resultFields : Option MachineType → List Field
  | none => [.defect .functionTypeUnset]
  | some t => fields t

def elementFields : Option MachineType → List Field
  | none => [.defect .arrayTypeUnset]
  | some t => fields t

def paramFields : List MachineType → List Field
  | [] => []
  | t :: rest => fields t ++ paramFields rest

end

mutual

def text : MachineType → String
  | ⟨primitive, structId, pointers, _, _, element, size⟩ =>
    (match primitive with
    | .void => "void"
    | .int64 => "int64"
    | .int8 => "int8"
    | .int1 => "int1"
    | .int16 => "int16"
    | .int32 => "int32"
    | .float => "float"
    | .double => "double"
    | .struct => "struct( " ++ toString structId ++ " )"
    | .func => "func"
    | .array => "array[" ++ size.text ++ " x " ++ elementText element ++ "]") ++
      String.ofList (List.replicate pointers '*')

def elementText : Option MachineType → String
  | none => "None"
  | some t => text t

end

end MachineType
end Lowering
