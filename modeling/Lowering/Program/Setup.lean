import Lowering.Program

/-!
The structures and global variables that every program starts with.
-/
namespace Lowering.Program

private def external (name : String) : Build Nat := do
  addGlobal { name, type := ← objectType, linkage := externalLinkage }

/-- Enters the layouts of objects, types, functions, lists, tuples and callables, then the variables
for the constants and types that every program refers to. -/
def setup : Build Unit := do
  let object ← newStruct "__flyable_py_obj" #[]
  modify fun p => { p with known := { p.known with objectStruct := some object } }
  listStruct object
  let type ← newStruct "__flyable_py_type" #[]
  modify fun p => { p with known := { p.known with typeStruct := some type } }
  listStruct type
  let function ← newStruct "__flyable_py_function_object" #[]
  modify fun p => { p with known := { p.known with functionStruct := some function } }
  listStruct function
  let typePtr := (← typeType).pointerTo
  addMembers object #[.int64, typePtr]
  let objectPtr ← objectPtr
  let bytePtr := MachineType.int8Ptr
  let list ← newStruct "__flyable_py_obj_list" #[.int64, bytePtr, .int64, bytePtr.pointerTo, .int64]
  modify fun p => { p with known := { p.known with listStruct := some list } }
  listStruct list
  let tuple ← newStruct "__flyable_py_obj_tuple" #[.int64, bytePtr, .int64, objectPtr]
  modify fun p => { p with known := { p.known with tupleStruct := some tuple } }
  listStruct tuple
  let callable ← newStruct "__flyable_py_obj_func"
    (#[.int64, objectPtr, bytePtr, .int64, .int64, bytePtr] ++ Array.replicate 12 objectPtr ++
      #[bytePtr])
  modify fun p => { p with known := { p.known with callableStruct := some callable } }
  listStruct callable
  addMembers type
    (#[.int64, typePtr, .int64, bytePtr, .int64, .int64, bytePtr, .int64, bytePtr, bytePtr, bytePtr,
      bytePtr, objectPtr, objectPtr, objectPtr, bytePtr, bytePtr, bytePtr, bytePtr, bytePtr,
      objectPtr, .int32, bytePtr] ++ Array.replicate 25 bytePtr ++ #[.int32, bytePtr, bytePtr])
  addMembers function #[.int64]
  addMembers type #[typePtr]
  addMembers function (Array.replicate 14 objectPtr ++ #[bytePtr, .int32])
  let noneVar ← external "_Py_NoneStruct"
  modify fun p => { p with known := { p.known with noneVar := some noneVar } }
  let trueVar ← external "_Py_TrueStruct"
  modify fun p => { p with known := { p.known with trueVar := some trueVar } }
  let falseVar ← external "_Py_FalseStruct"
  modify fun p => { p with known := { p.known with falseVar := some falseVar } }
  let functionType ← external "PyFunction_Type"
  modify fun p => { p with known := { p.known with functionType := some functionType } }
  let methodType ← external "PyMethod_Type"
  modify fun p => { p with known := { p.known with methodType := some methodType } }
  let tupleType ← external "PyTuple_Type"
  modify fun p => { p with known := { p.known with tupleType := some tupleType } }
  let methodType ← external "PyMethod_Type"
  modify fun p => { p with known := { p.known with methodType := some methodType } }
  let builtins ← addGlobal { name := "__flyable@BuildIn@Module@", type := objectPtr }
  modify fun p => { p with known := { p.known with builtins := some builtins } }

end Lowering.Program
