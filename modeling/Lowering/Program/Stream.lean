import Lowering.Program

/-!
The stream that a program is handed on as: a header, then structures, global variables and functions.
-/
namespace Lowering.Program

def structFields (s : StructDef) : List Field :=
  .text ("FlyableStruct@" ++ s.name) :: .count s.members.size ::
    s.members.toList.flatMap MachineType.fields

/-- The fields of a stream from those of its entries; `mode` tells what the reader should trace. -/
def streamOf (mode : Nat) (structs globals funcs : List (List Field)) : List Field :=
  .text "**Flyable format**" :: .count mode ::
    (.count structs.length :: structs.flatten) ++ (.count globals.length :: globals.flatten) ++
    (.count funcs.length :: funcs.flatten)

def streamFields (p : Program) (mode : Nat) : List Field :=
  streamOf mode (p.listedStructs.map structFields) (p.listedGlobals.map GlobalVar.fields)
    (p.listedFuncs.map Func.fields)

def stream (p : Program) (mode : Nat) : Except Fault Bytes := Field.written (p.streamFields mode)

end Lowering.Program
