import Lowering.Emit.Counting

/-!
Code that shows values while the output program runs.
-/
namespace Lowering.Emit

private def display (name : String) (params : List MachineType) (args : Emit (List Operand)) :
    Emit Unit := do
  let f ← external name .void params
  discard (call f (← args))

private def bytePtr (value : Operand) : Emit Operand := ptrCast value .int8Ptr

def showDistance (a b : Operand) : Emit Unit :=
  display "flyable_debug_addr_minus" [.int8Ptr, .int8Ptr] do
    let a ← bytePtr a
    let b ← bytePtr b
    return [a, b]

def showVectorSupport (callable : Operand) : Emit Unit :=
  display "flyable_debug_support_vec" [.int8Ptr] do
    return [← bytePtr callable]

/-- Shows a callable; the other address does not count. -/
def showVector (callable _ptr : Operand) : Emit Unit :=
  display "flyable_debug_show_vec" [.int8Ptr, .int8Ptr] do
    let p ← bytePtr (← bytePtr callable)
    return [p, p]

def showInt (value : Operand) : Emit Unit :=
  display "flyable_debug_print_int64" [.int64] (return [value])

def showBool (value : Operand) : Emit Unit :=
  display "flyable_debug_print_int64" [.int64] do
    return [← intCast value .int64]

def showPtr (value : Operand) : Emit Unit :=
  display "flyable_debug_print_ptr" [.int8Ptr] do
    return [← bytePtr value]

def showCount (value : Operand) : Emit Unit := do
  let object ← ptrCast value (← objectPtr)
  match ← count object with
  | some n => showInt n
  | none => throw .refCountAbsent

end Lowering.Emit
