import Lowering.MachineType

/-!
Instructions of the output program and the fields that each is written as. An instruction that
computes something ends with the number of its value.
-/
namespace Lowering

inductive Binary
  | add | sub | mul | div | eq | ne | lt | lte | gt | gte | and | or | mod
  deriving DecidableEq, Repr

namespace Binary

def opcode : Binary → Nat
  | add => 1
  | sub => 2
  | mul => 3
  | div => 4
  | eq => 5
  | ne => 6
  | lt => 7
  | lte => 8
  | gt => 9
  | gte => 10
  | and => 12
  | or => 13
  | mod => 14

end Binary

inductive Unary
  | neg | not | floor
  deriving DecidableEq, Repr

namespace Unary

def opcode : Unary → Nat
  | neg => 11
  | not => 15
  | floor => 17

end Unary

inductive Cast
  | pointer | int | float | intToPointer | bits | zeroExtend
  deriving DecidableEq, Repr

namespace Cast

def opcode : Cast → Nat
  | pointer => 1010
  | int => 1011
  | float => 1012
  | intToPointer => 1013
  | bits => 1014
  | zeroExtend => 1015

end Cast

/-- Integer constants of less than eight bytes, which are written in four. -/
inductive SmallInt
  | int32 | int16 | int8 | int1
  deriving DecidableEq, Repr

namespace SmallInt

def opcode : SmallInt → Nat
  | int32 => 1001
  | int16 => 1002
  | int8 => 1003
  | int1 => 1007

end SmallInt

inductive Instr
  | binary (op : Binary) (left right : Operand) (result : Nat)
  | unary (op : Unary) (value : Operand) (result : Nat)
  | store (value address : Operand) (result : Nat)
  | load (address : Operand) (result : Nat)
  | branch (target : Nat)
  | condBranch (condition : Operand) (yes no : Nat)
  | member (base first second : Operand) (result : Nat)
  | element (type : MachineType) (base : Operand) (indices : List Operand) (result : Nat)
  | call (func : Int) (args : List Operand) (result : Nat)
  | callPtr (ptr convention : Operand) (args : List Operand) (result : Nat)
  | int64 (n : Operand) (result : Nat)
  | smallInt (sort : SmallInt) (n : Operand) (result : Nat)
  | float32 (x : Option Binary64) (result : Nat)
  | float64 (x : Option Binary64) (result : Nat)
  | null (type : MachineType) (result : Nat)
  | cast (sort : Cast) (value : Operand) (type : MachineType) (result : Nat)
  | alloca (type : MachineType) (result : Nat)
  | ret (value : Operand)
  | retVoid
  | retNull
  | globalVar (id : Int) (result : Nat)
  | globalText (s : Option String) (result : Nat)
  | funcPtr (id : Int) (result : Nat)
  | phi (type : MachineType) (values : List Operand) (blocks : List Nat) (result : Nat)
  | sizeOf (type : MachineType) (result : Nat)
  | sizeOfElement (type : MachineType) (result : Nat)
  | printType (value : Operand)
  | debugOp
  | debugOp2
  deriving Repr

namespace Instr

def fields : Instr → List Field
  | binary op left right r => [.count op.opcode, .word left, .word right, .count r]
  | unary op value r => [.count op.opcode, .word value, .count r]
  | store value address r => [.count 100, .word value, .word address, .count r]
  | load address r => [.count 101, .word address, .count r]
  | branch target => [.count 150, .count target]
  | condBranch condition yes no => [.count 151, .word condition, .count yes, .count no]
  | member base first second r => [.count 152, .word base, .word first, .word second, .count r]
  | element type base indices r =>
    .count 153 :: type.fields ++ .word base :: .count indices.length ::
      indices.map .word ++ [.count r]
  | call func args r =>
    .count 170 :: .word (.id func) :: .count args.length :: args.map .word ++ [.count r]
  | callPtr ptr convention args r =>
    .count 171 :: .word ptr :: .word convention :: .count args.length ::
      args.map .word ++ [.count r]
  | int64 n r => [.count 1000, .long n, .count r]
  | smallInt sort n r => [.count sort.opcode, .word n, .count r]
  | float32 x r => [.count 1004, .single x, .count r]
  | float64 x r => [.count 1005, .double x, .count r]
  | null type r => .count 1006 :: type.fields ++ [.count r]
  | cast sort value type r => .count sort.opcode :: .word value :: type.fields ++ [.count r]
  | alloca type r => .count 1050 :: type.fields ++ [.count r]
  | ret value => [.count 2000, .word value]
  | retVoid => [.count 2001]
  | retNull => [.count 2002]
  | globalVar id r => [.count 3000, .word (.id id), .count r]
  | globalText s r =>
    [.count 3001, (match s with | some s => .text s | none => .refuse .misuse), .count r]
  | funcPtr id r => [.count 3002, .word (.id id), .count r]
  | phi type values blocks r =>
    .count 9997 :: type.fields ++ .count values.length :: values.map .word ++
      .count blocks.length :: blocks.map .count ++ [.count r]
  | sizeOf type r => .count 9998 :: type.fields ++ [.count r]
  | sizeOfElement type r => .count 9999 :: type.fields ++ [.count r]
  | printType value => [.count 10000, .word value]
  | debugOp => [.count 10001]
  | debugOp2 => [.count 10002]

def write (locked : Bool) (i : Instr) : Bytes × Option Fault := Field.writeAll locked i.fields

def bytes (i : Instr) : Bytes := (i.write false).1

def result? : Instr → Option Nat
  | binary _ _ _ r | unary _ _ r | store _ _ r | load _ r | member _ _ _ r | element _ _ _ r
  | call _ _ r | callPtr _ _ _ r | int64 _ r | smallInt _ _ r | float32 _ r | float64 _ r | null _ r
  | cast _ _ _ r | alloca _ r | globalVar _ r | globalText _ r | funcPtr _ r | phi _ _ _ r
  | sizeOf _ r | sizeOfElement _ r => some r
  | branch _ | condBranch _ _ _ | ret _ | retVoid | retNull | printType _ | debugOp | debugOp2 => none

def isTerminator : Instr → Bool
  | branch _ | condBranch _ _ _ | ret _ | retVoid | retNull => true
  | _ => false

end Instr
end Lowering
