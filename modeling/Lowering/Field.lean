import Lowering.Fault
import Lowering.Binary64

/-!
What is written to the output stream, field by field. A writer can be locked, after which nothing
more is written to it.
-/
namespace Lowering

/-- What can stand where the number of a value belongs. -/
inductive Stranger
  | thing
  /-- A number that is no integer. -/
  | fraction
  /-- Something that has bytes of its own. -/
  | wide
  deriving DecidableEq, Repr, Inhabited

/-- An argument of an instruction: the number of a value, or nothing usable as one. -/
inductive Operand
  | id (n : Int)
  | flag (b : Bool)
  | absent
  /-- Something that is no integer, by a key of its owner. -/
  | other (key : Nat) (sort : Stranger)
  deriving DecidableEq, Repr, Inhabited

namespace Operand

def toInt? : Operand → Option Int
  | id n => some n
  | flag b => some (if b then 1 else 0)
  | absent | other .. => none

def text : Operand → String
  | id n => toString n
  | flag b => if b then "True" else "False"
  | absent | other .. => "None"

def fault : Operand → Fault
  | other _ .wide => .misuse
  | _ => .noMember

end Operand

instance (n : Nat) : OfNat Operand n := ⟨.id n⟩

inductive Field
  | word (n : Operand)
  | long (n : Operand)
  | single (x : Option Binary64)
  | double (x : Option Binary64)
  /-- The count of characters, then their encoding. -/
  | text (s : String)
  | raw (bytes : Bytes)
  /-- Something that cannot be written to an open writer. -/
  | refuse (fault : Fault)
  /-- A defect that shows whether the writer is open or not. -/
  | defect (fault : Fault)
  deriving DecidableEq, Repr

namespace Field

def integer (width : Nat) (n : Operand) : Except Fault Bytes :=
  match n.toInt? with
  | none => .error n.fault
  | some n => if fitsSigned width n then .ok (signedBytes width n) else .error .tooLarge

def textBytes (s : String) : Bytes :=
  signedBytes 4 s.length ++ s.toUTF8.data.toList

def bytes : Field → Except Fault Bytes
  | word n => integer 4 n
  | long n => integer 8 n
  | single x => match x with
    | some x => .ok x.singleBytes
    | none => .error .unpackable
  | double x => match x with
    | some x => .ok x.bytes
    | none => .error .unpackable
  | text s => if fitsSigned 4 s.length then .ok (textBytes s) else .error .tooLarge
  | raw bytes => .ok bytes
  | refuse fault | defect fault => .error fault

def write (locked : Bool) (f : Field) : Except Fault Bytes :=
  if locked then
    match f with
    | defect fault => .error fault
    | _ => .ok []
  else f.bytes

/-- Writes fields in order up to the first fault; what was written before it stays. -/
def writeAll (locked : Bool) : List Field → Bytes × Option Fault
  | [] => ([], none)
  | f :: rest =>
    match f.write locked with
    | .error fault => ([], some fault)
    | .ok bs =>
      let (more, fault) := writeAll locked rest
      (bs ++ more, fault)

def written (fields : List Field) : Except Fault Bytes :=
  match writeAll false fields with
  | (bytes, none) => .ok bytes
  | (_, some fault) => .error fault

def count (n : Nat) : Field := .word (.id n)

end Field
end Lowering
