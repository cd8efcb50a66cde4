/-!
Entries of an operand stack, as a list with the top first. An entry is found by a signed place, which
counts from the bottom, or from the top if it is negative.
-/
namespace Lowering.Operands

variable {α : Type}

def depth? (s : List α) (place : Int) : Option Nat :=
  if place < 0 then
    if -place ≤ s.length then some (-place - 1).toNat else none
  else if place < s.length then some (s.length - 1 - place.toNat)
  else none

def get? (s : List α) (place : Int) : Option α := (depth? s place).bind (s[·]?)

def set? (s : List α) (place : Int) (a : α) : Option (List α) := (depth? s place).map (s.set · a)

end Lowering.Operands
