import Lowering.Bytes
import Lowering.Decimal.Shortest

/-!
Double-precision numbers as bit patterns: conversion, exact comparison and text.
-/
namespace Lowering

structure Binary64 where
  bits : UInt64
  deriving DecidableEq, Repr

namespace Binary64

def negative (x : Binary64) : Bool := x.bits.toNat >>> 63 == 1

def exponent (x : Binary64) : Nat := (x.bits.toNat >>> 52) % 2048

def fraction (x : Binary64) : Nat := x.bits.toNat % (1 <<< 52)

def isNaN (x : Binary64) : Bool := x.exponent == 2047 && x.fraction != 0

/-- `x` is `mantissa * 2 ^ scale` when finite. -/
def mantissa (x : Binary64) : Nat :=
  if x.exponent == 0 then x.fraction else 1 <<< 52 + x.fraction

def scale (x : Binary64) : Int := (max x.exponent 1 : Nat) - 1075

/-- The place of a number on the extended line, as a numerator over a power of two. -/
inductive Place
  | finite (numerator : Int) (halvings : Nat)
  | infinite (negative : Bool)
  | nowhere
  deriving DecidableEq, Repr

def place (x : Binary64) : Place :=
  if x.exponent == 2047 then
    if x.fraction == 0 then .infinite x.negative else .nowhere
  else
    let m : Int := (x.mantissa <<< x.scale.toNat : Nat)
    .finite (if x.negative then -m else m) (-x.scale).toNat

/-- Exact equality; a place that is nowhere equals nothing. -/
def Place.same : Place → Place → Bool
  | .finite a i, .finite b j => a * (1 <<< j : Nat) == b * (1 <<< i : Nat)
  | .infinite s, .infinite t => s == t
  | _, _ => false

/-- Strict order; a place that is nowhere is below nothing. -/
def Place.isBelow : Place → Place → Bool
  | .finite a i, .finite b j => a * (1 <<< j : Nat) < b * (1 <<< i : Nat)
  | .infinite s, .infinite t => s && !t
  | .infinite s, .finite .. => s
  | .finite .., .infinite t => !t
  | _, _ => false

/-- `n / 2 ^ drop` to the nearest integer, halves to the even one. -/
def roundShift (n drop : Nat) : Nat :=
  let unit := 1 <<< drop
  let quotient := n / unit
  let rest := n % unit
  if 2 * rest > unit || (2 * rest == unit && quotient % 2 == 1) then quotient + 1
  else quotient

def ofInt? (n : Int) : Option Binary64 :=
  if n = 0 then some ⟨0⟩
  else
    let a := n.natAbs
    let size := a.log2 + 1
    let (m, e) :=
      if size ≤ 53 then (a <<< (53 - size), size - 1)
      else
        let m := roundShift a (size - 53)
        if m = 1 <<< 53 then (1 <<< 52, size) else (m, size - 1)
    if e > 1023 then none
    else
      let sign := if n < 0 then 1 <<< 63 else 0
      some ⟨UInt64.ofNat (sign + (e + 1023) <<< 52 + (m - 1 <<< 52))⟩

/-- The nearest single-precision pattern; what is too large becomes infinite. -/
def toSingle (x : Binary64) : UInt32 :=
  let sign := if x.negative then 1 <<< 31 else 0
  if x.exponent == 2047 then
    if x.fraction == 0 then UInt32.ofNat (sign + 0x7f800000)
    else UInt32.ofNat (sign + (0x7fc00000 ||| (x.fraction >>> 29)))
  else if x.mantissa == 0 then UInt32.ofNat sign
  else
    let top : Int := x.scale + x.mantissa.log2
    if top < -126 then
      UInt32.ofNat (sign + roundShift x.mantissa (-149 - x.scale).toNat)
    else
      let shift := top - 23 - x.scale
      let m := roundShift (x.mantissa <<< (-shift).toNat) shift.toNat
      let (m, top) := if m = 1 <<< 24 then (1 <<< 23, top + 1) else (m, top)
      if top > 127 then UInt32.ofNat (sign + 0x7f800000)
      else UInt32.ofNat (sign + (top + 127).toNat <<< 23 + (m - 1 <<< 23))

def bytes (x : Binary64) : Bytes := littleEndian 8 x.bits.toNat

def singleBytes (x : Binary64) : Bytes := littleEndian 4 x.toSingle.toNat

private def zeros (n : Nat) : String := String.ofList (List.replicate n '0')

private def exponentText (e : Int) : String :=
  let digits := toString e.natAbs
  (if e < 0 then "-" else "+") ++ (if digits.length < 2 then "0" ++ digits else digits)

/-- Positional from `1e-4` up to below `1e16`, otherwise with an exponent of two digits or more. -/
private def layout (digits : String) (point : Int) (pointZero : Bool) : String :=
  let n : Int := digits.length
  if point ≤ -4 || point > 16 then
    let rest := digits.toList.drop 1
    String.ofList (digits.toList.take 1) ++
      (if rest.isEmpty then "" else "." ++ String.ofList rest) ++ "e" ++ exponentText (point - 1)
  else if point ≤ 0 then "0." ++ zeros (-point).toNat ++ digits
  else if point ≥ n then
    digits ++ zeros (point - n).toNat ++ (if pointZero then ".0" else "")
  else
    String.ofList (digits.toList.take point.toNat) ++ "." ++
      String.ofList (digits.toList.drop point.toNat)

/-- The fewest digits that read back; a whole number ends in `.0` if `pointZero`. -/
def text (x : Binary64) (pointZero : Bool) : String :=
  if x.isNaN then "nan"
  else
    (if x.negative then "-" else "") ++
      (if x.exponent == 2047 then "inf"
      else if x.mantissa == 0 then (if pointZero then "0.0" else "0")
      else
        let s := Decimal.shortest x.mantissa x.scale (x.fraction == 0 && x.exponent > 1)
        let digits := toString s.digits
        layout digits (s.power + digits.length) pointZero)

end Binary64
end Lowering
