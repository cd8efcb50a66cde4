/-!
The shortest decimal that lies closer to a binary number than to its neighbours.
-/
namespace Lowering.Decimal

structure Scientific where
  digits : Nat
  power : Int
  deriving DecidableEq, Repr

/-- A binary value with the ends of its rounding interval, over one denominator. -/
structure Interval where
  low : Nat
  value : Nat
  high : Nat
  denominator : Nat
  closed : Bool

/-- The rounding interval of `m * 2 ^ q`; below a power of two the gap is half as wide. -/
def Interval.ofBinary (m : Nat) (q : Int) (narrowBelow : Bool) : Interval :=
  let up := (q - 2).toNat
  let down := (2 - q).toNat
  { low := (4 * m - (if narrowBelow then 1 else 2)) <<< up
    value := (4 * m) <<< up
    high := (4 * m + 2) <<< up
    denominator := 1 <<< down
    closed := m % 2 == 0 }

def Interval.holds (i : Interval) (power : Int) (d : Nat) : Bool :=
  let x := d * Nat.pow 10 power.toNat * i.denominator
  let s := Nat.pow 10 (-power).toNat
  if i.closed then i.low * s ≤ x && x ≤ i.high * s else i.low * s < x && x < i.high * s

/-- The nearest of the two neighbours on the grid of `10 ^ power` that round to the value. -/
def Interval.onGrid? (i : Interval) (power : Int) : Option Nat :=
  let top := i.value * Nat.pow 10 (-power).toNat
  let unit := i.denominator * Nat.pow 10 power.toNat
  let below := top / unit
  let rest := top % unit
  match i.holds power below, i.holds power (below + 1) with
  | true, true =>
    if 2 * rest < unit || (2 * rest == unit && below % 2 == 0) then some below else some (below + 1)
  | true, false => some below
  | false, true => some (below + 1)
  | false, false => none

def width (n : Nat) : Nat := (Nat.toDigits 10 n).length

/-- Coarser grids are tried first; the grids of a double end above `10 ^ -350`. -/
def shortest (m : Nat) (q : Int) (narrowBelow : Bool) : Scientific :=
  let i := Interval.ofBinary m q narrowBelow
  let start : Int := width (i.value / i.denominator)
  let found := (List.range (start.toNat + 350)).findSome? fun (k : Nat) =>
    (i.onGrid? (start - k)).map fun d => ⟨d, start - k⟩
  found.getD ⟨0, 0⟩

end Lowering.Decimal
