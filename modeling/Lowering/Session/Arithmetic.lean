import Lowering.Session.Detail

/-!
Sums, differences and products of values. Numbers are added up, texts and lists are joined, and a
text or a list times an integer is repeated. Everything else is a fault.
-/
namespace Lowering.Session

/-! ### Numbers -/

private inductive Number
  | whole (n : Int)
  | real (x : Float)
  | complex (re im : Float)

private def floatOf (x : Binary64) : Float := Float.ofBits x.bits

private def number? (v : Value) : Option Number :=
  match v, v.toInt? with
  | _, some n => some (.whole n)
  | .constant (.float x _), none => some (.real (floatOf x))
  | .constant (.complex re im), none => some (.complex (floatOf re) (floatOf im))
  | _, none => none

private def wholeToReal (n : Int) : Run Float :=
  match Binary64.ofInt? n with
  | some x => return floatOf x
  | none => throw .tooLarge

private def Number.parts : Number → Run (Float × Float)
  | whole n => return (← wholeToReal n, 0)
  | real x => return (x, 0)
  | complex re im => return (re, im)

private def ofFloat (x : Float) : Binary64 := ⟨x.toBits⟩

private structure Join where
  whole : Int → Int → Int
  real : Float → Float → Float
  complex : Float × Float → Float × Float → Float × Float

private def Join.apply (j : Join) (a b : Number) : Run Value := do
  let joinReal (x y : Float) : Value := .constant (.float (ofFloat (j.real x y)) 0)
  match a, b with
  | .whole m, .whole n => return .int (j.whole m n)
  | .whole m, .real y => return joinReal (← wholeToReal m) y
  | .real x, .whole n => return joinReal x (← wholeToReal n)
  | .real x, .real y => return joinReal x y
  | a, b =>
    let p ← a.parts
    let (re, im) := j.complex p (← b.parts)
    return .constant (.complex (ofFloat re) (ofFloat im))

private def adding : Join :=
  ⟨(· + ·), (· + ·), fun p q => (p.1 + q.1, p.2 + q.2)⟩

private def subtracting : Join :=
  ⟨(· - ·), (· - ·), fun p q => (p.1 - q.1, p.2 - q.2)⟩

private def multiplying : Join :=
  ⟨(· * ·), (· * ·), fun p q => (p.1 * q.1 - p.2 * q.2, p.1 * q.2 + p.2 * q.1)⟩

/-- The number in a text of decimal digits, with or without a point and an exponent. -/
private def readReal? (s : String) : Option Float :=
  let cs := (s.trimAscii.toString.toList.map Char.toLower)
  let (negative, cs) := match cs with
    | '-' :: rest => (true, rest)
    | '+' :: rest => (false, rest)
    | cs => (false, cs)
  let signed (x : Float) : Float := if negative then -x else x
  let digits (cs : List Char) : Option (List Char) :=
    let groups := (String.ofList cs).splitOn "_"
    if groups.all fun g => !g.isEmpty && g.toList.all Char.isDigit then
      some (cs.filter Char.isDigit)
    else none
  let numeral (cs : List Char) : Int := cs.foldl (fun n c => 10 * n + (c.toNat - 48 : Nat)) 0
  let body := String.ofList cs
  if body == "inf" || body == "infinity" then some (signed (1.0 / 0.0))
  else if body == "nan" then some (0.0 / 0.0)
  else do
    let (mantissa, exponent) ← match body.splitOn "e" with
      | [m] => some (m, (0 : Int))
      | [m, e] =>
        let (below, e) := match e.toList with
          | '-' :: rest => (true, rest)
          | '+' :: rest => (false, rest)
          | cs => (false, cs)
        let n := numeral (← digits e)
        some (m, if below then -n else n)
      | _ => none
    let (whole, part) ← match mantissa.splitOn "." with
      | [w] => some (← digits w.toList, [])
      | [w, p] =>
        if w.isEmpty && p.isEmpty then none
        else
          let side (s : String) : Option (List Char) := if s.isEmpty then some [] else digits s.toList
          some (← side w, ← side p)
      | _ => none
    let scale := exponent - part.length
    let n := (numeral (whole ++ part)).toNat
    if n = 0 then some (signed 0.0)
    else if scale > 400 then some (signed (1.0 / 0.0))
    else if scale < -(400 + (whole ++ part).length : Int) then some (signed 0.0)
    else some (signed (Float.ofScientific n (scale < 0) scale.natAbs))

/-- A value as a number with a fraction, as far as it stands for one. -/
def realOf (v : Value) : Run Value := do
  let real (x : Float) : Value := .constant (.float (ofFloat x) 0)
  match number? v, v with
  | some (.whole n), _ => return real (← wholeToReal n)
  | some (.real x), _ => return real x
  | none, .constant (.text s) =>
    match readReal? s with
    | some x => return real x
    | none => throw .absentItem
  | _, _ => throw .misuse

/-! ### Sequences -/

private inductive Sequence
  | text (s : String)
  | tuple (items : List Value)
  | list (items : List Value)
  | bytes (bs : Bytes)
  /-- Bytes that can be changed. -/
  | buffer (bs : Bytes)

private def sequence? (v : Value) : Run (Option Sequence) := do
  match v with
  | .constant (.text s) => return some (.text s)
  | .constant (.bytes bs) => return some (.bytes bs)
  | .tuple items => return some (.tuple items)
  | .bytesOf w => return (← writtenBytes w).map .buffer
  | v => return (← listItems? v).map .list

private def newBuffer (bytes : Bytes) : Run Value := do
  return .bytesOf (← store (.writer { bytes }))

private def joinedSequences (a b : Sequence) : Run Value := do
  match a, b with
  | .text s, .text t => return .text (s ++ t)
  | .tuple xs, .tuple ys => return .tuple (xs ++ ys)
  | .list xs, .list ys => newList (xs ++ ys)
  | .bytes bs, .bytes cs | .bytes bs, .buffer cs => return .constant (.bytes (bs ++ cs))
  | .buffer bs, .bytes cs | .buffer bs, .buffer cs => newBuffer (bs ++ cs)
  | _, _ => throw .misuse

/-- Items some number of times over; a number that is too large is none. -/
private def copies {α : Type} (n : Int) (xs : List α) : Run (List α) := do
  if n.natAbs ≥ 1 <<< 63 then throw .tooLarge
  if n.toNat * xs.length > 1000000 then throw .tooLarge
  return (List.replicate (if xs.isEmpty then 0 else n.toNat) xs).flatten

def repeated (s : String) (n : Int) : Run String := do
  return String.ofList (← copies n s.toList)

private def repeatedSequence (n : Int) : Sequence → Run Value
  | .text s => return .text (← repeated s n)
  | .tuple xs => return .tuple (← copies n xs)
  | .list xs => do newList (← copies n xs)
  | .bytes bs => return .constant (.bytes (← copies n bs))
  | .buffer bs => do newBuffer (← copies n bs)

/-! ### Values -/

def sum (a b : Value) : Run Value := do
  match number? a, number? b with
  | some x, some y => adding.apply x y
  | _, _ =>
    match ← sequence? a, ← sequence? b with
    | some x, some y => joinedSequences x y
    | _, _ => throw .misuse

def difference (a b : Value) : Run Value := do
  match number? a, number? b with
  | some x, some y => subtracting.apply x y
  | _, _ =>
    match a, b with
    | .constant (.frozenset xs), .constant (.frozenset ys) =>
      return .constant (.frozenset (xs.filter fun x => !ys.any (·.same x)))
    | _, _ => throw .misuse

def product (a b : Value) : Run Value := do
  match number? a, number? b with
  | some x, some y => multiplying.apply x y
  | _, _ =>
    match ← sequence? a, b.toInt?, ← sequence? b, a.toInt? with
    | some s, some n, _, _ | _, _, some s, some n => repeatedSequence n s
    | _, _, _, _ => throw .misuse

/-- A value with another added to it; a list stays the same list and grows. -/
def increased (a b : Value) : Run Value := do
  match a, ← list? a with
  | .object i, some items =>
    changeObject i (.list (items ++ (← itemsOf b)))
    return a
  | _, _ => sum a b

end Lowering.Session
