import Lowering.Binary64

/-!
Constants of the compiled language. Numbers of different sorts that have one value are one constant
of a pool; a not-a-number is equal to itself only, which its tag records.
-/
namespace Lowering

inductive Constant
  | none
  | bool (b : Bool)
  | int (n : Int)
  | text (s : String)
  | float (x : Binary64) (tag : Nat)
  | bytes (bs : Bytes)
  | complex (re im : Binary64)
  | ellipsis
  | tuple (items : List Constant)
  | frozenset (items : List Constant)
  | code
  deriving Repr, Inhabited

namespace Constant

def className : Constant → String
  | none => "NoneType"
  | bool _ => "bool"
  | int _ => "int"
  | text _ => "str"
  | float .. => "float"
  | bytes _ => "bytes"
  | complex .. => "complex"
  | ellipsis => "ellipsis"
  | tuple _ => "tuple"
  | frozenset _ => "frozenset"
  | code => "code"

def place? : Constant → Option Binary64.Place
  | bool b => some (.finite (if b then 1 else 0) 0)
  | int n => some (.finite n 0)
  | float x _ => some x.place
  | complex re im => if im.place.same (.finite 0 0) then some re.place else Option.none
  | _ => Option.none

mutual

def same : Constant → Constant → Bool
  | none, none => true
  | text a, text b => a == b
  | bytes a, bytes b => a == b
  | ellipsis, ellipsis => true
  | code, code => true
  | tuple xs, tuple ys => sameAll xs ys
  | frozenset xs, frozenset ys => sameAll xs ys
  | float x i, float y j => if x.isNaN then y.isNaN && i == j else x.place.same y.place
  | complex a b, complex c d => a.place.same c.place && b.place.same d.place
  | x, y =>
    match x.place?, y.place? with
    | some p, some q => p.same q
    | _, _ => false

def sameAll : List Constant → List Constant → Bool
  | [], [] => true
  | x :: xs, y :: ys => same x y && sameAll xs ys
  | _, _ => false

end

private def hexDigit (n : Nat) : Char := (Nat.toDigits 16 n).headD '0'

def hexByte (b : UInt8) : String :=
  String.ofList [hexDigit (b.toNat / 16), hexDigit (b.toNat % 16)]

private def byteText (quote : Char) (b : UInt8) : String :=
  let c := Char.ofNat b.toNat
  if c = quote || c = '\\' then String.ofList ['\\', c]
  else if c = '\t' then "\\t"
  else if c = '\n' then "\\n"
  else if c = '\r' then "\\r"
  else if b.toNat < 32 || b.toNat ≥ 127 then "\\x" ++ hexByte b
  else String.singleton c

/-- A bytes literal; double quotes only when that saves an escape. -/
def bytesText (bs : Bytes) : String :=
  let double := bs.contains 39 && !bs.contains 34
  let quote := if double then '"' else '\''
  let q := String.singleton quote
  "b" ++ q ++ String.join (bs.map (byteText quote)) ++ q

def complexText (re im : Binary64) : String :=
  if re.bits == 0 then im.text false ++ "j"
  else
    let i := im.text false
    "(" ++ re.text false ++ (if i.startsWith "-" then "" else "+") ++ i ++ "j)"

def content : Constant → String
  | none => "None"
  | bool b => if b then "True" else "False"
  | int n => toString n
  | text s => s
  | float x _ => x.text true
  | bytes bs => bytesText bs
  | complex re im => complexText re im
  | ellipsis => "Ellipsis"
  | tuple _ => "tuple"
  | frozenset _ => "frozenset"
  | code => "code"

end Constant
end Lowering
