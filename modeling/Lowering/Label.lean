import Lowering.Constant
import Lowering.Field

/-!
Names as they are given. A name is a text; what stands in its place without being one can still be a
constant, or be counted.
-/
namespace Lowering

structure Label where
  text? : Option String
  /-- The constant that it is; what cannot be one is at fault, a misuse if it cannot be a key. -/
  constant : Except Fault Constant
  size : Except Fault Nat

namespace Label

def ofText (s : String) : Label := ⟨some s, .ok (.text s), .ok s.length⟩

instance : Coe String Label := ⟨ofText⟩

instance : Inhabited Label := ⟨ofText ""⟩

/-- A constant in the place of a name. Only a text is one, and only texts, bytes and collections can
be counted. -/
def ofConstant : Constant → Label
  | .text s => ofText s
  | .bytes bs => ⟨none, .ok (.bytes bs), .ok bs.length⟩
  | .tuple items => ⟨none, .ok (.tuple items), .ok items.length⟩
  | .frozenset items => ⟨none, .ok (.frozenset items), .ok items.length⟩
  | c => ⟨none, .ok c, .error .misuse⟩

/-- Something in the place of a name that is no constant, by the name of its class. -/
def ofThing (className : String) : Label :=
  ⟨none, .error (.constantRejected (classText className)), .error .misuse⟩

def ofList (length : Nat) : Label := ⟨none, .error .misuse, .ok length⟩

/-- The text, empty for anything else: no table lists that. -/
def plain (l : Label) : String := l.text?.getD ""

def required (l : Label) : Except Fault String :=
  match l.text? with
  | some s => .ok s
  | none => .error .misuse

def key (l : Label) : Except Fault String :=
  match l.constant with
  | .error .misuse => .error .misuse
  | _ => .ok l.plain

def number? (l : Label) : Option Int :=
  match l.constant with
  | .ok (.int n) => some n
  | .ok (.bool b) => some (if b then 1 else 0)
  | _ => none

def shown (l : Label) : String :=
  match l.constant with
  | .ok c => c.content
  | .error _ => ""

def fields (l : Label) : List Field :=
  match l.text?, l.size with
  | some s, _ => [.text s]
  | none, .ok n => [.count n, .refuse .misuse]
  | none, .error e => [.refuse e]

end Label
end Lowering
