import Lowering.Session.Value
import Lowering.Text.Digit

/-!
What values are as conditions, as collections, as keys and as numbers, and when two are equal.
Comparing a type with something that is none is a fault.
-/
namespace Lowering.Session

/-! ### Contents -/

def writtenBytes (v : Value) : Run (Option Bytes) := do
  match v with
  | .blockWriter ref => return some (← emit (Emit.block ref)).bytes
  | v =>
    match ← object? v with
    | some (.writer w) => return some w.bytes
    | _ => return none

/-- A block that was given as one, or whatever else was given instead. -/
def ofBlockRef (ref : BlockRef) : Run Value := do
  if ref.func < (← programNow).funcs.size then return .block ref
  else return ((← get).others[ref.index]?).getD .none

def branchValues (ref : BlockRef) : Run (List Value) := do
  (← emit (Emit.block ref)).branches.toList.mapM ofBlockRef

def items? (v : Value) : Run (Option (List Value)) := do
  match v with
  | .tuple items | .iterator _ items | .dict items _ => return some items
  | .constant (.frozenset items) => return some (Value.ofConstants items)
  | .constant (.text s) => return some (s.toList.map fun c => .text (String.singleton c))
  | .constant (.bytes bs) => return some (bs.map fun b => .int b.toNat)
  | .bytesOf w => return (← writtenBytes w).map fun bs => bs.map fun b => .int b.toNat
  | .branchesOf ref => return some (← branchValues ref)
  | .counted type value => return some [type, value]
  | v => list? v

def itemsOf (v : Value) : Run (List Value) := do
  match ← items? v with
  | some items => return items
  | none => throw .misuse

/-- How many items something has; not all that can be gone through has a size. -/
def size? (v : Value) : Run (Option Nat) := do
  match v with
  | .iterator .. | .counted .. => return none
  | .block ref => return some (← emit (Emit.block ref)).bytes.length
  | v =>
    match ← writtenBytes v with
    | some bs => return some bs.length
    | none => return (← items? v).map List.length

def sizeOf (v : Value) : Run Nat := do
  match ← size? v with
  | some n => return n
  | none => throw .misuse

def isTruthy (v : Value) : Run Bool := do
  match v with
  | .constant c =>
    match c with
    | .none => return false
    | .bool b => return b
    | .int n => return n != 0
    | .float x _ => return !x.place.same (.finite 0 0)
    | .complex re im => return !(re.place.same (.finite 0 0) && im.place.same (.finite 0 0))
    | .ellipsis | .code => return true
    | _ => return (← size? v) != some 0
  | .member _ n => return n != 0
  | .flag i => return ((← get).flags[i]?.getD default).flag.enabled
  | v => return (← size? v) != some 0

/-! ### Numbers -/

def place? (v : Value) : Option Binary64.Place :=
  match v, v.toInt? with
  | _, some n => some (.finite n 0)
  | .constant c, none => c.place?
  | _, none => none

/-- A number over a power of two in lowest terms, as a text; at most `fuel` halvings are undone. -/
private def lowestTerms : Nat → Int → Nat → String
  | fuel + 1, n, k + 1 => if n % 2 = 0 then lowestTerms fuel (n / 2) k else s!"{n}/{k + 1}"
  | _, n, k => s!"{n}/{k}"

private def placeKey : Binary64.Place → String
  | .finite n k => lowestTerms k n k
  | .infinite negative => if negative then "-inf" else "inf"
  | .nowhere => "nan"

/-- The integer in a text of decimal digits, with blanks around it and a sign; single low lines may
stand between digits. -/
def readInt? (s : String) : Option Int :=
  let plain (c : Char) : Char :=
    if c.toNat < 127 then c
    else if Text.isBlank c then ' '
    else match Text.digit? c with
      | some d => Char.ofNat (48 + d)
      | none => '?'
  let isSpace (c : Char) : Bool := c = ' ' || (9 ≤ c.toNat && c.toNat ≤ 13)
  let cs := (s.toList.map plain).dropWhile isSpace
  let cs := (cs.reverse.dropWhile isSpace).reverse
  let (negative, cs) := match cs with
    | '-' :: rest => (true, rest)
    | '+' :: rest => (false, rest)
    | cs => (false, cs)
  let groups := (String.ofList cs).splitOn "_"
  if groups.any fun g => g.isEmpty || !g.toList.all Char.isDigit then none
  else
    let digits := cs.filter Char.isDigit
    if digits.length > 4300 then none
    else
      let n : Int := digits.foldl (fun n c => 10 * n + (c.toNat - 48 : Nat)) 0
      some (if negative then -n else n)

private def wholePart (n : Int) (halvings : Nat) : Int := n.tdiv (1 <<< halvings : Nat)

def integerOf (v : Value) : Run Int := do
  match v.toInt? with
  | some n => return n
  | none =>
    match v with
    | .constant (.float x _) =>
      match x.place with
      | .finite n k => return wholePart n k
      | .infinite _ => throw .tooLarge
      | .nowhere => throw .absentItem
    | .constant (.text s) =>
      match readInt? s with
      | some n => return n
      | none => throw .absentItem
    | v =>
      let bytes ← match v with
        | .constant (.bytes bs) => pure (some bs)
        | .bytesOf w => writtenBytes w
        | _ => pure none
      match bytes with
      | some bs =>
        match if bs.all (· < 127) then readInt? (String.ofList (bs.map fun b => Char.ofNat b.toNat))
          else none with
        | some n => return n
        | none => throw .absentItem
      | none => throw .misuse

/-! ### Keys -/

private def hexOf (bs : Bytes) : String := String.join (bs.map Constant.hexByte)

private def constantKey : Constant → String
  | .none => "none"
  | .text s => "text " ++ s
  | .bytes bs => "bytes " ++ hexOf bs
  | .ellipsis => "ellipsis"
  | .code => "code"
  | .float x tag => if x.isNaN then s!"nan {tag}" else "number " ++ placeKey x.place
  | .complex re im =>
    if im.place.same (.finite 0 0) then "number " ++ placeKey re.place
    else "complex " ++ placeKey re.place ++ " " ++ placeKey im.place
  | .frozenset items => "set " ++ String.join (items.map fun
    | .int n => s!"{n} "
    | _ => "")
  | .bool b => "number " ++ (if b then "1/0" else "0/0")
  | .int n => s!"number {n}/0"
  | .tuple _ => "tuple"

private def entryKey : Value → Option String
  | .kind k => some s!"kind {repr k}"
  | .object i => some s!"object {i}"
  | .block ref => some s!"block {ref.func} {ref.index}"
  | .func i => some s!"func {i}"
  | .global i => some s!"global {i}"
  | .struct i => some s!"struct {i}"
  | .variable i => some s!"variable {i}"
  | .scope i => some s!"scope {i}"
  | .impl i => some s!"impl {i}"
  | .definition i => some s!"definition {i}"
  | .file i => some s!"file {i}"
  | .catalog i => some s!"catalog {i}"
  | .cursor i => some s!"cursor {i}"
  | .blockWriter ref => some s!"writer {ref.func} {ref.index}"
  | .flag i => some s!"flag {i}"
  | .step i => some s!"step {i}"
  | .program => some "program"
  | .lowerer => some "lowerer"
  | .compiler => some "compiler"
  | .node n => some s!"node {n.mark.key}"
  | .hintClass c => some s!"hints {repr c}"
  | .classNamed name => some ("class " ++ name)
  | .builtinNamed name => some ("builtin " ++ name)
  | .undecided => some "undecided"
  | _ => none

def identical (a b : Value) : Bool :=
  match a, b with
  | .constant .none, .constant .none => true
  | .constant (.bool x), .constant (.bool y) => x == y
  | .constant (.int x), .constant (.int y) => x == y
  | .constant (.float x i), .constant (.float y j) => x.bits == y.bits && i == j
  | .constant (.text x), .constant (.text y) => x == y
  | .member f m, .member g n => f == g && m == n
  | a, b =>
    match entryKey a, entryKey b with
    | some x, some y => x == y
    | _, _ => false

mutual

def keyOf (v : Value) : Run String := do
  match v with
  | .constant c => return constantKey c
  | .member _ n => return s!"number {n}/0"
  | .tuple items => return "tuple(" ++ String.join (← keysOf items) ++ ")"
  | .dict .. | .bytesOf _ | .branchesOf _ | .report .. | .step _ | .flag _ | .library _ =>
    throw .misuse
  | .object i =>
    match (← get).objects[i]? with
    | some (.list _) | some (.type ..) | some (.layout _) => throw .misuse
    | _ => return s!"object {i}"
  | v => return (entryKey v).getD "thing"

def keysOf : List Value → Run (List String)
  | [] => return []
  | v :: rest => do
    let k ← keyOf v
    return (k ++ ",") :: (← keysOf rest)

end

def entry? {α : Type} (table : List (Value × α)) (key : Value) : Run (Option α) := do
  let k ← keyOf key
  for (name, a) in table do
    if (← keyOf name) == k then return some a
  return none

/-- Enters something under a key; a key that is there keeps its place and its form. -/
def putEntry {α : Type} (table : List (Value × α)) (key : Value) (a : α) :
    Run (List (Value × α)) := do
  let k ← keyOf key
  let mut found := false
  let mut out : Array (Value × α) := #[]
  for (name, b) in table do
    if (← keyOf name) == k then
      out := out.push (name, a)
      found := true
    else out := out.push (name, b)
  return out.toList ++ if found then [] else [(key, a)]

/-! ### Equality -/

private def bytes? (v : Value) : Run (Option Bytes) := do
  match v with
  | .constant (.bytes bs) => return some bs
  | .bytesOf w => writtenBytes w
  | _ => return none

def listItems? (v : Value) : Run (Option (List Value)) := do
  match v with
  | .branchesOf ref => return some (← branchValues ref)
  | v => list? v

def equalWithin : Nat → Value → Value → Run Bool
  | 0, _, _ => return true
  | fuel + 1, a, b => do
    let pairwise (xs ys : List Value) : Run Bool := do
      if xs.length ≠ ys.length then return false
      for (x, y) in xs.zip ys do
        unless identical x y do
          unless ← equalWithin fuel x y do return false
      return true
    match ← object? a, ← object? b with
    | some (.type k _ _), some (.type l _ _) => equalWithin fuel k l
    | some (.layout l), some (.layout m) =>
      if !(← equalWithin fuel l.primitive m.primitive) then return false
      if !(← equalWithin fuel l.structId m.structId) then return false
      equalWithin fuel l.pointers m.pointers
    | some (.type ..), _ | some (.layout _), _ | _, some (.type ..) | _, some (.layout _) =>
      throw .noMember
    | _, _ =>
      match place? a, place? b with
      | some p, some q => return p.same q
      | some _, none | none, some _ => return false
      | none, none =>
        match a, b with
        | .tuple xs, .tuple ys => pairwise xs ys
        | .constant (.frozenset xs), .constant (.frozenset ys) =>
          return constantKey (.frozenset xs) == constantKey (.frozenset ys)
        | .constant (.complex r i), .constant (.complex s j) =>
          return r.place.same s.place && i.place.same j.place
        | .report m l r, .report n k s => pairwise [m, l, r] [n, k, s]
        | .library f, .library g => return f == g
        | .step i, .step j =>
          let s := (← get).steps
          let x := s[i]?.getD default
          let y := s[j]?.getD default
          if ← equalWithin fuel x.name y.name then return x.status == y.status else return false
        | .flag i, .flag j =>
          let s := (← get).flags
          let x := (s[i]?.getD default).flag
          let y := (s[j]?.getD default).flag
          pairwise [x.initial, x.value, .bool x.enabled] [y.initial, y.value, .bool y.enabled]
        | .dict ks vs, .dict ls ws =>
          if ks.length ≠ ls.length then return false
          for (k, v) in ks.zip vs do
            match ← entry? (ls.zip ws) k with
            | some w => unless ← equalWithin fuel v w do return false
            | none => return false
          return true
        | .constant (.text s), .constant (.text t) => return s == t
        | a, b =>
          match ← bytes? a, ← bytes? b with
          | some bs, some cs => return bs == cs
          | _, _ =>
            match ← listItems? a, ← listItems? b with
            | some xs, some ys => pairwise xs ys
            | _, _ => return identical a b

def equal (a b : Value) : Run Bool := do
  equalWithin ((← get).objects.size + 100) a b

def isAmong (v : Value) (items : List Value) : Run Bool := do
  for x in items do
    if identical x v then return true
    if ← equal x v then return true
  return false

/-! ### Order -/

private def belowBytes : Bytes → Bytes → Bool
  | [], [] => false
  | [], _ :: _ => true
  | _ :: _, [] => false
  | a :: as, b :: bs => if a = b then belowBytes as bs else a < b

mutual

def isAfter : Nat → Value → Value → Run Bool
  | 0, _, _ => return false
  | fuel + 1, a, b => do
    match place? a, place? b with
    | some p, some q =>
      match a, b with
      | .constant (.complex ..), _ | _, .constant (.complex ..) => throw .misuse
      | _, _ => return q.isBelow p
    | _, _ =>
      match a, b with
      | .constant (.text s), .constant (.text t) => return t < s
      | .tuple xs, .tuple ys => itemsAfter fuel xs ys
      | .constant (.frozenset xs), .constant (.frozenset ys) =>
        return ys.length < xs.length && ys.all fun y => xs.any (·.same y)
      | a, b =>
        match ← bytes? a, ← bytes? b with
        | some x, some y => return belowBytes y x
        | _, _ =>
          match ← listItems? a, ← listItems? b with
          | some xs, some ys => itemsAfter fuel xs ys
          | _, _ => throw .misuse

def itemsAfter (fuel : Nat) : List Value → List Value → Run Bool
  | [], _ => return false
  | _ :: _, [] => return true
  | x :: xs, y :: ys => do
    if identical x y then itemsAfter fuel xs ys
    else if ← equal x y then itemsAfter fuel xs ys
    else isAfter fuel x y

end

/-! ### Places in a list -/

/-- The place that an index gives in a list of some size; a negative one counts from the end. -/
def placeAt? (size : Nat) (index : Int) : Option Nat :=
  let k := if index < 0 then index + size else index
  if 0 ≤ k && k < size then some k.toNat else none

def itemAt {α : Type} (items : List α) (index : Value) : Run α := do
  match index.toInt? with
  | none => throw .misuse
  | some n =>
    match (placeAt? items.length n).bind fun k => items[k]? with
    | some a => return a
    | none => throw .outOfRange

def itemOf (v index : Value) : Run Value := do
  match v with
  | .dict keys values =>
    match ← entry? (keys.zip values) index with
    | some v => return v
    | none => throw .noKey
  | .constant (.frozenset _) | .iterator .. => throw .misuse
  | v => itemAt (← itemsOf v) index

end Lowering.Session
