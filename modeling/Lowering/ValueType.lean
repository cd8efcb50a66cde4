import Lowering.Constant
import Lowering.Field

/-!
Types of the values that a function computes, with the hints gathered about each.
-/
namespace Lowering

inductive ValueKind
  | unknown | integer | decimal | object | module | super | python | boolean | none
  deriving DecidableEq, Repr

inductive ConstantSort
  | value | decimal | integer | boolean | text
  deriving DecidableEq, Repr

inductive SourceSort
  | data | localVariable | member
  deriving DecidableEq, Repr

inductive SourceRef
  | variable (index : Nat)
  | member (index : Nat)
  deriving DecidableEq, Repr

mutual

inductive Hint
  | plain
  | constant (sort : ConstantSort) (value : Constant)
  | canBeNone
  | classPath (path : String)
  | constLen (count : Constant)
  | content (type : Option ValueType)
  | contentRange (minimum maximum : Constant) (type : Option ValueType)
  | refIncr
  | refCount (count : Constant)
  | source (sort : SourceSort) (ref : SourceRef)
  | intRange (minimum maximum : Constant)

inductive ValueType
  | mk (kind : ValueKind) (id : Int) (hints : List Hint)

end

instance : Inhabited Hint := ⟨.plain⟩

/-- A class of hints; some classes contain others. -/
inductive HintClass
  | any | constant (sort : ConstantSort) | canBeNone | classPath | constLen | content | contentRange
  | refIncr | refCount | source (sort : SourceSort) | intRange
  deriving DecidableEq, Repr

namespace Hint

def isA : Hint → HintClass → Bool
  | _, .any => true
  | constant _ _, .constant .value => true
  | constant s _, .constant t => s == t
  | canBeNone, .canBeNone => true
  | classPath _, .classPath => true
  | constLen _, .constLen => true
  | content _, .content => true
  | contentRange .., .contentRange => true
  | refIncr, .refIncr => true
  | refCount _, .refCount => true
  | source _ _, .source .data => true
  | source s _, .source t => s == t
  | intRange .., .intRange => true
  | _, _ => false

def name : Hint → String
  | plain => ""
  | constant sort _ =>
    match sort with
    | .value => "ConstValue"
    | .decimal => "ConstDec"
    | .integer => "ConstInt"
    | .boolean => "ConstBool"
    | .text => "ConstStr"
  | canBeNone => "CanBeNone"
  | classPath _ => "PythonType"
  | constLen _ => "ConstLen"
  | content _ => "CollectionContentHint"
  | contentRange .. => "CollectionContentRange"
  | refIncr => "RefIncr"
  | refCount _ => "RefCount"
  | source sort _ =>
    match sort with
    | .data => "DataSource"
    | .localVariable => "SourceLocalVariable"
    | .member => "SourceAttribute"
  | intRange .. => "IntRange"

end Hint

namespace ValueType

def kind : ValueType → ValueKind
  | mk kind _ _ => kind

def id : ValueType → Int
  | mk _ id _ => id

def hints : ValueType → List Hint
  | mk _ _ hints => hints

def ofKind (kind : ValueKind) : ValueType := mk kind 0 []

def unknown : ValueType := ofKind .unknown
def integer : ValueType := ofKind .integer
def decimal : ValueType := ofKind .decimal
def boolean : ValueType := ofKind .boolean
def python : ValueType := ofKind .python
def module : ValueType := ofKind .module
def none : ValueType := ofKind .none
def object (id : Int) : ValueType := mk .object id []

instance : Inhabited ValueType := ⟨unknown⟩

def withHints (t : ValueType) (hints : List Hint) : ValueType := mk t.kind t.id hints

def addHint (t : ValueType) (h : Hint) : ValueType := t.withHints (t.hints ++ [h])

def removeHints (t : ValueType) (c : HintClass) : ValueType :=
  t.withHints (t.hints.filter fun h => !h.isA c)

def findHint? (t : ValueType) (c : HintClass) : Option Hint := t.hints.find? (·.isA c)

def isIncremented (t : ValueType) : Bool := (t.findHint? .refIncr).isSome

def stored (t : ValueType) : ValueType := (t.removeHints .refIncr).removeHints (.source .data)

/-- Types are compared by kind only. -/
def same (a b : ValueType) : Bool := a.kind == b.kind

def isUnknown (t : ValueType) : Bool := t.kind == .unknown
def isInt (t : ValueType) : Bool := t.kind == .integer
def isDec (t : ValueType) : Bool := t.kind == .decimal
def isBool (t : ValueType) : Bool := t.kind == .boolean
def isObj (t : ValueType) : Bool := t.kind == .object
def isModule (t : ValueType) : Bool := t.kind == .module
def isNone (t : ValueType) : Bool := t.kind == .none
def isPython (t : ValueType) : Bool := t.kind == .python
def isPrimitive (t : ValueType) : Bool := t.isInt || t.isDec || t.isBool

def isOfClass (t : ValueType) (path : String) : Bool :=
  t.hints.any fun
    | .classPath p => p == path
    | _ => false

def isList (t : ValueType) : Bool := t.isOfClass "builtins.list"
def isDict (t : ValueType) : Bool := t.isOfClass "builtins.dict"
def isSet (t : ValueType) : Bool := t.isOfClass "builtins.set"
def isTuple (t : ValueType) : Bool := t.isOfClass "builtins.tuple"
def isStr (t : ValueType) : Bool := t.isOfClass "builtins.str"
def isCollection (t : ValueType) : Bool := t.isList || t.isSet || t.isDict || t.isTuple

/-- Objects carry a reference count; primitive values do not. -/
def isCounted (t : ValueType) : Bool := !t.isPrimitive && !t.isNone && !t.isUnknown

def content (t : ValueType) : Option ValueType :=
  let found := if t.isCollection then
      t.hints.filterMap fun
        | .content c => some c
        | _ => Option.none
    else []
  match found with
  | [c] => c
  | _ => some python

def isPythonClass (t : ValueType) (path : String) : Bool :=
  t.isPython &&
    match t.findHint? .classPath with
    | some (.classPath p) => p == path
    | _ => false

/-- The smallest type that holds values of both; values of two kinds meet in an object. -/
def join (a b : ValueType) : Except Fault ValueType :=
  if a.same b then .ok a
  else if a.isPython || b.isPython then .ok python
  else if a.isObj && b.isObj then .ok python
  else if a.isNone || b.isNone then .ok python
  else if a.isPrimitive || b.isPrimitive then .ok python
  else .error .typesIncomparable

/-- `join` where a type may be missing: a missing type meets nothing but another one. -/
def join? : Option ValueType → Option ValueType → Except Fault (Option ValueType)
  | some a, some b => some <$> a.join b
  | Option.none, Option.none => .ok Option.none
  | _, _ => .error .noMember

def joinAll : List (Option ValueType) → Except Fault (Option ValueType)
  | [] => .error .noTypeGiven
  | t :: rest => rest.foldlM join? t

private def kindText : ValueKind → Except Fault String
  | .unknown => .ok "Unknown"
  | .integer => .ok "int"
  | .decimal => .ok "float"
  | .boolean => .ok "Bool"
  | .object => .ok "object"
  | .module => .ok "module"
  | .python => .ok "python"
  | .none => .ok "none"
  | .super => .error .noKey

private def bracketed (hints : List Hint) (s : String) : String :=
  let t := mk .unknown 0 hints
  if t.isDict then "\x7b " ++ s ++ " \x7d"
  else if t.isList then "[ " ++ s ++ " ]"
  else if t.isTuple then "( " ++ s ++ " )"
  else s

mutual

/-- The text of a type with its hints; one kind has no text. -/
def text : ValueType → Except Fault String
  | mk kind _ hints => do
    let base := bracketed hints (← kindText kind)
    match hints with
    | [] => return base
    | h :: rest => return base ++ "@hints" ++ (← hintTexts (h :: rest))

def hintTexts : List Hint → Except Fault String
  | [] => .ok ""
  | h :: rest => do
    let s ← hintText h
    return " " ++ s ++ " " ++ (← hintTexts rest)

def hintText : Hint → Except Fault String
  | .content t => do return "<Collection contentHint " ++ (← optionalText t) ++ " >"
  | h => .ok ("<flyable.data.type_hint.TypeHint" ++ h.name ++ " object>")

def optionalText : Option ValueType → Except Fault String
  | some t => text t
  | Option.none => .ok "None"

end

def title (t : ValueType) : Except Fault String :=
  if t.isPrimitive || t.isModule || t.isUnknown then t.text
  else if t.isNone then .ok "None type"
  else if t.isObj then .error .noMember
  else if t.isStr then .ok "str"
  else if t.isDict then .ok "dict"
  else if t.isList then .ok "list"
  else if t.isSet then .ok "set"
  else if t.isTuple then .ok "tuple"
  else if t.isPython then .ok "Python object"
  else .ok "Flyable type"

end ValueType

/-- A value with what is known of its type. -/
structure Term where
  type : Option ValueType
  value : Operand

instance : Inhabited Term := ⟨⟨Option.none, .absent⟩⟩

end Lowering
