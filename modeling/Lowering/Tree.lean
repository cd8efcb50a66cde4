import Lowering.Label

/-!
Syntax trees of the compiled language. A construct with a lowering of its own has a form of its own;
the others keep their class name and children. A child that is not there is the absent node, and
children that stand in a list are a suite.
-/
namespace Lowering

structure Span where
  line : Option Int
  column : Option Int
  endLine : Option Int
  endColumn : Option Int
  deriving DecidableEq, Repr

inductive Usage
  | load
  | store
  | other (className : String)
  deriving DecidableEq, Repr

namespace Usage

def className : Usage → String
  | load => "Load"
  | store => "Store"
  | other name => name

def ofClassName (name : String) : Usage :=
  if name = "Load" then load else if name = "Store" then store else other name

end Usage

inductive Operator
  | add | sub | mult | matMult | div | mod | pow | lShift | rShift | bitOr | bitXor | bitAnd | floorDiv
  | and | or
  | invert | not | uAdd | uSub
  | eq | notEq | lt | ltE | gt | gtE | is | isNot | isIn | notIn
  | other (className : String)
  deriving DecidableEq, Repr

namespace Operator

def className : Operator → String
  | add => "Add"
  | sub => "Sub"
  | mult => "Mult"
  | matMult => "MatMult"
  | div => "Div"
  | mod => "Mod"
  | pow => "Pow"
  | lShift => "LShift"
  | rShift => "RShift"
  | bitOr => "BitOr"
  | bitXor => "BitXor"
  | bitAnd => "BitAnd"
  | floorDiv => "FloorDiv"
  | and => "And"
  | or => "Or"
  | invert => "Invert"
  | not => "Not"
  | uAdd => "UAdd"
  | uSub => "USub"
  | eq => "Eq"
  | notEq => "NotEq"
  | lt => "Lt"
  | ltE => "LtE"
  | gt => "Gt"
  | gtE => "GtE"
  | is => "Is"
  | isNot => "IsNot"
  | isIn => "In"
  | notIn => "NotIn"
  | other name => name

def all : List Operator :=
  [add, sub, mult, matMult, div, mod, pow, lShift, rShift, bitOr, bitXor, bitAnd, floorDiv, and, or,
    invert, not, uAdd, uSub, eq, notEq, lt, ltE, gt, gtE, is, isNot, isIn, notIn]

def ofClassName (name : String) : Operator :=
  (all.find? (·.className == name)).getD (other name)

end Operator

/-- What identifies a node, its place in the source, and a usage it was given beyond its form. -/
structure Mark where
  key : Nat := 0
  span : Option Span := none
  usage : Option Usage := none
  deriving DecidableEq, Repr, Inhabited

mutual

inductive Node
  | mk (mark : Mark) (form : Form)

inductive Form
  | absent
  /-- A plain value in the place of a node, by its class, and as the name that it may be. -/
  | plain (className : String) (label : Label)
  /-- Nodes one after the other, such as the body of a statement. -/
  | suite (items : List Node)
  | name (id : Label) (usage : Option Usage)
  | memberOf (value : Node) (attr : Label) (usage : Option Usage)
  | subscript (value slice : Node) (usage : Option Usage)
  | starred (value : Node) (usage : Option Usage)
  | list (elts : Node) (usage : Option Usage)
  | tuple (elts : Node) (usage : Option Usage)
  | constant (value : Constant)
  | set (elts : Node)
  | dict (keys values : Node)
  | slice (lower upper step : Node)
  | binOp (left : Node) (op : Option Operator) (right : Node)
  | unaryOp (op : Option Operator) (operand : Node)
  | boolOp (op : Option Operator) (values : Node)
  | compare (left : Node) (ops : Option (List (Option Operator))) (comparators : Node)
  | call (func args keywords : Node)
  | keyword (arg : Label) (value : Node)
  | namedExpr (target value : Node)
  | ifExp (test body orelse : Node)
  | listComp (elt generators : Node)
  | setComp (elt generators : Node)
  | dictComp (key value generators : Node)
  | comprehension (target iter ifs : Node)
  | yield (value : Node)
  | yieldFrom (value : Node)
  | expr (value : Node)
  | expression (body : Node)
  | assign (targets value : Node)
  | annAssign (target declared value : Node)
  | augAssign (target : Node) (op : Option Operator) (value : Node)
  | delete (targets : Node)
  | ret (value : Node)
  | raise (exc cause : Node)
  | assert (test msg : Node)
  | global (names : Node)
  | nonlocalStmt (names : Node)
  | pass
  | breakStmt
  | ifStmt (test body orelse : Node)
  | forStmt (target iter body orelse : Node)
  | whileStmt (test body orelse : Node)
  | withStmt (items body : Node)
  | withItem (context binding : Node)
  | tryStmt (children : List Node)
  | importStmt (names : Node)
  | importFrom (names : Node)
  | classDef (children : List Node)
  | functionDef (name : Label) (args body decorators returns : Node)
  | arguments (posOnly args vararg kwOnly kwDefaults kwarg defaults : Node)
  | arg (name : Label) (declared : Node)
  /-- A construct that is lowered by lowering its children. -/
  | other (className : String) (children : List Node)

end

namespace Node

def mark : Node → Mark
  | mk mark _ => mark

def form : Node → Form
  | mk _ form => form

def span (n : Node) : Option Span := n.mark.span

def absent : Node := mk {} .absent

instance : Inhabited Node := ⟨absent⟩

def leaf (className : String) : Node := mk {} (.other className [])

def isAbsent (n : Node) : Bool :=
  match n.form with
  | .absent => true
  | _ => false

def isConstruct (n : Node) : Bool :=
  match n.form with
  | .absent | .plain .. | .suite _ => false
  | _ => true

def group (ns : List Node) : Node := mk {} (.suite ns)

def ofText (s : String) : Node := mk {} (.plain "str" (.ofText s))

/-- What can be gone through: the nodes of a list, or the characters of a text. -/
def items? (n : Node) : Option (List Node) :=
  match n.form with
  | .suite items => some items
  | .plain _ label => label.text?.map fun s => s.toList.map fun c => ofText c.toString
  | _ => none

theorem items?_group (ns : List Node) : (group ns).items? = some ns := rfl

end Node

namespace Form

def className : Form → String
  | absent => "NoneType"
  | plain className _ => className
  | suite _ => "list"
  | name .. => "Name"
  | memberOf .. => "Attribute"
  | subscript .. => "Subscript"
  | starred .. => "Starred"
  | list .. => "List"
  | tuple .. => "Tuple"
  | constant _ => "Constant"
  | set _ => "Set"
  | dict .. => "Dict"
  | slice .. => "Slice"
  | binOp .. => "BinOp"
  | unaryOp .. => "UnaryOp"
  | boolOp .. => "BoolOp"
  | compare .. => "Compare"
  | call .. => "Call"
  | keyword .. => "keyword"
  | namedExpr .. => "NamedExpr"
  | ifExp .. => "IfExp"
  | listComp .. => "ListComp"
  | setComp .. => "SetComp"
  | dictComp .. => "DictComp"
  | comprehension .. => "comprehension"
  | yield _ => "Yield"
  | yieldFrom _ => "YieldFrom"
  | expr _ => "Expr"
  | expression _ => "Expression"
  | assign .. => "Assign"
  | annAssign .. => "AnnAssign"
  | augAssign .. => "AugAssign"
  | delete _ => "Delete"
  | ret _ => "Return"
  | raise .. => "Raise"
  | assert .. => "Assert"
  | global _ => "Global"
  | nonlocalStmt _ => "Nonlocal"
  | pass => "Pass"
  | breakStmt => "Break"
  | ifStmt .. => "If"
  | forStmt .. => "For"
  | whileStmt .. => "While"
  | withStmt .. => "With"
  | withItem .. => "withitem"
  | tryStmt _ => "Try"
  | importStmt _ => "Import"
  | importFrom _ => "ImportFrom"
  | classDef _ => "ClassDef"
  | functionDef .. => "FunctionDef"
  | arguments .. => "arguments"
  | arg .. => "arg"
  | other className _ => className

/-- Whether the node is read or written, for the forms that say so. -/
def usage : Form → Option Usage
  | name _ u | memberOf _ _ u | subscript _ _ u | starred _ u | list _ u | tuple _ u => u
  | _ => none

end Form

namespace Node

def className (n : Node) : String := n.form.className

def label (n : Node) : Label :=
  match n.form with
  | .absent => .ofConstant .none
  | .plain _ label => label
  | .suite items => .ofList items.length
  | _ => .ofThing ("ast." ++ n.className)

def classText (n : Node) : String :=
  (if n.isConstruct then "<class 'ast." else "<class '") ++ n.className ++ "'>"

private def usageLeaf : Option Usage → List Node
  | some u => [leaf u.className]
  | none => []

private def operatorLeaf : Option Operator → List Node
  | some o => [leaf o.className]
  | none => []

private def operatorLeaves : Option (List (Option Operator)) → List Node
  | some ops => ops.flatMap operatorLeaf
  | none => []

/-- What the fields of a node hold, in order. -/
private def fields : Form → List Node
  | .absent | .plain .. | .constant _ | .pass | .breakStmt => []
  | .suite items => items
  | .name _ u => usageLeaf u
  | .memberOf value _ u | .starred value u => value :: usageLeaf u
  | .subscript value slice u => value :: slice :: usageLeaf u
  | .list elts u | .tuple elts u => elts :: usageLeaf u
  | .set elts => [elts]
  | .dict keys values => [keys, values]
  | .slice lower upper step => [lower, upper, step]
  | .binOp left op right => left :: operatorLeaf op ++ [right]
  | .unaryOp op operand => operatorLeaf op ++ [operand]
  | .boolOp op values => operatorLeaf op ++ [values]
  | .compare left ops comparators => left :: operatorLeaves ops ++ [comparators]
  | .call func args keywords => [func, args, keywords]
  | .namedExpr target value => [target, value]
  | .ifExp test body orelse | .ifStmt test body orelse | .whileStmt test body orelse =>
    [test, body, orelse]
  | .listComp elt generators | .setComp elt generators => [elt, generators]
  | .dictComp key value generators => [key, value, generators]
  | .comprehension target iter ifs => [target, iter, ifs]
  | .keyword _ n | .arg _ n | .yield n | .yieldFrom n | .expr n | .ret n | .expression n | .delete n
  | .global n | .nonlocalStmt n | .importStmt n | .importFrom n => [n]
  | .assign targets value => [targets, value]
  | .annAssign target declared value => [target, declared, value]
  | .augAssign target op value => target :: operatorLeaf op ++ [value]
  | .raise exc cause => [exc, cause]
  | .assert test msg => [test, msg]
  | .forStmt target iter body orelse => [target, iter, body, orelse]
  | .withStmt items body => [items, body]
  | .withItem context binding => [context, binding]
  | .tryStmt children | .classDef children | .other _ children => children
  | .functionDef _ args body decorators returns => [args, body, decorators, returns]
  | .arguments posOnly args vararg kwOnly kwDefaults kwarg defaults =>
    [posOnly, args, vararg, kwOnly, kwDefaults, kwarg, defaults]

def parts (n : Node) : List Node :=
  match n.form with
  | .suite items => items
  | _ => [n]

def children (n : Node) : List Node := ((fields n.form).flatMap parts).filter isConstruct

mutual

def depth : Node → Nat
  | mk _ form => formDepth form + 1

def formDepth : Form → Nat
  | .absent | .plain .. | .constant _ | .pass | .breakStmt | .name .. => 1
  | .memberOf n _ _ | .starred n _ | .list n _ | .tuple n _ | .set n | .keyword _ n | .arg _ n
  | .yield n | .yieldFrom n | .expr n | .ret n | .expression n | .delete n | .global n
  | .nonlocalStmt n | .importStmt n | .importFrom n | .unaryOp _ n | .boolOp _ n => depth n
  | .subscript value slice _ => max (depth value) (depth slice)
  | .suite items | .tryStmt items | .classDef items | .other _ items => listDepth items
  | .dict a b | .namedExpr a b | .listComp a b | .setComp a b | .assign a b | .raise a b
  | .assert a b | .withStmt a b | .withItem a b | .binOp a _ b | .compare a _ b
  | .augAssign a _ b => max (depth a) (depth b)
  | .slice a b c | .call a b c | .ifExp a b c | .ifStmt a b c | .whileStmt a b c | .dictComp a b c
  | .comprehension a b c | .annAssign a b c => max (depth a) (max (depth b) (depth c))
  | .forStmt target iter body orelse =>
    max (depth target) (max (depth iter) (max (depth body) (depth orelse)))
  | .functionDef _ args body decorators returns =>
    max (depth args) (max (depth body) (max (depth decorators) (depth returns)))
  | .arguments posOnly args vararg kwOnly kwDefaults kwarg defaults =>
    max (depth posOnly) (max (depth args) (max (depth vararg) (max (depth kwOnly)
      (max (depth kwDefaults) (max (depth kwarg) (depth defaults))))))

def listDepth : List Node → Nat
  | [] => 1
  | n :: rest => max (depth n) (listDepth rest)

end

theorem depth_pos (n : Node) : 0 < n.depth := by
  cases n
  rw [depth]
  exact Nat.succ_pos _

theorem depth_le_listDepth {items : List Node} {n : Node} (h : n ∈ items) : n.depth ≤ listDepth items := by
  induction items with
  | nil => cases h
  | cons m rest ih =>
    rw [listDepth]
    rcases List.mem_cons.1 h with rfl | h
    · exact Nat.le_max_left ..
    · exact Nat.le_trans (ih h) (Nat.le_max_right ..)

theorem formDepth_pos (form : Form) : 0 < formDepth form := by
  have hlist : ∀ items : List Node, 0 < listDepth items := fun items => by
    cases items with
    | nil => exact Nat.zero_lt_one
    | cons n rest => exact Nat.lt_of_lt_of_le n.depth_pos (Nat.le_max_left ..)
  have hnode := depth_pos
  cases form <;> simp only [formDepth] <;> grind

theorem depth_eq (n : Node) : n.depth = formDepth n.form + 1 := by
  cases n
  rw [depth, form]

theorem children_leaf (className : String) : (leaf className).children = [] := rfl

/-- A field holds a tree that is less deep, or a leaf that says no more than its class. -/
private theorem depth_of_mem_fields {f : Form} {n : Node} (h : n ∈ fields f) :
    (∃ className, n = leaf className) ∨ n.depth ≤ formDepth f := by
  have husage : ∀ {u : Option Usage}, n ∈ usageLeaf u → ∃ className, n = leaf className := by
    intro u hu
    cases u with
    | none => cases hu
    | some u => exact ⟨_, List.mem_singleton.1 hu⟩
  have hoperator : ∀ {o : Option Operator}, n ∈ operatorLeaf o → ∃ className, n = leaf className := by
    intro o ho
    cases o with
    | none => cases ho
    | some o => exact ⟨_, List.mem_singleton.1 ho⟩
  have hoperators : ∀ {os : Option (List (Option Operator))}, n ∈ operatorLeaves os →
      ∃ className, n = leaf className := by
    intro os hos
    cases os with
    | none => cases hos
    | some os =>
      obtain ⟨o, -, ho⟩ := List.mem_flatMap.1 hos
      exact hoperator ho
  cases f <;> simp only [fields, List.mem_cons, List.mem_append, List.not_mem_nil, or_false] at h <;>
    simp only [formDepth]
  case arguments => rcases h with rfl | rfl | rfl | rfl | rfl | rfl | rfl <;> exact .inr (by omega)
  all_goals grind [→ depth_le_listDepth]

/-- A construct right below a node says no more than its class, or is less deep. -/
private theorem of_mem_children {n c : Node} (h : c ∈ n.children) :
    (∃ className, c = leaf className) ∨ c.depth < n.depth := by
  obtain ⟨m, hm, hc⟩ := List.mem_flatMap.1 (List.mem_filter.1 h).1
  rw [depth_eq n, Nat.lt_succ_iff]
  rcases depth_of_mem_fields hm with ⟨className, rfl⟩ | hdepth
  · exact .inl ⟨className, List.mem_singleton.1 hc⟩
  · refine .inr (Nat.le_trans ?_ hdepth)
    unfold parts at hc
    split at hc
    next items hform =>
      rw [depth_eq m, hform]
      exact Nat.le_succ_of_le (depth_le_listDepth hc)
    next => exact Nat.le_of_eq (congrArg depth (List.mem_singleton.1 hc))

/-- A construct right below a node has no more below it, or is less deep. -/
theorem depth_of_mem_children {n c : Node} (h : c ∈ n.children) : c.children = [] ∨ c.depth < n.depth := by
  rcases of_mem_children h with ⟨className, rfl⟩ | hlt
  · exact .inl (children_leaf className)
  · exact .inr hlt

/-- A construct right below a node of more than two levels is less deep. -/
theorem depth_lt_of_mem_children {n c : Node} (h : c ∈ n.children) (hn : 2 < n.depth) : c.depth < n.depth := by
  rcases of_mem_children h with ⟨className, rfl⟩ | hlt
  · exact hn
  · exact hlt

theorem one_lt_depth (n : Node) : 1 < n.depth := by
  rw [depth_eq]
  exact Nat.succ_lt_succ (formDepth_pos n.form)

end Node
end Lowering
