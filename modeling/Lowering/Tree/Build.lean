import Lowering.Tree

/-!
Nodes from a class name and named parts.
-/
namespace Lowering

inductive Part
  | absent
  | node (n : Node)
  | text (s : String)
  | number (n : Int)
  | constant (c : Constant)
  | items (parts : List Part)
  deriving Inhabited

namespace Part

def asLabel : Part → Label
  | absent => .ofConstant .none
  | node n => .ofThing ("ast." ++ n.className)
  | text s => .ofText s
  | number n => .ofConstant (.int n)
  | constant c => .ofConstant c
  | items parts => .ofList parts.length

mutual

def asNode : Part → Node
  | absent => Node.absent
  | node n => n
  | text s => Node.ofText s
  | number n => .mk {} (.plain "int" (.ofConstant (.int n)))
  | constant c => .mk {} (.plain c.className (.ofConstant c))
  | items parts => Node.group (asNodes parts)

def asNodes : List Part → List Node
  | [] => []
  | p :: rest => asNode p :: asNodes rest

end

def asConstant : Part → Constant
  | constant c => c
  | _ => .none

def className? : Part → Option String
  | text name => some name
  | node n => some n.className
  | _ => none

def asUsage (p : Part) : Option Usage := p.className?.map Usage.ofClassName

def asOperator (p : Part) : Option Operator := p.className?.map Operator.ofClassName

def asOperators : Part → Option (List (Option Operator))
  | items parts => some (parts.map asOperator)
  | _ => none

end Part

namespace Node

/-- Fields of the constructs that keep only their children, in order. -/
def fieldOrder : List (String × List String) :=
  [("AsyncFunctionDef", ["args", "body", "decorator_list", "returns"]),
    ("Await", ["value"]),
    ("ClassDef", ["bases", "keywords", "body", "decorator_list"]),
    ("ExceptHandler", ["type", "body"]),
    ("FormattedValue", ["value", "format_spec"]),
    ("GeneratorExp", ["elt", "generators"]),
    ("Interactive", ["body"]),
    ("JoinedStr", ["values"]),
    ("Lambda", ["args", "body"]),
    ("Match", ["subject", "cases"]),
    ("MatchAs", ["pattern"]),
    ("MatchClass", ["cls", "patterns", "kwd_patterns"]),
    ("MatchMapping", ["keys", "patterns"]),
    ("MatchOr", ["patterns"]),
    ("MatchSequence", ["patterns"]),
    ("MatchValue", ["value"]),
    ("Module", ["body", "type_ignores"]),
    ("Try", ["body", "handlers", "orelse", "finalbody"]),
    ("TryStar", ["body", "handlers", "orelse", "finalbody"]),
    ("match_case", ["pattern", "guard", "body"])]

/-- A node of a class with the given fields; a field that is not given is absent. -/
def build (mark : Mark) (className : String) (fields : List (String × Part)) : Node :=
  let field (name : String) : Part := (fields.lookup name).getD .absent
  let node (name : String) : Node := (field name).asNode
  let label (name : String) : Label := (field name).asLabel
  let usage : Option Usage := (field "ctx").asUsage
  let op : Option Operator := (field "op").asOperator
  let inOrder : List Node := ((fieldOrder.lookup className).getD []).map node
  let form : Form :=
    match className with
    | "Name" => .name (label "id") usage
    | "Attribute" => .memberOf (node "value") (label "attr") usage
    | "Subscript" => .subscript (node "value") (node "slice") usage
    | "Starred" => .starred (node "value") usage
    | "List" => .list (node "elts") usage
    | "Tuple" => .tuple (node "elts") usage
    | "Constant" => .constant (field "value").asConstant
    | "Set" => .set (node "elts")
    | "Dict" => .dict (node "keys") (node "values")
    | "Slice" => .slice (node "lower") (node "upper") (node "step")
    | "BinOp" => .binOp (node "left") op (node "right")
    | "UnaryOp" => .unaryOp op (node "operand")
    | "BoolOp" => .boolOp op (node "values")
    | "Compare" =>
      .compare (node "left") (field "ops").asOperators (node "comparators")
    | "Call" => .call (node "func") (node "args") (node "keywords")
    | "keyword" => .keyword (label "arg") (node "value")
    | "NamedExpr" => .namedExpr (node "target") (node "value")
    | "IfExp" => .ifExp (node "test") (node "body") (node "orelse")
    | "ListComp" => .listComp (node "elt") (node "generators")
    | "SetComp" => .setComp (node "elt") (node "generators")
    | "DictComp" => .dictComp (node "key") (node "value") (node "generators")
    | "comprehension" => .comprehension (node "target") (node "iter") (node "ifs")
    | "Yield" => .yield (node "value")
    | "YieldFrom" => .yieldFrom (node "value")
    | "Expr" => .expr (node "value")
    | "Expression" => .expression (node "body")
    | "Assign" => .assign (node "targets") (node "value")
    | "AnnAssign" => .annAssign (node "target") (node "annotation") (node "value")
    | "AugAssign" => .augAssign (node "target") op (node "value")
    | "Delete" => .delete (node "targets")
    | "Return" => .ret (node "value")
    | "Raise" => .raise (node "exc") (node "cause")
    | "Assert" => .assert (node "test") (node "msg")
    | "Global" => .global (node "names")
    | "Nonlocal" => .nonlocalStmt (node "names")
    | "Pass" => .pass
    | "Break" => .breakStmt
    | "If" => .ifStmt (node "test") (node "body") (node "orelse")
    | "For" => .forStmt (node "target") (node "iter") (node "body") (node "orelse")
    | "While" => .whileStmt (node "test") (node "body") (node "orelse")
    | "With" => .withStmt (node "items") (node "body")
    | "withitem" => .withItem (node "context_expr") (node "optional_vars")
    | "Try" => .tryStmt inOrder
    | "Import" => .importStmt (node "names")
    | "ImportFrom" => .importFrom (node "names")
    | "ClassDef" => .classDef inOrder
    | "FunctionDef" =>
      .functionDef (label "name") (node "args") (node "body") (node "decorator_list")
        (node "returns")
    | "arguments" =>
      .arguments (node "posonlyargs") (node "args") (node "vararg") (node "kwonlyargs")
        (node "kw_defaults") (node "kwarg") (node "defaults")
    | "arg" => .arg (label "arg") (node "annotation")
    | _ => .other className inOrder
  mk { mark with usage } form

end Node
end Lowering
