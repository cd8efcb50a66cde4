import Lowering.Lower.Statement

/-!
Lowering of a syntax tree to instructions. A construct without a rule of its own is lowered by
lowering its children.
-/
namespace Lowering.Lower

open Emit

def construct (r : Recur) (n : Node) : Emit Unit :=
  match n.form with
  | .absent | .plain .. | .suite _ => throw .noMember
  | .name id _ => name n id
  | .memberOf value attr _ => memberOf r n value attr
  | .subscript value slice _ => subscript r n value slice
  | .list elts _ => list r elts
  | .tuple elts _ => tuple r elts
  | .constant c => constant c
  | .set elts => set r elts
  | .dict keys values => dict r keys values
  | .slice lower upper step => slice r lower upper step
  | .binOp left op right => binOp r left op right
  | .unaryOp op operand => unaryOp r op operand
  | .boolOp op values => boolOp r op values
  | .compare left ops comparators => compare r left ops comparators
  | .call func args keywords => callExpr r func args keywords
  | .namedExpr target value => namedExpr r target value
  | .ifExp test body orelse => ifExp r test body orelse
  | .listComp elt generators => listComp r n elt generators
  | .setComp elt generators => setComp r n elt generators
  | .dictComp key value generators => dictComp r n key value generators
  | .comprehension target iter _ => generator r target iter
  | .expr value => exprStmt r value
  | .expression body => expression r body
  | .assign targets value => assignStmt r n targets value
  | .annAssign target _ value => annAssign r target value
  | .augAssign target op value => augAssign r n target op value
  | .delete targets => do (← each targets).forM r.visit
  | .ret value => returnStmt r value
  | .raise .. => throw .noMember
  | .assert test _ => assertStmt r test
  | .global names => globalStmt names
  | .nonlocalStmt names => nonlocalStmt names
  | .breakStmt => breakStmt n
  | .ifStmt test body orelse => ifStmt r test body orelse
  | .forStmt target iter body orelse => forStmt r target iter body orelse
  | .whileStmt test body orelse => whileStmt r test body orelse
  | .withStmt items body => withStmt r n items body
  | .functionDef _ _ body _ _ => r.visit body
  | .yield _ | .yieldFrom _ | .importStmt _ | .importFrom _ => throw .unsupported
  | .pass | .tryStmt _ | .classDef _ | .arguments .. | .arg .. => return ()
  | .starred .. | .keyword .. | .withItem .. | .other .. => n.children.forM r.visit

/-- Lowers a node, after saying which it is. The items of a list are lowered one after the other. -/
def announced (lower : Node → Emit Unit) (n : Node) : Emit Unit := do
  print n.classText
  modifyTree fun f => { f with current := if n.isAbsent then none else some n }
  match n.form with
  | .suite items => items.forM lower
  | _ => lower n

def lowerWithin : Nat → Node → Emit Unit
  | 0, _ => return ()
  | fuel + 1, n => construct ⟨announced (lowerWithin fuel)⟩ n

def recur (fuel : Nat) : Recur := ⟨announced (lowerWithin fuel)⟩

def visit (n : Node) : Emit Unit := (recur n.depth).visit n

def visitAll (ns : List Node) : Emit Unit := visit (.group ns)

/-- Lowers an implementation of a function, from its first block to its last. -/
def lowerImpl (i : Nat) : Emit Unit := do
  start i
  let impl ← implOf i
  match impl.parent with
  | some d => visit ((← get).definitions[d]?.getD default).node
  | none => throw .noParentFunction
  let f := (← get).tree
  setBlock f.entry
  branch f.content
  closeBlocks

end Lowering.Lower
