import Lowering.Session.Arithmetic
import Lowering.Session.Text

/-!
Cursors that show what is placed with them. Such a cursor is armed when an instruction is asked of it;
the first word that goes to a block it has been moved to is then shown, whoever writes it, and at the
end of the instruction its arguments and its result are.
-/
namespace Lowering.Session

def titles : List (Nat × String) :=
  [(1, "add"), (2, "sub"), (3, "mul"), (4, "div"), (5, "eq"), (6, "ne"), (7, "lt"), (8, "lte"),
    (9, "gt"), (10, "gte"), (11, "neg"), (12, "_and"), (13, "_or"), (14, "mod"), (15, "_not"),
    (17, "floor"), (100, "store"), (101, "load"), (150, "br"), (151, "cond_br"), (152, "gep"),
    (153, "gep2"), (170, "call"), (171, "call_ptr"), (1000, "const_int64"), (1001, "const_int32"),
    (1002, "const_int16"), (1003, "const_int8"), (1004, "const_float32"), (1005, "const_float64"),
    (1006, "const_null"), (1007, "const_int1"), (1010, "ptr_cast"), (1011, "int_cast"),
    (1012, "float_cast"), (1013, "int_to_ptr"), (1014, "bit_cast"), (1015, "zext"),
    (1050, "alloca"), (2000, "ret"), (2001, "ret_void"), (2002, "ret_null"), (3000, "global_var"),
    (3001, "global_str"), (3002, "func_ptr"), (9998, "size_of_type"),
    (9999, "size_of_type_ptr_element"), (10000, "print_value_type"), (10001, "debug_op"),
    (10002, "debug_op2")]

/-! ### Lines -/

def printDepth (depth : Value) : Run Unit := do
  match depth.toInt? with
  | some n => print (← repeated "\t" n)
  | none => throw .misuse

def traceLine (s : String) : Run Unit := do
  printDepth (← get).indent
  print (s ++ "\n")

/-! ### Watched blocks -/

private def armedTracers : Run (List (Nat × Tracer)) := do
  let objects := (← get).objects
  return (List.range objects.size).reverse.filterMap fun i =>
    match objects[i]? with
    | some (Object.tracer t) => if t.armed then some (i, t) else none
    | _ => none

def announce (ref : BlockRef) (word : String) : Run Unit := do
  for (i, t) in ← armedTracers do
    if t.watched.contains ref then
      traceLine ("writing " ++ word ++ " (" ++ t.method ++ ")")
      setObject i (.tracer { t with armed := false })

private def opened (s : State) (refs : List BlockRef) : State :=
  refs.foldl (fun s ref =>
    match Emit.modifyBlock ref (fun b => { b with items := #[], locked := false }) s with
    | .ok _ s | .error _ s => s) s

private def addedTo {α : Type} (refs : List BlockRef) (x : Run α) :
    Run (List (BlockRef × List Item)) := do
  let s ← get
  let after := match x { s with state := opened s.state refs } with
    | .ok _ s | .error _ s => s.state
  return refs.map fun ref =>
    let b := (after.program.funcs[ref.func]?.bind (·.blocks[ref.index]?)).getD default
    (ref, b.items.toList)

private def firstWord (items : List Item) : Option Nat :=
  match items with
  | [] => none
  | i :: _ =>
    match i.bytes with
    | a :: b :: c :: d :: _ =>
      some (a.toNat + 256 * (b.toNat + 256 * (c.toNat + 256 * d.toNat)))
    | _ => none

/-- Runs an action; the first word that it writes to a watched block is shown. -/
def perform {α : Type} (x : Emit α) : Run α := do
  let refs := (← armedTracers).flatMap (·.2.watched)
  unless refs.isEmpty do
    for (ref, items) in ← addedTo refs.eraseDups (emit x) do
      match firstWord items with
      | some n => announce ref (toString n)
      | none => pure ()
  emit x

/-! ### Instructions placed with such a cursor -/

private def ofId {α : Type} (make : Nat → Value) (id : α → Int) (entries : Array α) (n : Int) : Value :=
  make ((entries.findIdx? (id · == n)).getD 0)

private def argumentsOf (func : Nat) (i : Instr) : Run (List Value) := do
  let p ← programNow
  let values (xs : List Operand) : Run (List Value) := xs.mapM valueOf
  let list (xs : List Operand) : Run Value := do newList (← values xs)
  let blockAt (n : Nat) : Value := .block ⟨func, (p.funcs[func]?.map (·.dropped)).getD 0 + n⟩
  let float (x : Option Binary64) : Value := .ofOption (fun x => .constant (.float x 0)) x
  match i with
  | .binary _ a b _ | .store a b _ => values [a, b]
  | .unary _ a _ | .load a _ | .int64 a _ | .smallInt _ a _ | .ret a | .printType a => values [a]
  | .member a b c _ => values [a, b, c]
  | .branch n => return [blockAt n]
  | .condBranch a yes no => return [← valueOf a, blockAt yes, blockAt no]
  | .element t base indices _ =>
    let t ← newMachine t
    return [← valueOf base, t, ← list indices]
  | .call id args _ => return [ofId .func (·.id) p.funcs id, ← list args]
  | .callPtr ptr _ args _ => return [← valueOf ptr, ← list args]
  | .float32 x _ | .float64 x _ => return [float x]
  | .null t _ | .alloca t _ | .sizeOf t _ | .sizeOfElement t _ => return [← newMachine t]
  | .cast _ a t _ =>
    let t ← newMachine t
    return [← valueOf a, t]
  | .globalVar id _ => return [ofId .global (·.id) p.globals id]
  | .globalText s _ => return [.ofOption .text s]
  | .funcPtr id _ => return [ofId .func (·.id) p.funcs id]
  | .phi .. | .retVoid | .retNull | .debugOp | .debugOp2 => return []

def traceEnd (args : List Value) (result : Value) : Run Unit := do
  traceLine ("args: " ++ (← shown (.tuple args)))
  traceLine ("result=" ++ (← shown result))
  traceLine (String.ofList (List.replicate 20 '-'))

def arm (i : Nat) (t : Tracer) (title : String) : Run Unit :=
  setObject i (.tracer { t with method := title, armed := true })

/-- Shows an instruction that is placed from within something else. -/
private def traceItem (i : Nat) (ref : BlockRef) (item : Item) : Run Unit := do
  match (← get).objects[i]? with
  | some (.tracer t) =>
    match firstWord [item] with
    | none => return ()
    | some opcode =>
      let title := titles.lookup opcode
      match title with
      | some title => arm i t title
      | none => pure ()
      announce ref (toString opcode)
      match item, title with
      | .instr instr, some _ =>
        let func := ((← programNow).cursors[t.cursor]?.getD default).func
        traceEnd (← argumentsOf func instr) (.ofOption (fun (n : Nat) => .int n) instr.result?)
      | _, _ => return ()
  | _ => return ()

def performTraced {α : Type} (i : Nat) (t : Tracer) (x : Run α) : Run α := do
  let x := atCursor t.cursor x
  match ((← programNow).cursors[t.cursor]?.getD default).block with
  | none => x
  | some ref =>
    for (ref, items) in ← addedTo [ref] x do
      for item in items do traceItem i ref item
    x

end Lowering.Session
