import Lowering.Stack.Data
import Lowering.Stack.Flow
import Lowering.Stack.Name

/-!
Lowering of a stack machine's instructions. Each name of an instruction stands for an action on the
operands; a jump target begins a block, and where two ways meet their values are joined.
-/
namespace Lowering.Stack

open Emit

inductive Action
  | skip
  | fail (fault : Fault)
  | plain (act : Emit Unit)
  | withArg (act : Opcode → Emit Unit)

def Action.run : Action → Opcode → Emit Unit
  | skip, _ => return ()
  | fail fault, _ => throw fault
  | plain act, _ => act
  | withArg act, op => act op

def unsupportedNames : List String :=
  ["get_yield_from_iter", "inplace_subscr", "get_awaitable", "get_aiter", "get_anext",
    "end_async_for", "before_async_with", "setup_async_with", "make_function", "setup_with",
    "before_with", "unpack_sequence_adaptive", "unpack_sequence_two_tuple",
    "copy_dict_without_keys", "copy_free_vars", "load_classderef", "yield_value", "yield_from",
    "send", "print_expr", "setup_annotations", "import_star", "import_name", "import_from",
    "prep_reraise_star", "raise_varargs", "with_except_start", "load_assertion_error",
    "load_build_class", "build_string", "match_class", "gen_start", "check_eg_match"]

def binaryFunctions : List (String × String) :=
  [("power", "_PyNumber_PowerNoMod"), ("multiply", "PyNumber_Multiply"),
    ("matrix_multiply", "PyNumber_MatrixMultiply"), ("floor_divide", "PyNumber_FloorDivide"),
    ("true_divide", "PyNumber_TrueDivide"), ("modulo", "PyNumber_Remainder"),
    ("add", "PyNumber_Add"), ("subtract", "PyNumber_Subtract"), ("lshift", "PyNumber_Lshift"),
    ("rshift", "PyNumber_Rshift"), ("and", "PyNumber_And"), ("xor", "PyNumber_Xor"),
    ("or", "PyNumber_Or")]

def inPlaceFunctions : List (String × String) :=
  [("power", "_PyNumber_InPlacePowerNoMod"), ("multiply", "PyNumber_InPlaceMultiply"),
    ("matrix_multiply", "PyNumber_InPlaceMatrixMultiply"),
    ("floor_divide", "PyNumber_InPlaceFloorDivide"), ("true_divide", "PyNumber_InPlaceTrueDivide"),
    ("modulo", "PyNumber_InPlaceRemainder"), ("add", "PyNumber_InPlaceAdd"),
    ("subtract", "PyNumber_InPlaceSubtract"), ("lshift", "PyNumber_InPlaceLshift"),
    ("rshift", "PyNumber_InPlaceRshift"), ("and", "PyNumber_InPlaceAnd"),
    ("xor", "PyNumber_InPlaceXor"), ("or", "PyNumber_InPlaceOr")]

def jumpTests : List (String × JumpTest) :=
  [("if_true", .isTrue), ("if_false", .isFalse), ("if_none", .isNone), ("if_not_none", .notNone)]

def ownActions : List (String × Action) :=
  [("nop", .skip), ("resume", .skip), ("cache", .skip), ("precall", .skip), ("setup_finally", .skip),
    ("extended_arg", .skip), ("have_argument", .skip),
    ("pop_top", .plain (discard pop)), ("pop_except", .plain (discard pop)),
    ("rot_two", .plain rotateTwo), ("rot_three", .plain (rotate 3)), ("rot_four", .plain (rotate 4)),
    ("rot_n", .withArg rotateBy), ("dup_top", .plain dupTop), ("dup_top_two", .plain dupTopTwo),
    ("copy", .withArg copy), ("swap", .withArg swap), ("push_null", .plain pushNull),
    ("unary_positive", .plain (unaryCall "PyNumber_Positive")),
    ("unary_negative", .plain (unaryCall "PyNumber_Negative")),
    ("unary_not", .plain notOperator), ("unary_invert", .plain (unaryCall "PyNumber_Invert")),
    ("get_iter", .plain getIter), ("binary_op", .fail .noKey), ("binary_subscr", .plain getItem),
    ("store_subscr", .plain setItem), ("delete_subscr", .plain deleteItem),
    ("async_gen_wrap", .plain wrapAsync), ("compare_op", .withArg compareOp),
    ("is_op", .withArg isOp), ("contains_op", .withArg containsOp),
    ("kw_names", .withArg keywordNames), ("call", .withArg callOp),
    ("call_function", .withArg callFunction), ("call_function_ex", .fail .misuse),
    ("call_function_kw", .fail .noMember), ("call_method", .withArg callMethodOp),
    ("load_method", .withArg loadMethod), ("pop_block", .fail .noMember),
    ("load_const", .withArg loadConst), ("load_name", .withArg loadName),
    ("store_name", .withArg storeName), ("delete_name", .withArg deleteName),
    ("load_attr", .withArg loadAttr), ("store_attr", .withArg storeAttr),
    ("delete_attr", .withArg deleteAttr), ("load_global", .withArg loadGlobal),
    ("store_global", .withArg storeGlobal), ("delete_global", .withArg deleteGlobal),
    ("load_fast", .withArg loadLocal), ("store_fast", .withArg storeLocal),
    ("delete_fast", .withArg deleteLocal), ("load_closure", .withArg loadLocal),
    ("make_cell", .withArg makeCell), ("load_deref", .withArg loadCell),
    ("store_deref", .withArg storeCell), ("delete_deref", .withArg deleteCell),
    ("unpack_sequence", .withArg unpackSequence),
    ("unpack_sequence_tuple", .withArg (unpackExpected ValueType.isTuple)),
    ("unpack_sequence_list", .withArg (unpackExpected ValueType.isList)),
    ("unpack_ex", .withArg unpackEx), ("build_tuple", .withArg buildTuple),
    ("build_list", .withArg buildList), ("list_extend", .withArg (updateBelow "_PyList_Extend")),
    ("list_to_tuple", .plain listToTuple), ("build_set", .withArg buildSet),
    ("set_update", .withArg (updateBelow "_PySet_Update")), ("build_map", .withArg buildMap),
    ("build_const_key_map", .withArg buildConstKeyMap),
    ("dict_update", .withArg (updateBelow "PyDict_Update")), ("dict_merge", .withArg dictMerge),
    ("set_add", .withArg setAddBelow), ("list_append", .withArg listAppendBelow),
    ("map_add", .withArg mapAddBelow), ("get_len", .plain getLen),
    ("match_mapping", .plain (matchFlag 64)), ("match_sequence", .plain (matchFlag 32)),
    ("match_keys", .plain matchKeys), ("build_slice", .withArg buildSlice),
    ("jump_forward", .withArg (jump .forward)), ("jump_backward", .withArg (jump .backward)),
    ("jump_backward_no_interrupt", .withArg (jump .backward)),
    ("jump_absolute", .withArg (jump .absolute)),
    ("pop_jump_if_true", .withArg (jumpIf .absolute .isTrue)),
    ("pop_jump_if_false", .withArg (jumpIf .absolute .isFalse)),
    ("jump_if_true_or_pop", .withArg (jumpIf .absolute .isTrue)),
    ("jump_if_false_or_pop", .withArg (jumpIf .absolute .isFalse)),
    ("pop_jump_if_none", .withArg (jumpIfFresh .isNone)),
    ("pop_jump_if_not_none", .withArg (jumpIfFresh .notNone)),
    ("jump_if_not_exc_match", .plain pushNull), ("for_iter", .withArg forIter),
    ("return_value", .plain returnValue),
    ("return_generator", .plain (do push ⟨some .python, ← newGenerator⟩)),
    ("reraise", .plain reraise), ("format_value", .withArg formatValue),
    ("push_exc_info", .plain (do pushNull; pushNull)),
    ("check_exc_match", .plain checkExceptionMatch)]

def actions : List (String × Action) :=
  ownActions ++
    binaryFunctions.map (fun (name, f) => ("binary_" ++ name, .plain (binaryCall f))) ++
    inPlaceFunctions.map (fun (name, f) => ("inplace_" ++ name, .plain (binaryCall f))) ++
    jumpTests.map (fun (name, t) => ("pop_jump_forward_" ++ name, .withArg (jumpIf .forward t))) ++
    jumpTests.map (fun (name, t) => ("pop_jump_backward_" ++ name, .withArg (jumpIf .backward t))) ++
    unsupportedNames.map (fun name => (name, .fail .unsupported))

def mentions (s word : String) : Bool := (s.splitOn word).length > 1

def jumpsInto (e op : Opcode) (b : BlockRef) : Emit Bool := do
  let name := e.smallName
  if mentions name "jump" then
    let n ← argument e
    if mentions name "forward" then return (← jumpBy e.offset n) == b
    else if mentions name "backward" then return (← jumpBy e.offset (-n)) == b
    else if n * 2 = op.offset then return (← jumpTo n) == b
    else return false
  else return false

/-- Whether control falls from an instruction to the next one, by the name of the first. -/
def fallsThrough (e : Opcode) : Bool :=
  !(mentions e.smallName "jump" || mentions e.smallName "return")

def isChoice (e : Opcode) : Bool := mentions e.smallName "jump" && mentions e.smallName "if"

/-- How many ways lead from the instruction `e` at place `k` to the jump target `op` at place `i`: its
jump and, if it is a conditional one, its other way. At the target itself the way from the instruction
before it counts. -/
def waysFrom (instrs : List Opcode) (i : Nat) (op : Opcode) (b : BlockRef) (e : Opcode) (k : Nat) :
    Emit Nat := do
  if k ≠ i then
    let jumps ← jumpsInto e op b
    return jumps.toNat + (isChoice e && instrs[k + 1]? == some op).toNat
  else return (k > 0 && instrs[k - 1]?.any fallsThrough).toNat

def waysInto (i : Nat) (op : Opcode) (b : BlockRef) : Emit Nat := do
  let instrs := (← frame).instrs
  let mut count := 0
  for (e, k) in instrs.zipIdx do
    count := count + (← waysFrom instrs i op b e k)
  return count

def currentFunc : Emit Nat := do
  match (← implOf (← currentImpl)).code with
  | some f => return f
  | none => throw .noMember

/-- The operands that were kept for a jump target become the operands, unless several ways meet. -/
def switchOperands (ways : Nat) (op : Opcode) (b : BlockRef) : Emit Unit := do
  match (← frame).stackAt.lookup b with
  | some s =>
    if ways < 2 then
      setOperands s
      print ("stack switch " ++ op.name ++ " " ++ toString s.length)
  | none => pure ()

def fallInto (b : BlockRef) : Emit Unit := do
  if (← hereBlock?) ≠ some b then
    branch b
    setBlock b

def sourcesOf (b : BlockRef) : Emit (List BlockRef) := do
  let f ← currentFunc
  return ((← get).program.funcs[f]?.getD default).predecessors f b

/-- Where several ways meet, one value is made of those that come from them. -/
def joinOperands (ways : Nat) (b : BlockRef) : Emit Unit := do
  if ways ≥ 2 && (← operands).length ≥ 2 then
    let values := (← popMany ways).map (·.value)
    let sources ← sourcesOf b
    pushObject (← phi (← objectPtr) values sources)

def enterTarget (i : Nat) (op : Opcode) (b : BlockRef) : Emit Unit := do
  let ways ← waysInto i op b
  switchOperands ways op b
  fallInto b
  joinOperands ways b

/-- Complains about an instruction on a line that an entry for exceptions covers. -/
def refuseCovered (op : Opcode) : Emit Unit := do
  match op.line with
  | some line =>
    if (← frame).exceptions.any fun e => line ≤ e.start && e.stop ≤ line then throw .noMember
  | none => return ()

def enterAt (i : Nat) (op : Opcode) : Emit Unit := do
  match ← blockAt? op with
  | some b => enterTarget i op b
  | none => return ()

def perform (op : Opcode) : Emit Unit :=
  match actions.lookup op.smallName with
  | some action => action.run op
  | none => throw (.opcodeUnknown op.name)

def lowerInstr (i : Nat) (op : Opcode) : Emit Unit := do
  modifyFrame fun f => { f with current := some i }
  refuseCovered op
  enterAt i op
  perform op

def start (i : Nat) : Emit Unit := do
  let impl ← implOf i
  modify fun s => { s with lowerer := .stack, stack := { impl := i, scope := impl.scope } }
  let (entry, content) ← Lower.openFunction i
  let cursor := (← get).cursor
  modifyFrame fun f => { f with entry, content, cursor }

/-- Binds the parameters to the places where a caller puts the arguments. -/
def bindParameters : Emit Unit := do
  let impl ← implOf (← currentImpl)
  match impl.parent with
  | some d => Lower.bindArguments impl.convention (← Lower.parameters d)
  | none => throw .noMember

structure Code where
  instrs : List Opcode
  constants : List Constant
  names : List String
  localNames : List String
  exceptions : List ExceptionEntry

def takeTables (code : Code) : Emit Unit := do
  modifyFrame fun f => { f with
    constants := code.constants
    names := code.names
    localNames := code.localNames
    exceptions := code.exceptions }
  for c in code.constants do
    let value ← constantValue c
    modifyFrame fun f => { f with constantValues := f.constantValues ++ [value] }

def takeInstrs (instrs : List Opcode) : Emit Unit := do
  for op in instrs do
    modifyFrame fun f => { f with instrs := f.instrs ++ [op] }
    if op.isTarget then
      let b ← createBlock (some ("Instr:" ++ op.name))
      setBlockAt op b

def lowerImpl (i : Nat) (code : Code) : Emit Unit := do
  start i
  takeTables code
  takeInstrs code.instrs
  bindParameters
  for (op, k) in code.instrs.zipIdx do
    lowerInstr k op
  let f ← frame
  setBlock f.entry
  branch f.content
  Lower.closeBlocks

attribute [reducible] waysFrom enterTarget jumpsInto waysInto fallInto takeTables takeInstrs lowerInstr

end Lowering.Stack
