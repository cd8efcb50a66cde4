import Lowering.Session.Detail
import Lowering.Text.Quoted

/-!
The class and the text of a value. Inside a collection a text stands in quotes, and a thing without a
text of its own is named by its class.
-/
namespace Lowering.Session

/-! ### Classes -/

def hintName : HintClass → String
  | .any => "TypeHint"
  | .constant .value => "TypeHintConstValue"
  | .constant .decimal => "TypeHintConstDec"
  | .constant .integer => "TypeHintConstInt"
  | .constant .boolean => "TypeHintConstBool"
  | .constant .text => "TypeHintConstStr"
  | .canBeNone => "TypeHintCanBeNone"
  | .classPath => "TypeHintPythonType"
  | .constLen => "TypeHintConstLen"
  | .content => "TypeHintCollectionContentHint"
  | .contentRange => "TypeHintCollectionContentRange"
  | .refIncr => "TypeHintRefIncr"
  | .refCount => "TypeHintRefCount"
  | .source .data => "TypeHintDataSource"
  | .source .localVariable => "TypeHintSourceLocalVariable"
  | .source .member => "TypeHintSourceAttribute"
  | .intRange => "TypeHintIntRange"

/-- A class by its name, with the module and the class around it, if any. -/
structure ClassName where
  module : String := ""
  name : String
  outer : String := ""
  /-- Whether its members are listed one by one. -/
  isEnumeration : Bool := false

namespace ClassName

def path (c : ClassName) : String :=
  ".".intercalate ([c.module, c.outer, c.name].filter (!·.isEmpty))

def text (c : ClassName) : String :=
  if c.isEnumeration then "<enum '" ++ c.name ++ "'>" else classText c.path

def instanceText (c : ClassName) : String := "<" ++ c.path ++ " object>"

end ClassName

private def own (module name : String) (outer : String := "") : ClassName :=
  { module := "flyable." ++ module, name, outer }

private def ownEnumeration (module name : String) (outer : String := "") : ClassName :=
  { own module name outer with isEnumeration := true }

private def plainClass (name : String) : ClassName := { name }

private def objectClass : Object → ClassName
  | .list _ => plainClass "list"
  | .type .. => own "data.lang_type" "LangType"
  | .layout _ => own "code_gen.code_type" "CodeType"
  | .hint sort _ => own "data.type_hint" (hintName sort)
  | .writer _ => own "code_gen.code_writer" "CodeWriter"
  | .reports _ => own "data.error_thrower" "ErrorThrower"
  | .member .. => own "data.attribute" "Attribut"
  | .tracer _ => own "debug.code_builder_analyser" "CodeBuilderAnalyser"

private def shortcutName : Emit.Shortcut → String
  | .none => "ShortcutObjCall"
  | .listAppend => "ShortcutListCallAppend"
  | .listGet => "ShortcutListCallGet"
  | .tupleGet => "ShortcutTupleCallGet"

private def lowererClass (s : Session) : ClassName :=
  match s.state.lowerer with
  | .tree => own (if s.secondTree then "parse.parser_visitor_ast_exp" else "parse.parser_visitor_ast")
      "ParserVisitorAst"
  | .stack => own "parse.parser_visitor" "ParserVisitor"
  | .bare => own "parse.parser_visitor" "DuckParserVisitor"

def classOf (v : Value) : Run ClassName := do
  let s ← get
  match v with
  | .constant c => return plainClass c.className
  | .member .primitive _ => return ownEnumeration "code_gen.code_type" "CodePrimitive" "CodeType"
  | .member .linkage _ => return ownEnumeration "code_gen.code_gen" "Linkage"
  | .member .calling _ => return ownEnumeration "code_gen.code_gen" "CallingConv"
  | .member .convention _ => return ownEnumeration "data.lang_func_impl" "FuncImplType"
  | .member .status _ => return ownEnumeration "data.lang_func_impl" "ParseStatus" "LangFuncImpl"
  | .member .operation _ => return ownEnumeration "parse.op" "BinOp"
  | .member .version _ => return ownEnumeration "parse.version" "PythonVersion"
  | .kind _ => return ownEnumeration "data.lang_type" "Type" "LangType"
  | .tuple _ => return plainClass "tuple"
  | .dict .. => return plainClass "dict"
  | .iterator className _ => return plainClass className
  | .object i => return objectClass (s.objects[i]?.getD default)
  | .block _ => return own "code_gen.code_gen" "CodeBlock" "CodeFunc"
  | .func _ => return own "code_gen.code_gen" "CodeFunc"
  | .global _ => return own "code_gen.code_gen" "GlobalVar"
  | .struct _ => return own "code_gen.code_gen" "StructType"
  | .variable _ => return own "parse.variable" "Variable"
  | .scope _ => return own "parse.context" "Context"
  | .impl _ => return own "data.lang_func_impl" "LangFuncImpl"
  | .definition _ => return own "data.lang_func" "LangFunc"
  | .file _ => return own "data.lang_file" "LangFile"
  | .catalog _ => return own "data.comp_data" "CompData"
  | .cursor _ => return own "code_gen.code_builder" "CodeBuilder"
  | .blockWriter _ => return own "code_gen.code_writer" "CodeWriter"
  | .bytesOf _ => return plainClass "bytearray"
  | .branchesOf _ => return plainClass "list"
  | .flag _ => return own "debug.debug_flags" "DebugFlag"
  | .program => return own "code_gen.code_gen" "CodeGen"
  | .lowerer => return lowererClass s
  | .compiler => return own "parse.parser" "Parser"
  | .node n => return { module := "ast", name := n.className }
  | .operator op => return { module := "ast", name := op.className }
  | .hintClass _ | .classNamed _ => return plainClass "type"
  | .test .. => return plainClass "function"
  | .opcode _ => return plainClass "Instruction"
  | .report .. => return own "data.error" "Error"
  | .step _ => return own "tool.utils" "Step"
  | .shortcut c => return own "parse.shortcut" (shortcutName c)
  | .library _ => return own "c_functions.flyable_c_functions" "Fly_CFunction"
  | .builtin .list => return own "parse.build_in" "BuildInList"
  | .builtin .length => return own "parse.build_in" "BuildInLen"
  | .builtin .int => return own "parse.build_in" "BuildInInt"
  | .initializer none => return own "code_gen.const_init" "ConstInitializer"
  | .initializer (some _) => return own "code_gen.const_init" "StringConstInitializer"
  | .counted .. => return own "code_gen.ref_counter" "RefCounter"
  | .parameter .. => return own "data.argument" "Argument"
  | .fault .unsupported => return own "parse.exception.unsupported" "FlyableUnsupported"
  | .fault _ => return plainClass "Exception"
  | .builtinNamed name => return plainClass (builtinClass name)
  | .undecided => return plainClass "NotImplementedType"

/-! ### Texts -/

private def builtinText (name : String) : String :=
  match builtinClass name with
  | "builtin_function_or_method" => "<built-in function " ++ name ++ ">"
  | "method-wrapper" => "<method-wrapper '" ++ name ++ "' of module object>"
  | _ => name

def tupleText : List String → String
  | [x] => "(" ++ x ++ ",)"
  | xs => "(" ++ ", ".intercalate xs ++ ")"

private def constantText (quotes : Bool) : Constant → String
  | .text s => if quotes then Text.quoted s else s
  | .frozenset items =>
    if items.isEmpty then "frozenset()"
    else "frozenset(\x7b" ++ ", ".intercalate (items.map Constant.content) ++ "\x7d)"
  | c => c.content

private def kindText : Value → Run String
  | .kind .unknown => return "Unknown"
  | .kind .integer => return "int"
  | .kind .decimal => return "float"
  | .kind .boolean => return "Bool"
  | .kind .object => return "object"
  | .kind .module => return "module"
  | .kind .python => return "python"
  | .kind .none => return "none"
  | v => do
    discard (keyOf v)
    throw .noKey

def hasClass (hints : List Value) (path : Value) : Run Bool := do
  for h in hints do
    match ← object? h with
    | some (.hint .classPath [p]) => if ← equal p path then return true
    | _ => pure ()
  return false

private def primitiveNames : List String :=
  ["int1", "int8", "int16", "int32", "int64", "float", "double", "void"]

/-- The text of a value, down to some depth; `quotes` says whether it stands inside something. -/
def textWithin : Nat → Bool → Value → Run String
  | 0, _, _ => return "..."
  | fuel + 1, quotes, v => do
    let inside (v : Value) : Run String := textWithin fuel true v
    let plain (v : Value) : Run String := textWithin fuel false v
    let itself : Run String := do return (← classOf v).instanceText
    match v with
    | .constant c => return constantText quotes c
    | .member f n =>
      if quotes then return "<" ++ f.title ++ "." ++ f.nameOf n ++ ": " ++ toString n ++ ">"
      else return toString n
    | .kind k =>
      let place := (kindNames.findIdx? (·.2 == k)).getD 0
      let name := ((kindNames[place]?).map (·.1)).getD ""
      let number := if k = .none then toString place else "(" ++ toString place ++ ",)"
      if quotes then return "<Type." ++ name ++ ": " ++ number ++ ">" else return "Type." ++ name
    | .tuple items => return tupleText (← items.mapM inside)
    | .dict keys values =>
      let entries ← (keys.zip values).mapM fun (k, v) => do
        let key ← inside k
        return key ++ ": " ++ (← inside v)
      return "\x7b" ++ ", ".intercalate entries ++ "\x7d"
    | .branchesOf ref => return "[" ++ ", ".intercalate (← (← branchValues ref).mapM inside) ++ "]"
    | .bytesOf w => return "bytearray(" ++ Constant.bytesText ((← writtenBytes w).getD []) ++ ")"
    | .block ref =>
      let b ← emit (Emit.block ref)
      match ← blockPart ref .label with
      | .constant .none => return b.name
      | label => return b.name ++ "(" ++ (← plain label) ++ ")"
    | .global i =>
      let name ← inside (← globalPart i .name)
      let type ← inside (← globalPart i .type)
      let id ← inside (← globalPart i .id)
      return "GlobalVar(name=" ++ name ++ ", type=" ++ type ++ ", id=" ++ id ++ ")"
    | .impl _ => if quotes then itself else throw .noMember
    | .report message line row =>
      return "Error(message=" ++ (← inside message) ++ ", line=" ++ (← inside line) ++ ", row=" ++
        (← inside row) ++ ")"
    | .step i =>
      let s := ((← get).steps[i]?).getD default
      return "Step(name=" ++ (← inside s.name) ++ ", status='" ++ s.status.name ++ "')"
    | .flag i =>
      let f := (((← get).flags[i]?).getD default).flag
      return "DebugFlag(default_value=" ++ (← inside f.initial) ++ ", value=" ++
        (← inside f.value) ++ ", is_enabled=" ++ (if f.enabled then "True" else "False") ++ ")"
    | .library name =>
      let params := (libraryParams name).map MachineType.text
      return "Fly_CFunction(name=" ++ Text.quoted name ++ ", return_type=void, args_type=[" ++
        ", ".intercalate params ++ "], link=<Linkage.EXTERNAL: 2>)"
    | .hintClass c => return (own "data.type_hint" (hintName c)).text
    | .classNamed name => return (plainClass name).text
    | .fault .unsupported => return if quotes then "FlyableUnsupported()" else ""
    | .fault f =>
      let message := f.message?.getD ""
      return if quotes then "Exception(" ++ Text.quoted message ++ ")" else message
    | .builtinNamed name => return builtinText name
    | .undecided => return "NotImplemented"
    | .object i =>
      match ((← get).objects[i]?).getD default with
      | .list items => return "[" ++ ", ".intercalate (← items.mapM inside) ++ "]"
      | .type kind _ hints =>
        let base ← kindText kind
        let hints ← listAt hints
        let base ←
          if ← hasClass hints (.text "builtins.dict") then pure ("\x7b " ++ base ++ " \x7d")
          else if ← hasClass hints (.text "builtins.list") then pure ("[ " ++ base ++ " ]")
          else if ← hasClass hints (.text "builtins.tuple") then pure ("( " ++ base ++ " )")
          else pure base
        if hints.isEmpty then return base
        let parts ← hints.mapM fun h => do return " " ++ (← plain h) ++ " "
        return base ++ "@hints" ++ String.join parts
      | .layout l =>
        let structText := "struct( " ++ (← plain l.structId) ++ " )"
        let size ← plain l.size
        let arrayText := "array[" ++ size ++ " x " ++ (← plain l.element) ++ "]"
        discard (keyOf l.primitive)
        let names := primitiveNames ++ [structText, "func", arrayText]
        let found := (List.range names.length).find? fun (k : Nat) =>
          match place? l.primitive with
          | some p => p.same (.finite (k : Int) 0)
          | none => false
        match found.bind fun k => names[k]? with
        | some name =>
          return name ++ String.ofList (List.replicate (l.pointers.toInt?.getD 0).toNat '*')
        | none => throw .noKey
      | .hint .content [inner] =>
        if quotes then itself else return "<Collection contentHint " ++ (← plain inner) ++ " >"
      | _ => itself
    | _ => itself

private def textDepth : Run Nat := return (← get).objects.size + 100

def text (v : Value) : Run String := do textWithin (← textDepth) false v

def shown (v : Value) : Run String := do textWithin (← textDepth) true v

end Lowering.Session
