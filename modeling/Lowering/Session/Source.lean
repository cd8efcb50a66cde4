import Lowering.Session.Tables

/-!
Commands on the source and what is known of it: files, definitions and their implementations,
variables in their scopes, and complaints.
-/
namespace Lowering.Session

/-! ### Copies -/

private abbrev Copies := List (Nat × Nat)

def newVariable (v : Variable) : Run Nat := modifyGet fun s =>
  (s.state.vars.size, { s with state := { s.state with vars := s.state.vars.push v } })

private def copyVariable (i : Nat) : Run Nat := do
  let k ← newVariable (← emit (Emit.varAt i))
  for ((owner, aspect), v) in (← get).details do
    if owner = .variable i then setDetail (.variable k) aspect v
  return k

mutual

/-- A copy of a value and of all that is inside it, down to some depth. -/
private def copyWithin : Nat → Copies → Value → Run (Value × Copies)
  | 0, done, v => return (v, done)
  | fuel + 1, done, v => do
    match v with
    | .variable i => return (.variable (← copyVariable i), done)
    | .tuple items =>
      let (items, done) ← copiesWithin fuel done items
      return (.tuple items, done)
    | .dict keys values =>
      let (values, done) ← copiesWithin fuel done values
      return (.dict keys values, done)
    | .object i =>
      let (k, done) ← copyObject fuel done i
      return (.object k, done)
    | v => return (v, done)

private def copiesWithin (fuel : Nat) (done : Copies) : List Value → Run (List Value × Copies)
  | [] => return ([], done)
  | v :: rest => do
    let (v, done) ← copyWithin fuel done v
    let (rest, done) ← copiesWithin fuel done rest
    return (v :: rest, done)

private def copyObject : Nat → Copies → Nat → Run (Nat × Copies)
  | 0, done, i => return (i, done)
  | fuel + 1, done, i => do
    match done.lookup i with
    | some k => return (k, done)
    | none =>
      let o := ((← get).objects[i]?).getD default
      let k := (← get).objects.size
      discard (store o)
      let done := (i, k) :: done
      match o with
      | .list items =>
        let (items, done) ← copiesWithin fuel done items
        setObject k (.list items)
        return (k, done)
      | .type kind id hints =>
        let (hints, done) ← copyObject fuel done hints
        setObject k (.type kind id hints)
        return (k, done)
      | .hint sort parts =>
        let (parts, done) ← copiesWithin fuel done parts
        setObject k (.hint sort parts)
        return (k, done)
      | .member id name type =>
        let (type, done) ← copyWithin fuel done type
        setObject k (.member id name type)
        return (k, done)
      | _ => return (k, done)

end

private def deepCopy (v : Value) : Run Value := do
  return (← copyWithin (2 * (← get).objects.size + 10) [] v).1

private def storedType (v : Value) (classes : List HintClass) : Run Value := do
  let t ← deepCopy v
  for c in classes do discard (removeHints t (.hintClass c))
  return t

/-! ### Variables -/

private def slotOf (v : Value) : Run Slot := do
  match v with
  | .constant .none => return .empty
  | .global i => return .global i
  | v => return .value (← operandOf v)

private def setVariableType (i : Nat) (type : Value) : Run Unit := do
  setAspect (.variable i) .type (← storedType type [.refIncr, .source .data])

def variableMethods (i : Nat) : Commands :=
  let part (a : Aspect) : Command := plainly (variablePart i a)
  let setPart (name : String) (a : Aspect) : Command :=
    command name fun (v : Value) => setAspect (.variable i) a v
  [("slot", plainly (do slotValue (← emit (Emit.varAt i)).slot)), ("scope", part .scope),
    ("type", part .type), ("name", part .name),
    ("setSlot", command "value" fun (v : Value) => (do
      let slot ← slotOf v
      emit (Emit.modifyVariable i fun x => { x with slot }) : Run Unit)),
    ("setScope", setPart "context" .scope), ("setName", setPart "name" .name),
    ("setType", command "type" (setVariableType i)), ("setUsed", setPart "used" .used),
    ("setIsArg", setPart "arg" .isArg), ("setIsGlobal", setPart "global_" .isGlobal),
    ("setInitialized", setPart "init" .initialized), ("setIsModule", setPart "isModule" .isModule),
    ("setOfModule", setPart "belongsToModule" .ofModule)]

private def variablesIn (scope : Nat) : Run (List Nat) := emit (Emit.scopeVars scope)

private def addVariable (scope : Nat) (name type : Value) : Run Value := do
  let n := (← variablesIn scope).length
  let i ← newVariable { id := n, scope := some scope }
  setAspect (.variable i) .name name
  setVariableType i type
  emit (modify fun s => { s with scopes := s.scopes.modify scope (·.push i) })
  return .variable i

def variableNamed (scope : Nat) (name : Value) (p : Nat → Run Bool) : Run Value := do
  for i in ← variablesIn scope do
    if ← equal (← variablePart i .name) name then
      if ← p i then return .variable i
  return .none

private def variableAt (scope : Nat) (i : Value) : Run Value := do
  return .variable (← itemAt (← variablesIn scope) i)

def anyVariable (_ : Nat) : Run Bool := return true

def variableBy (scope : Nat) (key : Value) : Run Value := do
  match key.text? with
  | some _ => variableNamed scope key anyVariable
  | none => variableAt scope key

private def useAll (scope : Nat) : Run Unit := do
  for i in ← variablesIn scope do setAspect (.variable i) .used (.bool true)

def scopeMethods (scope : Nat) : Commands :=
  [("add", command "name type" (addVariable scope)), ("find", command "value" (variableBy scope)),
    ("at", command "id" (variableAt scope)),
    ("named", command "name" fun (name : Value) => variableNamed scope name anyVariable),
    ("used", command "name" fun (name : Value) => variableNamed scope name fun i => (do
      isTruthy (← variablePart i .used) : Run Bool)),
    ("count", command "" (return (← variablesIn scope).length : Run Nat)),
    ("variables", plainly (return listIterator ((← variablesIn scope).map .variable))),
    ("clear", command "" (useAll scope))]

/-! ### Complaints -/

private def reportOf (message line row : Value) : Value :=
  let orMinus (v : Value) : Value := if v.isNone then .int (-1) else v
  .report message (orMinus line) (orMinus row)

private def copied (v : Value) : Run Value := do
  match v with
  | .dict .. | .bytesOf _ | .constant (.frozenset _) => return v
  | .branchesOf ref => newList (← branchValues ref)
  | v =>
    match ← list? v with
    | some items => newList items
    | none => throw .noMember

private def iteratorName (v : Value) : String :=
  match v with
  | .dict .. => "dict_keyiterator"
  | .bytesOf _ => "bytearray_iterator"
  | .constant (.frozenset _) => "set_iterator"
  | _ => "list_iterator"

/-- What can be asked of a list of complaints, by how it is read and replaced. -/
private def reportMethods (read : Run Value) (replace : Value → Run Unit) : Commands :=
  [("add", command "msg line row" fun (message line row : Value) => (do
      match ← list? (← read) with
      | some items => replace (← newList (items ++ [reportOf message line row]))
      | none => throw .noMember : Run Unit)),
    ("replace", command "errors" fun (v : Value) => (do replace (← copied v) : Run Unit)),
    ("at", command "index" fun (i : Value) => (do itemOf (← read) i : Run Value)),
    ("count", command "" (do sizeOf (← read) : Run Nat)),
    ("all", plainly (do copied (← read))),
    ("each", plainly (do
      let v ← read
      return .iterator (iteratorName v) (← itemsOf v))),
    ("isAny", command "" (return (← sizeOf (← read)) > 0 : Run Bool))]

def reportsMethods (i : Nat) (list : Value) : Commands :=
  reportMethods (return list) fun v => setObject i (.reports v)

def compilerReports : Run (List Value) := do
  (List.range (← stateNow).reports.size).mapM fun i => do
    match ← detail? (.report i) .text with
    | some v => return v
    | none => reportAt i

private def replaceReports (v : Value) : Run Unit := do
  let items ← itemsOf v
  emit (modify fun s => { s with reports := items.toArray.map fun _ => default })
  for (v, i) in items.zipIdx do
    dropDetail (.report i) .text
    match v with
    | .report message line row =>
      setAspect (.report i) .message message
      setAspect (.report i) .line line
      setAspect (.report i) .row row
    | v => setDetail (.report i) .text v

/-! ### Implementations -/

private def parentOf (i : Nat) : Run Value := do
  let parent ← implPart i .parent
  if parent.isNone then throw .noParentFunction else return parent

private def modifyImplAt (i : Nat) (f : Impl → Impl) : Run Unit :=
  emit (modify fun s => { s with impls := s.impls.modify i f })

private def addImplArg (i : Nat) (type : Value) : Run Unit := do
  let t ← storedType type [.refIncr]
  let k := (← emit (Emit.implOf i)).args.size
  modifyImplAt i fun m => { m with args := m.args.push .unknown }
  setAspect (.impl i) (.item k) t

private def isConvention (i : Nat) (code : Nat) : Run Bool := do
  equal (← implPart i .convention) (.member .convention code)

/-- The signature of an implementation; the program is asked only if there is one. -/
private def signatureOf (i : Nat) (source : Value) : Run Value := do
  let known : Run Unit := match source with
    | .program => return ()
    | _ => throw .noMember
  if ← isConvention i 3 then
    known
    let t ← newMachine (← build Program.objectPtr)
    newList [t, t, t]
  else if ← isConvention i 2 then
    known
    answer (← build Program.vectorParams)
  else throw .signatureUnknown

private def fullNameOf (i : Nat) : Run String := do
  let ending ←
    if ← isConvention i 3 then pure "@tp@"
    else if ← isConvention i 2 then pure "@vec@"
    else if ← isConvention i 1 then pure "@spec@"
    else throw .suffixUnknown
  match ← nameOf? (← implPart i .parent) with
  | some (.constant (.text name)) => return name ++ ending
  | some _ => throw .misuse
  | none => throw .noMember

private def clearImpl (i : Nat) : Run Unit := do
  match ← parentOf i with
  | .variable v =>
    if ← isTruthy (← variablePart v .isGlobal) then useAll (← emit (Emit.implOf i)).scope
    else
      let scope ← emit Compile.newScope
      modifyImplAt i fun m => { m with scope }
    modifyImplAt i fun m => { m with code := none }
  | _ => throw .noMember

def implMethods (i : Nat) : Commands :=
  let part (a : Aspect) : Command := plainly (implPart i a)
  let setPart (name : String) (a : Aspect) : Command :=
    command name fun (v : Value) => setAspect (.impl i) a v
  [("addArg", command "arg" (addImplArg i)), ("args", plainly (do newList (← implArgs i))),
    ("eachArg", plainly (return listIterator (← implArgs i))),
    ("arg", command "index" fun (n : Value) => (do itemAt (← implArgs i) n : Run Value)),
    ("argCount", command "" (return (← emit (Emit.implOf i)).args.size : Run Nat)),
    ("id", part .id), ("setId", setPart "id_" .id),
    ("code", plainly (return .ofOption .func (← emit (Emit.implOf i)).code)),
    ("scope", plainly (return .scope (← emit (Emit.implOf i)).scope)),
    ("convention", part .convention), ("setConvention", setPart "impl" .convention),
    ("definition", plainly (parentOf i)), ("setDefinition", setPart "parent" .parent),
    ("status", part .status), ("setStatus", setPart "status" .status),
    ("returnType", plainly (newOfKind .python)), ("fullName", command "" (fullNameOf i)),
    ("signature", command "gen" (signatureOf i)), ("clear", command "" (clearImpl i)),
    ("text", plainly (throw .noMember))]

/-! ### Definitions -/

private def definitionAt (i : Nat) : Run Definition :=
  return ((← stateNow).definitions[i]?).getD default

private def implsOf (i : Nat) : Run (List Nat) := return (← definitionAt i).impls.toList

private def implWith (i : Nat) (code : Nat) : Run (Option Nat) := do
  for m in ← implsOf i do
    if identical (← implPart m .convention) (.member .convention code) then return some m
  return none

private def modifyDefinition (i : Nat) (f : Definition → Definition) : Run Unit :=
  emit (modify fun s => { s with definitions := s.definitions.modify i f })

private def addImpl (i : Nat) (v : Value) : Run Unit := do
  match v with
  | .impl m =>
    setAspect (.impl m) .parent (.definition i)
    setAspect (.impl m) .id (.int (← implsOf i).length)
    modifyDefinition i fun d => { d with impls := d.impls.push m }
  | _ => throw .noMember

private def removeImpl (i : Nat) (v : Value) : Run Unit := do
  for (m, k) in (← implsOf i).zipIdx do
    if ← isAmong v [.impl m] then
      modifyDefinition i fun d => { d with impls := (d.impls.toList.eraseIdx k).toArray }
      return ()
  throw .absentItem

private def plainName (i : Nat) : Run String := do
  match (← definitionAt i).node.form with
  | .functionDef name .. => lift name.required
  | _ => throw .noMember

/-- A function without a place in its file has no source of its own. -/
private def sourceOf (i : Nat) : Run Value := do
  match (← definitionAt i).file with
  | some _ => return .none
  | none => throw .noMember

/-- Registers the implementations; without both, no cursor is used. -/
private def register (i : Nat) (cursor : Value) : Run Unit := do
  match ← implWith i 3, ← implWith i 2 with
  | some _, some _ => usingCursor cursor (perform (Entry.registerDefinition i))
  | _, _ =>
    discard (emit (Emit.external "flyable_add_impl" .void [.int8Ptr, .int8Ptr, .int8Ptr]))

def definitionMethods (i : Nat) : Commands :=
  let impls : Run (List Value) := return (← implsOf i).map .impl
  let found (code : Nat) : Command := plainly (return .ofOption .impl (← implWith i code))
  [("id", plainly (definitionId i)),
    ("setId", command "id" fun (v : Value) => setAspect (.definition i) .id v),
    ("name", command "" (emit (Lower.definitionName i))), ("qualifiedName", command "" (plainName i)),
    ("node", plainly (return .node (← definitionAt i).node)),
    ("file", plainly (return .ofOption .file (← definitionAt i).file)),
    ("source", plainly (sourceOf i)),
    ("impl", command "index" fun (n : Value) => (do itemAt (← impls) n : Run Value)),
    ("eachImpl", plainly (return listIterator (← impls))),
    ("implCount", command "" (return (← impls).length : Run Nat)),
    ("firstImpl", plainly (do itemAt (← impls) (.int 0))),
    ("tupleImpl", found 3), ("vectorImpl", found 2), ("addImpl", command "func" (addImpl i)),
    ("removeImpl", command "func" (removeImpl i)),
    ("register", (command "cursor" (register i)).onProgram)]

/-! ### Files -/

private def setFile (file : Nat) (definition : Value) : Run Unit := do
  match definition with
  | .definition d => modifyDefinition d fun d => { d with file := some file }
  | _ => throw .noMember

private def addFunction (file : Nat) (definition : Value) : Run Unit := do
  match definition with
  | .definition d => emit (Compile.addToFile file d)
  | _ => throw .noMember

/-- Nothing can be read, for there are no files but those that were given. -/
private def readFile (path : Value) : Run Unit :=
  match path with
  | .constant (.text s) => if s.toList.contains '\x00' then throw .absentItem else throw .fileMissing
  | .constant (.bytes bs) => if bs.contains 0 then throw .absentItem else throw .fileMissing
  | _ => throw .misuse

/-- Files hold functions only, so that what is about classes fails. -/
def fileMethods (i : Nat) : Commands :=
  let functions : Run (List Value) := do
    return (((← stateNow).files[i]?).getD default).functions.toList.map .definition
  let missing : Run Value := throw .noMember
  [("path", plainly (filePart i .path)), ("text", plainly (filePart i .text)),
    ("qualifiedName", command "" (return "" : Run String)),
    ("addFunction", command "func" (addFunction i)),
    ("function", command "index" fun (n : Value) => (do itemAt (← functions) n : Run Value)),
    ("functionCount", command "" (return (← functions).length : Run Nat)),
    ("functions", plainly (return listIterator (← functions))),
    ("addClass", command "class_" fun (c : Value) => (do setFile i c; missing : Run Value)),
    ("class", command "index" fun (_ : Value) => missing), ("classCount", plainly missing),
    ("findByName", command "name" fun (_ : Value) => missing),
    ("findById", command "id" fun (_ : Value) => missing), ("read", command "path" readFile)]

private def catalogAt (i : Nat) : Run Catalog := return ((← get).catalogs[i]?).getD default

private def setCatalog (i : Nat) (c : Catalog) : Run Unit :=
  modify fun s => { s with catalogs := s.catalogs.modify i fun _ => c }

/-- Lists a file under its path. The compiler sees the files of the first catalog. -/
def addFile (i : Nat) (v : Value) : Run Unit := do
  match v with
  | .file f =>
    let c ← catalogAt i
    let files ← putEntry c.files (← filePart f .path) v
    setCatalog i { c with files }
    if i = 0 then emit (Compile.addFile f)
  | _ => throw .noMember

private def fileNamed (i : Nat) (path : Value) : Run Value := do
  return (← entry? (← catalogAt i).files path).getD .none

private def filesOf (i : Nat) : Run (List Value) := return (← catalogAt i).files.map (·.2)

private def fileBy (i : Nat) (key : Value) : Run Value := do
  match key.text?, key.toInt? with
  | some _, _ => fileNamed i key
  | none, some _ => itemAt (← filesOf i) key
  | none, none => return .none

private def setting (i : Nat) (name : Value) : Run Value := do
  match ← entry? (← catalogAt i).settings name with
  | some v => return v
  | none => throw .noKey

def setSetting (i : Nat) (name value : Value) : Run Unit := do
  let c ← catalogAt i
  setCatalog i { c with settings := ← putEntry c.settings name value }

/-- Catalogs hold files only, so that what is about functions fails. -/
def catalogMethods (i : Nat) : Commands :=
  let missing : Run Value := throw .noMember
  [("addFile", command "file" (addFile i)), ("file", command "index" (fileBy i)),
    ("fileNamed", command "path" (fileNamed i)),
    ("fileCount", command "" (return (← filesOf i).length : Run Nat)),
    ("files", plainly (return .iterator "odict_iterator" (← filesOf i))),
    ("addFunction", command "func" fun (_ : Value) => missing),
    ("function", command "index" fun (_ : Value) => missing), ("functionCount", plainly missing),
    ("setting", command "name" (setting i)), ("setSetting", command "name data" (setSetting i))]

/-! ### Members and parameters -/

/-- A type that is given to a member shares its hints, and both lose those of some classes. -/
def memberMethods (i : Nat) (id name type : Value) : Commands :=
  [("id", plainly (return id)), ("name", plainly (return name)), ("type", plainly (return type)),
    ("setId", command "id" fun (v : Value) => setObject i (.member v name type)),
    ("setName", command "name" fun (v : Value) => setObject i (.member id v type)),
    ("setType", command "sType" fun (v : Value) => (do
      let t ← copyOf v
      setObject i (.member id name t)
      discard (removeHints t (.hintClass (.source .data))) : Run Unit))]

def parameterMethods (name type : Value) : Commands :=
  [("name", plainly (return name)), ("type", plainly (return type))]

/-! ### The compiler -/

private def lowerImpl (v : Value) : Run Unit := do
  match v with
  | .impl i => perform (Compile.lowerOnce i)
  | _ => throw .noMember

def compilerMethods : Commands :=
  [("program", plainly (return .program)), ("data", plainly (return .catalog 0)),
    ("lower", command "funcImpl" lowerImpl)] ++
    reportMethods (do newList (← compilerReports)) replaceReports

private def parameterType : Run Value := do
  match (← get).commonType with
  | some t => return t
  | none =>
    let t ← newOfKind .unknown
    modify fun s => { s with commonType := some t }
    return t

private def newParameter (a : Arguments) : Run Value := do
  let c := (command "name type_" fun (name type : Value) =>
    (return .parameter name type : Run Value)).withDefaults [.text "", ← parameterType]
  c.call a

private def newCatalog : Run Value := modifyGet fun s =>
  (.catalog s.catalogs.size, { s with catalogs := s.catalogs.push {} })

def newMember (name : Value) : Run Value := do
  let type ← newOfKind .unknown
  store (.member (.int (-1)) name type)

def newSources : Commands :=
  [("variable", (command "id" fun (id : Value) => (do
      let i ← newVariable {}
      setAspect (.variable i) .id id
      return .variable i : Run Value)).withDefaults [.int 0]),
    ("scope", plainly (return .scope (← emit Compile.newScope))),
    ("impl", plainly (return .impl (← emit Compile.newImpl))),
    ("file", (command "path txt" fun (path text : Value) => (do
      let i ← emit (Compile.newFile { path := "" })
      setAspect (.file i) .path path
      setAspect (.file i) .text text
      return .file i : Run Value)).withDefaults [.text "", .text ""]),
    ("catalog", plainly newCatalog), ("member", plainly (newMember (.text ""))),
    ("parameter", freely newParameter),
    ("report", (command "message line row" fun (message line row : Value) =>
      (return .report message line row : Run Value)).withDefaults [.text "", .int 0, .int 0]),
    ("reports", plainly (do store (.reports (← newList []))))]

end Lowering.Session
