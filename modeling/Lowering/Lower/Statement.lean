import Lowering.Lower.Comprehension

/-!
Lowering of statements.
-/
namespace Lowering.Lower

open Emit

/-- Takes a value for an assignment: it is retained unless it was already. -/
def takeAssigned (t : Term) : Emit Unit := do
  let type ← known t.type
  unless type.isIncremented do retain t.type t.value
  setAssigned ⟨some (type.removeHints .refIncr), t.value⟩

def enterAssign : Emit Unit :=
  modifyTree fun f => { f with assignDepth := f.assignDepth + 1 }

def leaveAssign : Emit Unit :=
  modifyTree fun f => { f with assignDepth := f.assignDepth - 1 }

/-- The places of an assignment: the items of a tuple or list in front, else all targets as one. -/
def assignPlaces (first : Node) : Emit (Option (List Node)) := do
  match first.form with
  | .tuple elts _ | .list elts _ =>
    let places ← each elts
    return if places.length = 1 then none else some places
  | _ => return none

def requireItems (value : Node) : Emit Unit := do
  match value.form with
  | .tuple elts _ | .list elts _ => discard (each elts)
  | _ => return ()

/-- An assignment. Only the first target can hold several places. -/
def assignStmt (r : Recur) (node targets value : Node) : Emit Unit := do
  enterAssign
  let first ← expect (← each targets).head? .outOfRange
  let places ← assignPlaces first
  requireItems value
  let t ← r.term value
  match places with
  | none =>
    setAssigned t
    takeAssigned t
    resetLast
    r.visit targets
  | some places => unpack r places t node
  resetLast
  leaveAssign

def annAssign (r : Recur) (target value : Node) : Emit Unit := do
  enterAssign
  unless value.isAbsent do
    let t ← r.term value
    setAssigned t
    resetLast
    takeAssigned t
    r.visit target
    resetLast
  leaveAssign

/-- An augmented assignment. The written token is first passed over, to get what it is based on,
then read, and at last written. -/
def augAssign (r : Recur) (node target : Node) (op : Option Operator) (value : Node) :
    Emit Unit := do
  let old ← replaced
  let token ← expect (node.findStored? (usageUnder old)) .noMember
  setReplaced (some (token.mark.key, none))
  let base ← r.term target
  setLast base
  setReplaced (some (token.mark.key, some .load))
  let left ← r.term token
  retain left.type left.value
  resetLast
  let right ← r.term value
  let name ← operatorFunction Operator.inPlaceFunction? op
  let result ← callObjects name [left.value, right.value]
  setAssigned ⟨some .python, result⟩
  setLast base
  setReplaced (some (token.mark.key, some .store))
  r.visit token
  setReplaced old
  releaseRetained left.type left.value
  releaseRetained right.type right.value
  let t ← assigned
  retain t.type t.value

def exprStmt (r : Recur) (value : Node) : Emit Unit := do
  resetLast
  let t ← r.term value
  releaseRetained t.type t.value

def expression (r : Recur) (body : Node) : Emit Unit := do
  resetLast
  r.visit body

def breakStmt (node : Node) : Emit Unit := do
  match (← get).tree.exits with
  | exit :: _ => branch exit
  | [] => reportAt "'break' outside a loop" node

/-- A return gives up the variables of the function, then the value as an object. -/
def returnStmt (r : Recur) (value : Node) : Emit Unit := do
  let t ←
    if value.isAbsent then do
      let nothing ← globalVar (← build (Program.known! (·.noneVar)))
      pure ⟨some .python, ← load nothing⟩
    else r.term value
  retain t.type t.value
  releaseVariables
  let t ← box t.value t.type
  ret t.value

def globalStmt (names : Node) : Emit Unit := do
  for name in ← each names do
    let slot ← slotFor name.label
    let value ← globalObject name.label
    discard (store value slot)

def ifStmt (r : Recur) (test body orelse : Node) :
    Emit Unit := do
  let yes ← createBlock
  let rest ← createBlock
  let no ← if orelse.isAbsent then pure rest else createBlock
  let t ← r.term test
  let c ← condition t.type t.value
  condBranch c.value yes no
  setBlock yes
  r.visit body
  branch rest
  unless orelse.isAbsent do
    setBlock no
    r.visit orelse
    branch rest
  setBlock rest

def withExit (exit : BlockRef) (x : Emit Unit) : Emit Unit := do
  modifyTree fun f => { f with exits := exit :: f.exits }
  x
  modifyTree fun f => { f with exits := f.exits.tail }

def loopVariable (target : Node) : Emit Nat :=
  match target.form with
  | .name id _ => variableFor id
  | _ => throw .loopTarget

/-- A loop over an iterator. The target is a name, and what stands inside is lowered on its own. -/
def forStmt (r : Recur) (target iter body orelse : Node) (within : Recur := r) : Emit Unit := do
  let loop ← createBlock
  let inside ← createBlock
  let otherwise ← if orelse.isAbsent then pure none else some <$> createBlock
  let rest ← createBlock
  let source ← r.term iter
  retain source.type source.value
  let v ← loopVariable target
  let iterator ← callMethod "__iter__" source.value source.type .empty .empty
  branch loop
  setBlock loop
  let item ← callMethod "__next__" iterator.value iterator.type .empty .empty
  let zero ← null (← objectPtr)
  let isNull ← eq item.value zero
  condBranch isNull (otherwise.getD rest) inside
  setBlock inside
  discard (store item.value (slotOperand (← varAt v).slot))
  withExit rest (within.visit body)
  branch loop
  match otherwise with
  | some block =>
    setBlock block
    discard clearError
    r.visit orelse
    branch rest
  | none => pure ()
  setBlock rest
  discard clearError

def whileStmt (r : Recur) (test body orelse : Node) (within : Recur := r) : Emit Unit := do
  let head ← createBlock (some "Condition While")
  let inside ← createBlock (some "In While")
  let otherwise ←
    if orelse.isAbsent then pure none else some <$> createBlock (some "Else While")
  let rest ← createBlock (some "After While")
  branch head
  setBlock head
  let t ← r.term test
  let c ← condition t.type t.value
  condBranch c.value inside (otherwise.getD rest)
  setBlock inside
  withExit rest (within.visit body)
  branch head
  match otherwise with
  | some block =>
    setBlock block
    r.visit orelse
    branch rest
  | none => pure ()
  setBlock rest

def bindName (binding : Node) (value : Operand) : Emit (Option Nat) := do
  if binding.isAbsent then return none
  else
    match binding.form with
    | .name id _ =>
      let v ← variableFor id
      discard (store value (slotOperand (← varAt v).slot))
      return some v
    | _ => throw .noMember

/-- A manager is entered and left again. Gives the variable bound to it. -/
def enterManager (node binding : Node) (t : Term) : Emit (Option Nat) := do
  let type ← known t.type
  if type.isObj || type.isPython then
    let v ← bindName binding t.value
    discard (callMethod "__enter__" t.value t.type [t.value] [t.type])
    let nothing ← globalVar (← build (Program.known! (·.noneVar)))
    discard (callMethod "__exit__" t.value t.type [t.value, nothing, nothing, nothing]
      [t.type, some .python, some .python, some .python])
    return v
  else
    let title ← lift type.title
    reportAt ("Type " ++ title ++ " can't be used in a with statement") node
    return none

/-- One manager of a with statement, which is done with before the body. -/
def withItem (r : Recur) (node item : Node) : Emit (Option Nat) := do
  match item.form with
  | .withItem context binding => enterManager node binding (← r.term context)
  | _ => throw .noMember

def nonlocalStmt (names : Node) : Emit Unit := do
  unless (← each names).isEmpty do throw .misuse

def withStmt (r : Recur) (node items body : Node) : Emit Unit := do
  let vars ← (← each items).mapM (withItem r node)
  r.visit body
  for v in vars do
    match v with
    | some v => modifyVariable v fun v => { v with used := false }
    | none => pure ()

/-- An assertion. What it would raise cannot be lowered. -/
def assertStmt (r : Recur) (test : Node) : Emit Unit := do
  let t ← r.term test
  let c ← condition t.type t.value
  let fails ← createBlock
  let rest ← createBlock
  condBranch c.value rest fails
  setBlock fails
  throw .noMember

attribute [reducible] exprStmt globalStmt nonlocalStmt assignStmt annAssign augAssign expression returnStmt ifStmt
  assertStmt

end Lowering.Lower
