import Lowering.Entry
import Lowering.Program.Setup
import Lowering.Program.Stream

/-!
The compiler as a whole: the functions of the source files, each in its two implementations, then the
entry point and the stream.
-/
namespace Lowering.Compile

open Emit

def newScope : Emit Nat :=
  modifyGet fun s => (s.scopes.size, { s with scopes := s.scopes.push #[] })

def newImpl : Emit Nat := do
  let scope ← newScope
  modifyGet fun s => (s.impls.size, { s with impls := s.impls.push { scope } })

def newDefinition (node : Node) : Emit Nat := do
  let byTuple ← newImpl
  let byVector ← newImpl
  modifyGet fun s =>
    let i := s.definitions.size
    (i, { s with
      impls := (s.impls.modify byTuple fun m =>
          { m with parent := some i, convention := .tuple }).modify byVector fun m =>
          { m with parent := some i, convention := .vector }
      definitions := s.definitions.push { node, impls := #[byTuple, byVector] } })

def newFile (file : SourceFile) : Emit Nat :=
  modifyGet fun s => (s.files.size, { s with files := s.files.push file })

def addFile (i : Nat) : Emit Unit :=
  modify fun s => { s with
    fileTable := Program.list s.fileTable (s.files[i]?.getD default).path i }

def addToFile (file definition : Nat) : Emit Unit :=
  modify fun s => { s with
    definitions := s.definitions.modify definition fun d => { d with file := some file }
    files := s.files.modify file fun f => { f with functions := f.functions.push definition } }

def enterFunction (path : String) (function : Node) (convention : Convention) : Emit Nat := do
  let file ← newFile { path }
  addFile file
  let d ← newDefinition function
  addToFile file d
  let impls := ((← get).definitions[d]?.getD default).impls
  return (impls[if convention = .vector then 1 else 0]?).getD 0

def variableNames (s : State) (d : Definition) : List String :=
  let impl := (d.impls[0]?.bind fun i => s.impls[i]?).getD default
  (s.scopes[impl.scope]?.getD #[]).toList.map fun v => (s.vars[v]?.getD default).name

/-- Runs an action and puts the frame of the current lowering back afterwards. -/
def keepFrame (x : Emit Unit) : Emit Unit := do
  let s ← get
  let lowerer := s.lowerer
  let cursor := s.cursor
  let tree := s.tree
  restoring (fun s => { s with lowerer, cursor, tree }) x

def lowerOnce (i : Nat) : Emit Unit := do
  if (← implOf i).status = 0 then
    modify fun s => { s with impls := s.impls.modify i fun m => { m with status := 1 } }
    keepFrame (Lower.lowerImpl i)

def compileFile (file : Nat) : Emit Unit := do
  match ((← get).files[file]?.getD default).tree with
  | none => return ()
  | some tree =>
    for node in tree.functions do
      let d ← newDefinition node
      addToFile file d
      for impl in ((← get).definitions[d]?.getD default).impls do
        lowerOnce impl

def reportText (r : Report) : String :=
  r.message ++ " [" ++ toString r.line ++ ", " ++ toString r.row ++ "]"

/-- Compiles the listed files. With complaints about the source there is no stream. -/
def run : Emit (Option Bytes) := do
  for (_, file) in (← get).fileTable do
    compileFile file
  let reports := (← get).reports
  for r in reports do
    print (reportText r)
  if reports.isEmpty then
    Entry.emitMain
    return some (← lift ((← get).program.stream 0))
  else return none

def load (files : List SourceFile) : Emit Unit := do
  for file in files do
    addFile (← newFile file)

def compile (files : List SourceFile) : Emit (Option Bytes) := do
  load files
  run

def qualifiedName (path : String) (name : Label) : String :=
  let dotted := path.toList.map fun c => if c = '/' then '.' else c
  String.ofList (dotted.drop 1) ++ "." ++ name.shown

def ready : State :=
  match build Program.setup {} with
  | .ok _ s | .error _ s => s

end Lowering.Compile
