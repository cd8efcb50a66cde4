/-!
The steps of a piece of work that are under way, outermost first. Every change of a step is announced
by a line, indented by the steps around it. Main definitions: `interrupt` removes the last step or the
first of a name, and on request those that go with it.
-/
namespace Lowering

inductive StepStatus
  | idle | ongoing | completed | interrupted
  deriving DecidableEq, Repr

def StepStatus.name : StepStatus → String
  | idle => "idle"
  | ongoing => "ongoing"
  | completed => "completed"
  | interrupted => "interrupted"

structure Step where
  name : String
  status : StepStatus := .idle
  id : Nat := 0
  deriving DecidableEq, Repr

/-- The steps after a change, those that went with it, and the lines that announce it. -/
structure Progress where
  steps : List Step
  removed : List Step := []
  lines : List String := []
  deriving DecidableEq, Repr

namespace Progress

def line (depth : Nat) (s : String) : String := String.ofList (List.replicate depth '\t') ++ s

def find? (steps : List Step) (name : String) : Option Step := steps.find? (·.name == name)

def place? (steps : List Step) (name : String) : Option Nat := steps.findIdx? (·.name == name)

def setStatus (steps : List Step) (i : Nat) (status : StepStatus) : List Step :=
  steps.modify i fun s => { s with status }

def startAt (steps : List Step) (i : Nat) : Progress :=
  match steps[i]? with
  | none => { steps }
  | some s =>
    { steps := setStatus steps i .ongoing
      lines := [line (steps.length - 1) ("[START] " ++ s.name ++ "...")] }

def atPlace (change : List Step → Nat → Progress) (steps : List Step) : Option Nat → Progress
  | none => { steps }
  | some i => change steps i

def start (steps : List Step) (name : String) : Progress := atPlace startAt steps (place? steps name)

def add (steps : List Step) (step : Step) (starts : Bool) : Progress :=
  if starts then startAt (steps ++ [step]) steps.length else { steps := steps ++ [step] }

def finish (steps : List Step) : Progress :=
  match steps.getLast? with
  | none => { steps }
  | some s =>
    { steps := steps.dropLast
      removed := [{ s with status := .completed }]
      lines := [line (steps.length - 1) ("[COMPLETE] " ++ s.name)] }

def finishAt (steps : List Step) (i : Nat) : Progress :=
  match steps[i]? with
  | none => { steps }
  | some s =>
    { steps := setStatus steps i .completed
      lines := [line steps.length ("[COMPLETE] " ++ s.name)] }

def finishNamed (steps : List Step) (name : String) : Progress := atPlace finishAt steps (place? steps name)

inductive Place
  | last
  | nth (i : Nat)
  deriving DecidableEq, Repr

namespace Place

/-- The last step, or the one that is found by its name. -/
def asked {m : Type → Type} [Monad m] {α : Type} (find : α → m (Option Nat)) : Option α → m (Option Place)
  | none => return some last
  | some name => return (← find name).map nth

def index (steps : List Step) : Place → Nat
  | last => steps.length - 1
  | nth i => i

def kept : Place → Nat
  | last => 1
  | nth i => i

end Place

def drop (steps : List Step) (i : Nat) (reason : Step → String) : Progress :=
  match steps[i]? with
  | none => { steps }
  | some s =>
    { steps := steps.eraseIdx i
      removed := [{ s with status := .interrupted }]
      lines := [line (steps.length - 1) ("[INTERRUPTED] " ++ s.name ++ " because " ++ reason s)] }

def andThen (first : Progress) (next : List Step → Progress) : Progress :=
  let second := next first.steps
  ⟨second.steps, first.removed ++ second.removed, first.lines ++ second.lines⟩

/-- Removes steps at a place until only those stay that are kept; at most `n` of them. -/
def cascade (place : Place) : Nat → List Step → Progress
  | 0, steps => { steps }
  | n + 1, steps =>
    if place.kept < steps.length then
      (drop steps (place.index steps) fun s => "Step " ++ s.name ++ " was interrupted").andThen
        (cascade place n)
    else { steps }

/-- Interrupts the step at a place, and on request those that go with it. -/
def interruptAt (steps : List Step) (place : Place) (reason : String) (cascades : Bool) : Progress :=
  (drop steps (place.index steps) fun _ => reason).andThen fun rest =>
    if cascades then cascade place rest.length rest else { steps := rest }

def interrupt (steps : List Step) (reason : String) (cascades : Bool) (name : Option String) :
    Progress :=
  if steps.isEmpty then { steps }
  else
    match Id.run (Place.asked (pure <| place? steps ·) name) with
    | none => { steps }
    | some place => interruptAt steps place reason cascades

end Progress
end Lowering
