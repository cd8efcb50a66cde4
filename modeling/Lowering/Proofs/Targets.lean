import Lowering.Proofs.Usages

/-!
Targets of assignments. A name, a member of an object and an item of a sequence stand for a place, which is known when
the expressions in them have been evaluated. Lowering such a construct evaluates the expressions and then reads the
place, writes it or leaves it, as the construct is used.
-/
namespace Lowering

open Emit

theorem Emit.bind_run_congr {α β : Type} {x : Emit α} {f g : α → Emit β} {s : State}
    (h : ∀ a s', x s = .ok a s' → f a s' = g a s') : (x >>= f) s = (x >>= g) s := by
  cases hx : x s with
  | ok a s' => rw [bind_run_of_ok hx, bind_run_of_ok hx, h a s' hx]
  | error e s' =>
    have hrun : ∀ k : α → Emit β, (x >>= k) s = .error e s' := fun _ => bind_eq_error.2 (.inl hx)
    rw [hrun, hrun]

theorem Emit.bind_run_eq {α β : Type} {x y : Emit α} {f g : α → Emit β} {s : State} (hxy : x s = y s)
    (h : ∀ a s', y s = .ok a s' → f a s' = g a s') : (x >>= f) s = (y >>= g) s := by
  rw [← bind_run_congr h]
  simp only [bind, EStateM.bind, hxy]

theorem Emit.discard_eq {α : Type} (x : Emit α) : discard x = (do let _ ← x; return ()) :=
  map_eq_pure_bind (fun _ => ()) x

namespace Lower

/-- What a target stands for. -/
inductive Reference
  | named (id : Label)
  | member (object : Operand) (attr : Label)
  | item (sequence index : Operand)

namespace Reference

def operands : Reference → List Operand
  | named _ => []
  | member object _ => [object]
  | item sequence index => [sequence, index]

/-- Leaves what is there as the last value. -/
def read : Reference → Emit Unit
  | named id => do
    setLastType (some .python)
    setLastValue (← load (← slotFor id))
  | member object attr => do
    let text ← loadText attr
    setLast ⟨some .python, ← callObjects "PyObject_GetAttr" [object, text]⟩
  | item sequence index => do
    setLastValue (← callObjects "PyObject_GetItem" [sequence, index])
    setLastType (some .python)

def write (value : Operand) : Reference → Emit Unit
  | named id => do discard (store value (← slotFor id))
  | member object attr => setAttribute object attr value
  | item sequence index => do
    setLastValue (← callObjects "PyObject_SetItem" [sequence, index, value])
    setLastType (some .python)

/-- Neither reads nor writes, but what is left may be said to be an object. -/
def pass : Reference → Emit Unit
  | item .. => setLastType (some .python)
  | _ => return ()

/-- What is written is the value that is being assigned. -/
def use (p : Reference) : Option Usage → Emit Unit
  | some .load => p.read
  | some .store => do p.write (← assigned).value
  | _ => p.pass

end Reference

/-- Whether a construct stands for a place. -/
def isPlace (n : Node) : Bool :=
  match n.form with
  | .name .. | .memberOf .. | .subscript .. => true
  | _ => false

/-- The expressions that a place is made of. -/
def bases (n : Node) : List Node :=
  match n.form with
  | .memberOf value _ _ => [value]
  | .subscript value slice _ => [value, slice]
  | _ => []

/-- Evaluates what stands in a target. -/
def evaluate (r : Recur) (n : Node) : Emit Reference :=
  match n.form with
  | .name id _ => return .named id
  | .memberOf value attr _ => do
    resetLast
    let object ← r.term value
    return .member object.value attr
  | .subscript value slice _ => do
    let sequence ← r.term value
    let index ← r.term slice
    return .item sequence.value index.value
  | _ => throw .noMember

theorem assigned_comm {α β : Type} {x : Emit α} [∀ f, Heeds (framed f) x] {f : α → Term → Emit β} {s : State}
    (hs : s.lowerer = .tree) :
    (do let a ← x; let t ← assigned; f a t) s = (do let t ← assigned; let a ← x; f a t) s := by
  refine bind_run_congr fun a s' h => ?_
  change f a s'.tree.assigned s' = f a s.tree.assigned s'
  rw [(tree_of_ok hs h).2]

variable {n : Node}

theorem construct_of_isPlace {r : Recur} {s : State} (hn : isPlace n = true) (hs : s.lowerer = .tree) :
    construct r n s = (do let p ← evaluate r n; p.use (← usageOf n)) s := by
  unfold isPlace at hn
  split at hn
  · next id u hform =>
    rw [construct, evaluate, hform, pure_bind]
    refine bind_run_congr fun usage s' husage => ?_
    have hs' : s'.lowerer = .tree := by
      cases husage
      exact hs
    rcases usage with _ | (_ | _ | _)
    · rfl
    · simp only [Reference.use, Reference.read, slotFor, bind_assoc, pure_bind]
    · simp only [Reference.use, Reference.write, slotFor, bind_assoc, pure_bind]
      exact assigned_comm hs'
    · rfl
  · next value attr u hform =>
    rw [construct, evaluate, hform]
    simp only [memberOf, bind_assoc, pure_bind]
    refine bind_run_congr fun _ s1 _ => bind_run_congr fun object s2 _ => bind_run_congr fun usage s3 _ => ?_
    rcases usage with _ | (_ | _ | _) <;> rfl
  · next value slice u hform =>
    rw [construct, evaluate, hform]
    simp only [subscript, bind_assoc, pure_bind]
    refine bind_run_congr fun sequence s1 _ => bind_run_congr fun index s2 _ => bind_run_congr fun usage s3 _ => ?_
    rcases usage with _ | (_ | _ | _) <;> rfl
  · cases hn

/-- Says which construct is lowered next. -/
def announce (n : Node) : Emit Unit := do
  print n.classText
  modifyTree fun f => { f with current := if n.isAbsent then none else some n }

theorem visit_of_ne_suite (hn : ∀ items, n.form ≠ .suite items) (fuel : Nat) :
    (recur fuel).visit n = (do announce n; lowerWithin fuel n) := by
  change announced (lowerWithin fuel) n = _
  rw [announced, announce, bind_assoc]
  refine bind_congr fun _ => bind_congr fun _ => ?_
  split
  · next items hform => exact absurd hform (hn items)
  · rfl

theorem visit_of_isConstruct (hn : n.isConstruct = true) (fuel : Nat) :
    (recur (fuel + 1)).visit n = (do announce n; construct (recur fuel) n) :=
  visit_of_ne_suite (fun items hform => by simp [Node.isConstruct, hform] at hn) (fuel + 1)

theorem isConstruct_of_isPlace (hn : isPlace n = true) : n.isConstruct = true := by
  unfold isPlace at hn
  split at hn <;> simp_all [Node.isConstruct]

section Regimes

variable {R : Regime}

section Uses

variable [R.Plain] [∀ t, Heeds R (setLast t)] [∀ t, Heeds R (setLastType t)] [∀ v, Heeds R (setLastValue v)]

variable {p : Reference}

instance : Heeds R p.read := by cases p <;> unfold Reference.read <;> infer_instance
instance (v : Operand) : Heeds R (p.write v) := by
  cases p <;> unfold Reference.write <;> infer_instance
instance : Heeds R p.pass := by cases p <;> unfold Reference.pass <;> infer_instance

instance (u : Option Usage) : Heeds R (p.use u) := by
  unfold Reference.use
  split <;> infer_instance

end Uses

variable [R.Computes] [R.Notes]

instance (n : Node) : Heeds R (announce n) := by
  have hcurrent : Heeds R (modifyTree fun f => { f with current := if n.isAbsent then none else some n }) :=
    Regime.Notes.note fun _ => rfl
  unfold announce
  infer_instance

instance (r : Recur) [∀ n, Heeds R (r.visit n)] (n : Node) : Heeds R (evaluate r n) := by
  unfold evaluate
  split <;> infer_instance

instance [R.Basic] (fuel : Nat) (n : Node) : Heeds R ((recur fuel).visit n) :=
  inferInstanceAs (Heeds R (announced (lowerWithin fuel) n))

end Regimes

variable {k : Token}

/-- Evaluates a target and uses what it stands for. -/
@[reducible] def evaluateFor (fuel : Nat) (n : Node) (use : Reference → Emit Unit) : Emit Reference := do
  announce n
  let p ← evaluate (recur fuel) n
  use p
  return p

/-- Evaluating what stands in a target does not change how the target is used. -/
theorem visit_of_isPlace {s : State} {u : Option Usage} (hn : isPlace n = true)
    (hs : s.lowerer = .tree) (hu : usageUnder s.tree.replaced n = u) (fuel : Nat) :
    (recur (fuel + 1)).visit n s = discard (evaluateFor fuel n (·.use u)) s := by
  have hmarked : s.Marked s.tree.replaced := ⟨hs, rfl⟩
  rw [visit_of_isConstruct (isConstruct_of_isPlace hn)]
  rw [discard_eq, evaluateFor]
  simp only [bind_assoc, pure_bind]
  refine bind_run_congr fun _ s1 h1 => ?_
  have hs1 := Preserves.of_ok hmarked h1
  rw [construct_of_isPlace hn hs1.lowerer]
  refine bind_run_congr fun p s2 h2 => ?_
  have husage : usageOf n s2 = .ok u s2 := by
    have hs2 : s2.Marked s.tree.replaced := Preserves.of_ok hs1 h2
    change EStateM.Result.ok (usageUnder s2.tree.replaced n) s2 = _
    rw [hs2.replaced, hu]
  rw [bind_run_of_ok husage]
  exact congrFun (bind_pure (p.use u)).symm s2

end Lower
end Lowering
