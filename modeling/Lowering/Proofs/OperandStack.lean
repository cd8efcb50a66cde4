import Mathlib.Data.List.Induction
import Lowering.Proofs.Emission
import Lowering.Stack.Data
import Lowering.Stack.Flow

/-!
Operands taken from the stack. An emission does not look at the operands, so an instruction that takes its
operands while it emits code is the same as one that is given them beforehand.
-/
namespace Lowering

def State.withFrame (s : State) (frame : StackFrame) : State := { s with stack := frame }

def State.withOperands (s : State) (ts : List Term) : State := s.withFrame { s.stack with stack := ts }

namespace Stack

open Emit

set_option synthInstance.maxSize 10000000000000000000

variable {α β γ : Type} {s s' : State} {ts us : List Term}

/-- What an action comes to. Of a failure only the fault is told. -/
def outcome : EStateM.Result Fault State α → Except Fault (α × State)
  | .ok a s => .ok (a, s)
  | .error e _ => .error e

theorem outcome_eq_ok {r : EStateM.Result Fault State α} {a : α} : outcome r = .ok (a, s) ↔ r = .ok a s := by
  cases r <;> simp [outcome]

/-- Of the frame of the stack machine the action reads the entry block only, and it changes nothing there. -/
class Ignores (x : Emit α) : Prop where
  run (s : State) (frame : StackFrame) (hentry : frame.entry = s.stack.entry) :
    x (s.withFrame frame) = restoring (·.withFrame frame) x s

section Rules

variable {x : Emit α} {f g : α → Emit β}

theorem Ignores.frame_eq [hx : Ignores x] {a : α} (h : x s = .ok a s') : s'.stack = s.stack := by
  have hrun : x s = restoring (·.withFrame s.stack) x s := hx.run s s.stack rfl
  rw [restoring, h] at hrun
  have hsame := (EStateM.Result.ok.inj hrun).2
  rw [hsame]
  rfl

theorem Ignores.ok [hx : Ignores x] {a : α} {frame : StackFrame} (hentry : frame.entry = s.stack.entry)
    (h : x s = .ok a s') : x (s.withFrame frame) = .ok a (s'.withFrame frame) := by
  rw [hx.run s frame hentry, restoring, h]

theorem Ignores.error [hx : Ignores x] {e : Fault} {frame : StackFrame} (hentry : frame.entry = s.stack.entry)
    (h : x s = .error e s') : x (s.withFrame frame) = .error e (s'.withFrame frame) := by
  rw [hx.run s frame hentry, restoring, h]

instance (a : α) : Ignores (pure a : Emit α) := ⟨fun _ _ _ => rfl⟩
instance (e : Fault) : Ignores (throw e : Emit α) := ⟨fun _ _ _ => rfl⟩

instance (x : Emit α) (f : α → Emit β) [Ignores x] [hf : ∀ a, Ignores (f a)] : Ignores (x >>= f) where
  run s frame hentry := by
    cases h : x s with
    | ok a s1 =>
      have hentry1 : frame.entry = s1.stack.entry := by rw [hentry, Ignores.frame_eq h]
      rw [bind_run_of_ok (Ignores.ok hentry h), (hf a).run s1 frame hentry1, restoring, restoring, bind_run_of_ok h]
    | error e s1 => rw [restoring, bind_eq_error.2 (.inl h), bind_eq_error.2 (.inl (Ignores.error hentry h))]

theorem Ignores.bind (hx : Ignores x) (hf : ∀ a, Ignores (f a)) : Ignores (x >>= f) := inferInstance

instance (x : Emit α) [Ignores x] : Ignores (discard x) := inferInstanceAs (Ignores (x >>= fun _ => pure PUnit.unit))

instance (p : Prop) [Decidable p] (x y : Emit α) [Ignores x] [Ignores y] : Ignores (if p then x else y) := by
  split <;> infer_instance

theorem Ignores.get_bind {f : State → Emit β} (hf : ∀ s, Ignores (f s))
    (h : ∀ s frame, frame.entry = s.stack.entry → f (s.withFrame frame) = f s) : Ignores (get >>= f) where
  run s frame hentry := by
    rw [restoring, get_bind_run, get_bind_run, h s frame hentry, (hf s).run s frame hentry, restoring]

instance (xs : List γ) (b : β) (f : γ → β → Emit (ForInStep β)) [hf : ∀ a b, Ignores (f a b)] :
    Ignores (forIn xs b f) := by
  induction xs generalizing b with
  | nil => exact inferInstanceAs (Ignores (pure b))
  | cons a xs ih =>
    rw [List.forIn_cons]
    have : ∀ step : ForInStep β, Ignores (match step with
        | .done b => pure b
        | .yield b => forIn xs b f : Emit β) := by
      rintro (b | b)
      · exact inferInstanceAs (Ignores (pure b))
      · exact ih b
    infer_instance

theorem Ignores.withOperands [Ignores x] {a : α} (h : x s = .ok a s') (ts : List Term) :
    x (s.withOperands ts) = .ok a (s'.withOperands ts) := by
  have hframe : s'.withOperands ts = s'.withFrame { s.stack with stack := ts } := by
    rw [← Ignores.frame_eq h]
    rfl
  rw [hframe]
  exact Ignores.ok rfl h

/-- After an action that does not look at the operands, it does not matter that others were there. -/
theorem Ignores.bind_congr [Ignores x]
    (h : ∀ a (s : State), outcome (f a (s.withOperands ts)) = outcome (g a (s.withOperands us))) :
    outcome ((x >>= f) (s.withOperands ts)) = outcome ((x >>= g) (s.withOperands us)) := by
  cases hx : x s with
  | ok a s1 =>
    rw [bind_run_of_ok (Ignores.withOperands hx ts), bind_run_of_ok (Ignores.withOperands hx us), h a s1]
  | error e s1 =>
    have herror : ∀ ts, x (s.withOperands ts) = .error e _ := fun _ => Ignores.error rfl hx
    rw [bind_eq_error.2 (.inl (herror ts)), bind_eq_error.2 (.inl (herror us))]
    rfl

end Rules

section Emissions

instance : Ignores here := ⟨fun _ _ _ => rfl⟩
variable {r : BlockRef}

instance : Ignores (block r) := ⟨fun _ _ _ => rfl⟩
instance (f : Block → Block) : Ignores (modifyBlock r f) := ⟨fun _ _ _ => rfl⟩
instance (i : Nat) (f : Func → Func) : Ignores (modifyFunc i f) := ⟨fun _ _ _ => rfl⟩
instance (r : Option BlockRef) : Ignores (moveTo r) := ⟨fun _ _ _ => rfl⟩
instance : Ignores (setBlock r) := ⟨fun _ _ _ => rfl⟩
instance : Ignores (blockId r) := ⟨fun _ _ _ => rfl⟩
instance : Ignores hereBlock? := ⟨fun _ _ _ => rfl⟩

instance : Ignores hereBlock := by
  refine .bind inferInstance fun c => ?_
  split <;> infer_instance

instance (x : Build α) : Ignores (build x) where
  run s frame _ := by
    simp only [build, restoring, State.withFrame]
    cases x s.program <;> rfl

instance (push : Block → Block × Option Fault) : Ignores (Emit.write push) := by
  refine .bind inferInstance fun r => .bind inferInstance fun b => .bind inferInstance fun _ => ?_
  split <;> infer_instance

instance (mk : Nat → Instr) : Ignores (assign mk) := by
  refine .bind inferInstance fun _ => .bind inferInstance fun c => .get_bind (fun s => ?_) fun _ _ _ => rfl
  split <;> infer_instance

instance (i : Nat) : Ignores (funcId i) := by
  refine .get_bind (fun s => ?_) fun _ _ _ => rfl
  split <;> infer_instance

instance (f : Nat) (args : List Operand) : Ignores (call f args) := by unfold call; infer_instance
instance (label : Option String) : Ignores (createBlock label) :=
  .bind inferInstance fun _ => .get_bind inferInstance fun _ _ _ => rfl

instance (i : Nat) : Ignores (globalVar i) := by unfold globalVar; infer_instance

instance : Ignores branchSource := by
  refine .bind inferInstance fun c => ?_
  split <;> infer_instance

instance : Ignores (branch r) := by
  refine .bind inferInstance fun source => .get_bind (fun s => ?_) fun _ _ _ => rfl
  split <;> infer_instance

instance (c : Operand) (yes no : BlockRef) : Ignores (condBranch c yes no) := by unfold condBranch; infer_instance

instance : Ignores entryBlock := by
  refine .get_bind (fun s => ?_) fun s frame hentry => ?_
  · cases s.lowerer <;> infer_instance
  · simp only [State.withFrame, hentry]

variable (a b c : Operand) (t : Option ValueType) (type : MachineType)

instance (n : Int) : Ignores (int64 n) := inferInstanceAs (Ignores (assign _))
instance (n : Int) : Ignores (int32 n) := inferInstanceAs (Ignores (assign _))
instance : Ignores (null type) := inferInstanceAs (Ignores (assign _))
instance : Ignores (alloca type) := inferInstanceAs (Ignores (assign _))
instance : Ignores (store a b) := inferInstanceAs (Ignores (assign _))
instance : Ignores (load a) := inferInstanceAs (Ignores (assign _))
instance : Ignores (member a b c) := inferInstanceAs (Ignores (assign _))
instance (indices : List Operand) : Ignores (element a type indices) := inferInstanceAs (Ignores (assign _))
instance (sort : Cast) : Ignores (Emit.cast sort a type) := inferInstanceAs (Ignores (assign _))
instance (op : Binary) : Ignores (binary op a b) := inferInstanceAs (Ignores (assign _))
instance : Ignores (add a b) := inferInstanceAs (Ignores (binary _ a b))
instance (args : List Operand) : Ignores (callPtr a args) := inferInstanceAs (Ignores (assign _))
instance : Ignores objectPtr := inferInstanceAs (Ignores (build _))
instance (name : String) (types : List MachineType) : Ignores (external name type types) :=
  inferInstanceAs (Ignores (build _))

instance (nulled : Bool) : Ignores (entryVar type nulled) := by
  refine .bind inferInstance fun entry => .bind inferInstance fun back => .bind inferInstance fun _ => ?_
  refine .bind inferInstance fun address => ?_
  cases nulled <;> exact .bind inferInstance inferInstance

instance : Ignores (known t) := by
  unfold known
  cases t <;> infer_instance

instance (x : Except Fault α) : Ignores (lift x) := by
  unfold lift
  cases x <;> infer_instance

instance : Ignores requireFunction := by
  refine .get_bind (fun s => ?_) fun _ _ _ => rfl
  split <;> infer_instance

instance (n : Nat) : Ignores (slotPtr a n) := by unfold slotPtr; infer_instance
instance : Ignores (typePtr a) := inferInstanceAs (Ignores (slotPtr a 1))
instance : Ignores (typeOf a) := by unfold typeOf; infer_instance
instance (n : Nat) : Ignores (memberOf a type n) := by unfold memberOf; infer_instance

instance : Ignores (countPtr t a) := by
  unfold countPtr
  cases t with
  | none => infer_instance
  | some t => dsimp only; split <;> infer_instance

instance : Ignores (retain t a) := by
  refine .bind inferInstance fun ptr => ?_
  split <;> infer_instance

instance : Ignores (setCount a b) := by
  refine .bind inferInstance fun ptr => ?_
  split <;> infer_instance

instance (n : Int) : Ignores (offset a n) := by
  unfold offset
  split <;> infer_instance

instance (sort : ConstantSort) (name : String) (t : ValueType) : Ignores (boxNumber sort name type t a) := by
  unfold boxNumber
  split <;> infer_instance

instance : Ignores (box a t) := by unfold box; infer_instance

variable (args : Batch Operand) (keywords : Keywords)

instance : Ignores (callByVector a b args keywords c) := by unfold callByVector; infer_instance
instance : Ignores (callByTuple a args keywords) := by unfold callByTuple; infer_instance
instance : Ignores (callCallable a b args keywords) := by unfold callCallable; infer_instance

end Emissions

section Items

theorem operands_run : operands (s.withOperands ts) = .ok ts (s.withOperands ts) := rfl

theorem setOperands_run : setOperands us (s.withOperands ts) = .ok () (s.withOperands us) := rfl

theorem pop_run (t : Term) : pop (s.withOperands (t :: ts)) = .ok t (s.withOperands ts) := rfl

/-- Stores items at their places in a row, the last one first; the first has the place `d`. -/
def storeItems (fill : Operand → Operand → Emit Unit) (d : Nat) (items : List Term) : Emit Unit := do
  for (t, i) in (items.zipIdx d).reverse do
    let index ← int64 i
    fill index t.value

/-- A new collection of `n` items, of which these are the last. -/
def collected (new : Operand → Emit Operand) (fill : Operand → Operand → Operand → Emit Unit) (n : Nat)
    (items : List Term) : Emit Operand := do
  let size ← int64 n
  let v ← new size
  storeItems (fill v) (n - items.length) items
  return v

variable {fill : Operand → Operand → Emit Unit} [∀ i v, Ignores (fill i v)]

variable {items : List Term}

instance (d : Nat) : Ignores (storeItems fill d items) := by unfold storeItems; infer_instance

/-- Items that a loop takes from the stack one by one could have been taken before it. -/
theorem outcome_takeItems {n k d : Nat} (hn : k + items.length + d = n) (f : Emit β) :
    outcome ((forIn (List.range' k items.length) PUnit.unit (fun k _ => do
        let t ← pop
        let index ← int64 (n - 1 - k : Nat)
        fill index t.value
        pure (ForInStep.yield PUnit.unit)) >>= fun _ => f) (s.withOperands (items.reverse ++ ts))) =
      outcome ((storeItems fill d items >>= fun _ => f) (s.withOperands ts)) := by
  induction items using List.reverseRecOn generalizing k s with
  | nil => rfl
  | append_singleton items t ih =>
    rw [List.length_append, List.length_singleton] at hn ⊢
    have hplace : n - 1 - k = d + items.length := by omega
    simp only [storeItems, List.zipIdx_append, List.zipIdx_singleton, List.reverse_append, List.reverse_singleton,
      List.cons_append, List.range'_succ, List.forIn_cons, bind_assoc, pure_bind, hplace] at ih ⊢
    rw [bind_run_of_ok (pop_run ..)]
    refine Ignores.bind_congr fun index s => Ignores.bind_congr fun _ s => ?_
    exact ih (by omega)

theorem outcome_fillFromTop (f : Emit β) :
    outcome ((fillFromTop items.length fill >>= fun _ => f) (s.withOperands (items.reverse ++ ts))) =
      outcome ((storeItems fill 0 items >>= fun _ => f) (s.withOperands ts)) := by
  have hroom : min items.length (items.reverse ++ ts).length = items.length := by simp
  rw [← outcome_takeItems (k := 0) (n := items.length) (by omega)]
  rw [fillFromTop, bind_assoc, bind_run_of_ok (operands_run ..)]
  simp only [hroom, bind_assoc, Nat.lt_irrefl, if_false, pure_bind, List.range_eq_range']

theorem outcome_fillFromTop_short {n : Nat} (hn : items.length < n) (f : Emit β) :
    outcome ((fillFromTop n fill >>= fun _ => f) (s.withOperands items.reverse)) =
      outcome ((storeItems fill (n - items.length) items >>= fun _ => throw .outOfRange) (s.withOperands [])) := by
  have hroom : min n items.reverse.length = items.length := by
    rw [List.length_reverse]
    omega
  rw [← outcome_takeItems (k := 0) (n := n) (by omega), List.append_nil]
  rw [fillFromTop, bind_assoc, bind_run_of_ok (operands_run ..)]
  simp only [hroom, bind_assoc, hn, if_true, List.range_eq_range']
  rfl

end Items

section Instructions

def listFill (list index item : Operand) : Emit Unit := do
  let place ← listItemPtr (some .python) list index
  discard (store item place)

@[reducible] def dictOf (pairs : List (Term × Term)) : Emit Operand := do
  let dict ← newDict
  for (key, value) in pairs do
    let k ← box key.value key.type
    let v ← box value.value value.type
    discard (dictSet dict k.value v.value)
  return dict

/-- A new dictionary with these values, each under the item of the tuple that has its place. -/
@[reducible] def dictByKeys (keys : Term) (values : List Term) : Emit Operand := do
  let dict ← newDict
  for (value, i) in values.zipIdx do
    let v ← box value.value value.type
    let index ← int64 i
    let key ← load (← tupleItemPtr keys.value index)
    discard (dictSet dict key v.value)
  return dict

/-- The call of the method `second` of `first` or, if the former is null, of the function `first`. -/
@[reducible] def callOf (first second : Term) (args : List Operand) : Emit Operand := do
  let slot ← entryVar (← objectPtr)
  let method ← createBlock
  let function ← createBlock
  let rest ← createBlock
  let nothing ← null (← objectPtr)
  let isMethod ← ne second.value nothing
  condBranch isMethod method function
  setBlock method
  retain first.type first.value
  retain second.type second.value
  let result ← callCallable first.value second.value (first.value :: args) .none
  discard (store result slot)
  branch rest
  setBlock function
  retain first.type first.value
  let result ← callCallable first.value first.value args .none
  discard (store result slot)
  branch rest
  setBlock rest
  load slot

/-- The instruction takes its operands off the stack, does as if it had been given them, and puts one value on
what was below them. -/
structure Builds (act : Emit Unit) (made : Emit Operand) (s : State) (below : List Term) : Prop where
  run : outcome (act s) = outcome ((made >>= pushObject) (s.withOperands below))
  left : ∀ s', act s = .ok () s' → ∃ v, s'.stack = { s.stack with stack := ⟨some .python, v⟩ :: below }

/-- For want of operands the instruction fails, after what it does before it takes them. -/
def Lacks (act : Emit Unit) (before : Emit α) (s : State) : Prop :=
  outcome (act s) = outcome ((before >>= fun _ => throw .outOfRange : Emit Unit) (s.withOperands []))

variable {act : Emit Unit} {made : Emit Operand} {below : List Term}

instance : Ignores requireStack := by
  refine .get_bind (fun s => ?_) fun _ _ _ => rfl
  split <;> infer_instance

def entry (t : Term) : Term := ⟨some (t.type.getD .python), t.value⟩

theorem push_eq_ok {t : Term} {u : Unit} (h : push t s = .ok u s') :
    s'.stack = { s.stack with stack := entry t :: s.stack.stack } := by
  obtain ⟨_, s₁, hstack, h⟩ := bind_eq_ok.1 h
  rw [← Ignores.frame_eq hstack]
  split at h
  · obtain ⟨_, _, hthrow, -⟩ := bind_eq_ok.1 h
    exact absurd hthrow throw_ne_ok
  · cases h
    rfl

theorem Builds.of_run [Ignores made] (h : outcome (act s) = outcome ((made >>= pushObject) (s.withOperands below))) :
    Builds act made s below := by
  refine ⟨h, fun s' hok => ?_⟩
  rw [hok] at h
  obtain ⟨v, s1, hmade, hpush⟩ := bind_eq_ok.1 (outcome_eq_ok.1 h.symm)
  refine ⟨v, ?_⟩
  rw [push_eq_ok hpush, Ignores.frame_eq hmade]
  rfl

variable {op : Opcode} {n : Nat}

theorem argument_eq (hop : op.arg = some (n : Int)) : argument op = pure (n : Int) := by
  rw [argument, hop]

section Collections

variable {new : Operand → Emit Operand} {fill : Operand → Operand → Operand → Emit Unit} [∀ v, Ignores (new v)]
  [∀ v i t, Ignores (fill v i t)] {items : List Term}

instance : Ignores (collected new fill n items) := by unfold collected; infer_instance

/-- Both kinds of collection that hold items by place are built alike. -/
def gather (new : Operand → Emit Operand) (fill : Operand → Operand → Operand → Emit Unit) (op : Opcode) : Emit Unit := do
  let size ← assign (.int64 (argOperand op))
  let v ← new size
  fillFromTop (← argument op).toNat (fill v)
  pushObject v

theorem builds_gather (hop : op.arg = some (n : Int)) (hn : items.length = n) :
    Builds (gather new fill op) (collected new fill n items) (s.withOperands (items.reverse ++ below)) below := by
  refine .of_run ?_
  subst hn
  simp only [gather, collected, argOperand, hop, argument_eq hop, bind_assoc, pure_bind, Int.toNat_natCast, Nat.sub_self]
  refine Ignores.bind_congr fun size s => Ignores.bind_congr fun v s => ?_
  exact outcome_fillFromTop _

theorem lacks_gather (hop : op.arg = some (n : Int)) (hn : items.length < n) :
    Lacks (gather new fill op) (collected new fill n items) (s.withOperands items.reverse) := by
  simp only [Lacks, gather, collected, argOperand, hop, argument_eq hop, bind_assoc, pure_bind, Int.toNat_natCast]
  refine Ignores.bind_congr fun size s => Ignores.bind_congr fun v s => ?_
  exact outcome_fillFromTop_short hn _

end Collections

theorem pairsOf_flatMap (pairs : List (Term × Term)) : pairsOf (pairs.reverse.flatMap fun e => [e.2, e.1]) = pairs := by
  induction pairs using List.reverseRecOn with
  | nil => rfl
  | append_singleton pairs e ih => simp [pairsOf, ih]

theorem popMany_of_le {ts : List Term} (h : n ≤ ts.length) :
    popMany n (s.withOperands ts) = .ok (ts.take n) (s.withOperands (ts.drop n)) := by
  rw [popMany, bind_run_of_ok operands_run, bind_run_of_ok setOperands_run, if_neg (Nat.not_lt.2 h)]
  rfl

theorem popMany_run {ts : List Term} :
    popMany ts.length (s.withOperands (ts ++ below)) = .ok ts (s.withOperands below) := by
  rw [popMany_of_le (by simp), List.take_left, List.drop_left]

theorem popMany_short {ts : List Term} (h : ts.length < n) :
    popMany n (s.withOperands ts) = .error .outOfRange (s.withOperands []) := by
  rw [popMany, bind_run_of_ok operands_run, bind_run_of_ok setOperands_run, if_pos h, List.drop_of_length_le (Nat.le_of_lt h)]
  rfl

theorem builds_map (hop : op.arg = some (n : Int)) {pairs : List (Term × Term)} (hn : pairs.length = n) :
    Builds (buildMap op) (dictOf pairs) (s.withOperands (pairs.reverse.flatMap (fun e => [e.2, e.1]) ++ below))
      below := by
  refine .of_run ?_
  have hlength : 2 * n = (pairs.reverse.flatMap fun e => [e.2, e.1]).length := by simp [hn, Nat.mul_comm]
  simp only [buildMap, dictOf, argument_eq hop, bind_assoc, pure_bind, Int.toNat_natCast, hlength]
  refine Ignores.bind_congr fun ptr s => Ignores.bind_congr fun f s => Ignores.bind_congr fun dict s => ?_
  rw [bind_run_of_ok popMany_run, pairsOf_flatMap]
  rfl

theorem builds_constKeyMap (hop : op.arg = some (n : Int)) {keys : Term} {values : List Term} (hn : values.length = n) :
    Builds (buildConstKeyMap op) (dictByKeys keys values) (s.withOperands (keys :: (values.reverse ++ below))) below := by
  refine .of_run ?_
  simp only [buildConstKeyMap, dictByKeys, argument_eq hop, bind_assoc, pure_bind, Int.toNat_natCast, ← hn]
  refine Ignores.bind_congr fun ptr s => Ignores.bind_congr fun f s => Ignores.bind_congr fun dict s => ?_
  rw [bind_run_of_ok (pop_run keys), ← List.length_reverse, bind_run_of_ok popMany_run, List.reverse_reverse]
  rfl

theorem outcome_clearKeywords [Ignores made] (hkeywords : s.stack.keywords = none) :
    outcome ((made >>= fun v => pushObject v >>= fun _ => clearKeywords) s) = outcome ((made >>= pushObject) s) := by
  cases hmade : made s with
  | error e s1 => rw [bind_eq_error.2 (.inl hmade), bind_eq_error.2 (.inl hmade)]
  | ok v s1 =>
    rw [bind_run_of_ok hmade, bind_run_of_ok hmade]
    cases hpush : pushObject v s1 with
    | error e s2 => rw [bind_eq_error.2 (.inl hpush)]
    | ok u s2 =>
      have hnone : s2.stack.keywords = none := by rw [push_eq_ok hpush, Ignores.frame_eq hmade, hkeywords]
      rw [bind_run_of_ok hpush, clearKeywords, modifyFrame, ← hnone]
      rfl

theorem builds_call (hop : op.arg = some (n : Int)) (hkeywords : s.stack.keywords = none) {first second : Term}
    {args : List Term} (hn : args.length = n) : Builds (callOp op) (callOf first second (args.map (·.value)))
      (s.withOperands (args.reverse ++ first :: second :: below)) below := by
  refine .of_run ?_
  have hnone : keywords (s.withOperands (args.reverse ++ first :: second :: below)) =
      .ok .none (s.withOperands (args.reverse ++ first :: second :: below)) := by
    rw [keywords, bind_run_of_ok (by rfl), State.withOperands, State.withFrame, hkeywords]
    rfl
  refine Eq.trans ?_ (outcome_clearKeywords (s := s.withOperands below) hkeywords)
  rw [callOp, bind_run_of_ok hnone]
  simp only [callEither, callOf, popArgs, argument_eq hop, bind_assoc, pure_bind, Int.toNat_natCast, ← hn, if_true]
  refine Ignores.bind_congr fun ptr s => Ignores.bind_congr fun slot s => ?_
  rw [← List.length_reverse, bind_run_of_ok popMany_run, bind_run_of_ok (pop_run first),
    bind_run_of_ok (pop_run second), List.map_reverse, List.reverse_reverse]

theorem outcome_popMany_short {f : List Term → Emit Unit} {k : Nat} {ts : List Term} (hn : ts.length < n + k)
    (hf : ∀ us vs, us.length < k → outcome (f vs (s.withOperands us)) = .error .outOfRange) :
    outcome ((popMany n >>= f) (s.withOperands ts)) = .error .outOfRange := by
  by_cases hlength : ts.length < n
  · rw [bind_eq_error.2 (.inl (popMany_short hlength))]
    rfl
  · rw [bind_run_of_ok (popMany_of_le (Nat.not_lt.1 hlength))]
    refine hf _ _ ?_
    rw [List.length_drop]
    omega

theorem lacks_map (hop : op.arg = some (n : Int)) {ts : List Term} (hn : ts.length < 2 * n) :
    Lacks (buildMap op) newDict (s.withOperands ts) := by
  simp only [Lacks, buildMap, argument_eq hop, bind_assoc, pure_bind, Int.toNat_natCast]
  refine Ignores.bind_congr fun ptr s => Ignores.bind_congr fun f s => Ignores.bind_congr fun dict s => ?_
  exact outcome_popMany_short (k := 0) hn fun us _ h => absurd h (Nat.not_lt_zero _)

theorem lacks_constKeyMap (hop : op.arg = some (n : Int)) {ts : List Term} (hn : ts.length < n + 1) :
    Lacks (buildConstKeyMap op) newDict (s.withOperands ts) := by
  simp only [Lacks, buildConstKeyMap, argument_eq hop, bind_assoc, pure_bind, Int.toNat_natCast]
  refine Ignores.bind_congr fun ptr s => Ignores.bind_congr fun f s => Ignores.bind_congr fun dict s => ?_
  cases ts with
  | nil => rfl
  | cons keys ts =>
    rw [bind_run_of_ok (pop_run keys)]
    exact outcome_popMany_short (k := 0) (Nat.lt_of_succ_lt_succ hn) fun us _ h => absurd h (Nat.not_lt_zero _)

theorem lacks_call (hop : op.arg = some (n : Int)) {ts : List Term} (hn : ts.length < n + 2) :
    Lacks (callOp op) (objectPtr >>= (entryVar ·)) (s.withOperands ts) := by
  have hkeywords : keywords (s.withOperands ts) = .ok (keywordsOf s.stack.keywords) (s.withOperands ts) := rfl
  rw [Lacks, callOp, bind_run_of_ok hkeywords]
  simp only [callEither, popArgs, argument_eq hop, bind_assoc, pure_bind, Int.toNat_natCast]
  refine Ignores.bind_congr fun ptr s => Ignores.bind_congr fun slot s => ?_
  refine outcome_popMany_short (k := 2) hn fun us _ h => ?_
  match us with
  | [] => rfl
  | [t] => rfl

/-- A new set to which these items have been added one after the other. -/
@[reducible] def setOf (items : List Term) : Emit Operand := do
  let nothing ← null (← objectPtr)
  let set ← newSet nothing
  for t in items do
    let boxed ← box t.value t.type
    discard (setAdd set boxed.value)
  return set

instance (v : Operand) : Ignores (newSet v) := by unfold newSet callObjects; infer_instance

theorem outcome_addFromTop {set : Operand} {items : List Term} {k : Nat} (f : Emit β) :
    outcome ((forIn (List.range' k items.length) PUnit.unit (fun _ _ => do
        let t ← pop
        let boxed ← box t.value t.type
        discard (setAdd set boxed.value)
        pure (ForInStep.yield PUnit.unit)) >>= fun _ => f) (s.withOperands (items ++ below))) =
      outcome ((forIn items PUnit.unit (fun t _ => do
        let boxed ← box t.value t.type
        discard (setAdd set boxed.value)
        pure (ForInStep.yield PUnit.unit)) >>= fun _ => f) (s.withOperands below)) := by
  induction items generalizing k s with
  | nil => rfl
  | cons t items ih =>
    simp only [List.length_cons, List.range'_succ, List.forIn_cons, bind_assoc, List.cons_append, pure_bind]
    rw [bind_run_of_ok (pop_run t)]
    exact Ignores.bind_congr fun boxed s => Ignores.bind_congr fun _ s => ih

/-- A set gets its items in the order in which they are popped, the last one that was pushed first. -/
theorem set_filled_from_top (hop : op.arg = some (n : Int)) (s : State) {items : List Term} (hn : items.length = n)
    (below : List Term) : Builds (buildSet op) (setOf items) (s.withOperands (items ++ below)) below := by
  refine .of_run ?_
  subst hn
  simp only [buildSet, setOf, argument_eq hop, bind_assoc, pure_bind, Int.toNat_natCast]
  refine Ignores.bind_congr fun ptr s => Ignores.bind_congr fun nothing s => Ignores.bind_congr fun set s => ?_
  have hroom : min items.length (items ++ below).length = items.length := by simp
  rw [bind_run_of_ok operands_run]
  simp only [hroom, Nat.lt_irrefl, if_false, List.range_eq_range']
  exact outcome_addFromTop _

theorem pair_filled_from_top :
    Builds (buildSet ⟨"BUILD_SET", some 2, 0, false, none⟩) (setOf [⟨some .integer, .id 8⟩, ⟨none, .id 7⟩])
      (({} : State).withOperands [⟨some .integer, .id 8⟩, ⟨none, .id 7⟩, ⟨none, .id 6⟩]) [⟨none, .id 6⟩] :=
  set_filled_from_top (n := 2) rfl {} rfl [⟨none, .id 6⟩]

end Instructions

end Stack
end Lowering
