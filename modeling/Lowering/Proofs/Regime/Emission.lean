import Lowering.Lower.Unpack
import Lowering.Proofs.Regime

/-!
The emissions that the lowering of trees uses keep to a regime, as far as it allows what they are put together
from.
-/
namespace Lowering.Emit

open Program (Adding Request)

set_option synthInstance.maxSize 100000000

variable {R : Regime}

instance [R.Requests] : Heeds R objectPtr := by unfold objectPtr; infer_instance

variable [hR : R.Computes]

section Values

variable {a b : Operand}

instance (op : Binary) : Heeds R (binary op a b) := hR.assign _ (fun _ => rfl) fun _ => rfl
instance : Heeds R (add a b) := by unfold add; infer_instance
instance : Heeds R (eq a b) := by unfold eq; infer_instance
instance (op : Unary) : Heeds R (unary op a) := hR.assign _ (fun _ => rfl) fun _ => rfl
instance (v : Operand) : Heeds R (store v a) := hR.assign _ (fun _ => rfl) fun _ => rfl
instance : Heeds R (load a) := hR.assign _ (fun _ => rfl) fun _ => rfl
instance (c : Operand) : Heeds R (member a b c) := hR.assign _ (fun _ => rfl) fun _ => rfl
instance (t : MachineType) (is : List Operand) : Heeds R (element a t is) :=
  hR.assign _ (fun _ => rfl) fun _ => rfl
instance (p : Operand) (args : List Operand) : Heeds R (callPtr p args) := hR.assign _ (fun _ => rfl) fun _ => rfl
instance : Heeds R (assign (.int64 a)) := hR.assign _ (fun _ => rfl) fun _ => rfl
instance (n : Int) : Heeds R (int64 n) := by unfold int64; infer_instance
instance (n : Int) : Heeds R (int32 n) := hR.assign _ (fun _ => rfl) fun _ => rfl
instance (v : Option Binary64) : Heeds R (assign (.float64 v)) := hR.assign _ (fun _ => rfl) fun _ => rfl
instance (t : MachineType) : Heeds R (null t) := hR.assign _ (fun _ => rfl) fun _ => rfl
instance (sort : Cast) (v : Operand) (t : MachineType) : Heeds R (cast sort v t) :=
  hR.assign _ (fun _ => rfl) fun _ => rfl
instance (i : Nat) : Heeds R (globalVar i) := by
  have hassign : ∀ id, Heeds R (assign (.globalVar id)) := fun _ => hR.assign _ (fun _ => rfl) fun _ => rfl
  unfold globalVar
  infer_instance

omit hR in
instance (i : Nat) : Heeds R (funcId i) := by
  refine ⟨.read fun s => ?_⟩
  cases s.program.funcs[i]? with
  | none => exact .throw _
  | some f => exact .pure trivial

instance (name : String) (result : MachineType) (params : List MachineType) :
    Heeds R (external name result params) := by
  unfold external; infer_instance

instance (l : Label) : Heeds R (loadText l) := by unfold loadText; infer_instance

section Reads

omit hR

instance (t : Option ValueType) : Heeds R (known t) := by cases t <;> unfold known <;> infer_instance

instance : Heeds R currentImpl := by
  refine ⟨.read fun s => ?_⟩
  cases s.lowerer <;> exact Agrees.agree

instance (i : Nat) : Heeds R (implOf i) := by unfold implOf; infer_instance

instance (field : Known → Option Nat) : Heeds R (knownOrNoMember field) := by
  refine ⟨.read fun s => ?_⟩
  cases field s.program.known with
  | none => exact .throw _
  | some i => exact .pure trivial

end Reads

instance (t : Option ValueType) (v : Operand) : Heeds R (countPtr t v) := by
  cases t <;> unfold countPtr <;> infer_instance

end Values

section Places

variable (a : Operand)

instance : Heeds R (listLength a) := by unfold listLength; infer_instance

instance (n : Int) : Heeds R (offset a n) := by
  unfold offset
  split <;> infer_instance

instance (type : MachineType) (n : Nat) : Heeds R (memberOf a type n) := by unfold memberOf; infer_instance

end Places

variable [hL : R.Calls]

section Library

variable (a b c : Operand) (t : Option ValueType) (args : Batch Operand) (kw : Keywords)

omit hR in
instance (i : Nat) (args : List Operand) : Heeds R (call i args) := by
  have hcall : ∀ id, Heeds R (assign (.call id args)) := fun id => hL.call id args
  unfold call
  infer_instance

instance (name : String) (args : List Operand) : Heeds R (callObjects name args) := by
  unfold callObjects; infer_instance

instance (sort : ConstantSort) (function : String) (param : MachineType) (t : ValueType) (v : Operand) :
    Heeds R (boxNumber sort function param t v) := by
  unfold boxNumber
  split <;> infer_instance

instance : Heeds R raiseIndexError := by
  have hname : ∀ k, Program.constantName k ≠ "PyExc_IndexError" := fun _ => Program.constantName_ne (by decide)
  have hadding : ∀ type, Adding (Program.global "PyExc_IndexError" type externalLinkage) := fun type =>
    .global hname type _
  have hrequest : ∀ type, Request (Program.global "PyExc_IndexError" type externalLinkage) := fun type =>
    .global hname type _
  unfold raiseIndexError raiseNamed
  infer_instance

instance : Heeds R (callByVector a b args kw c) := by unfold callByVector; dsimp only; infer_instance
instance : Heeds R (callByTuple a args kw) := by unfold callByTuple; dsimp only; infer_instance

end Library

/-- Blocks that part come together again. -/
class Joins (R : Regime) : Prop where
  box (v : Operand) (t : Option ValueType) : Heeds R (box v t)
  listItem (t : Option ValueType) (a b : Operand) : Heeds R (listItem t a b)
  tupleItem (a b : Operand) : Heeds R (tupleItem a b)
  releaseCounted (t : ValueType) (v : Operand) : Heeds R (releaseCounted t v)
  getAttribute (object : Operand) (name : Label) (type : Option Operand) : Heeds R (getAttribute object name type)
  setAttribute (object : Operand) (name : Label) (v : Operand) (type : Option Operand) :
    Heeds R (setAttribute object name v type)
  callCallable (a b : Operand) (args : Batch Operand) (kw : Keywords) : Heeds R (callCallable a b args kw)

instance [R.Branches] : Joins R where
  box v t := by unfold box; infer_instance
  listItem t a b := by unfold listItem; infer_instance
  tupleItem a b := by unfold tupleItem; infer_instance
  releaseCounted t v := by unfold releaseCounted; infer_instance
  getAttribute object name type := by cases type <;> unfold getAttribute <;> dsimp only <;> infer_instance
  setAttribute object name v type := by cases type <;> unfold setAttribute <;> dsimp only <;> infer_instance
  callCallable a b args kw := by unfold callCallable; infer_instance

variable [hJ : Joins R]

section Joined

variable (a b : Operand) (t : Option ValueType) (args : Batch Operand)
  (kw : Keywords) (l : Label)

instance : Heeds R (box a t) := hJ.box a t
instance : Heeds R (listItem t a b) := hJ.listItem t a b
instance : Heeds R (tupleItem a b) := hJ.tupleItem a b
instance (t : ValueType) : Heeds R (releaseCounted t a) := hJ.releaseCounted t a
instance (type : Option Operand) : Heeds R (getAttribute a l type) := hJ.getAttribute a l type
instance (type : Option Operand) : Heeds R (setAttribute a l b type) := hJ.setAttribute a l b type
instance : Heeds R (callCallable a b args kw) := hJ.callCallable a b args kw

instance : Heeds R (releaseNullable t a) := by cases t <;> unfold releaseNullable <;> infer_instance

instance (v : Variable) : Heeds R (releaseVariable v) := by
  unfold releaseVariable
  split
  · split
    · split <;> infer_instance
    · split <;> infer_instance
  · infer_instance

end Joined

section Methods

variable (a : Operand) (t : Option ValueType) (args : Batch Operand) (types : Batch (Option ValueType))
  (kw : Keywords) (name : String) (l : Label)

instance (fits : Bool) : Heeds R (Shortcut.applies.indexed types fits) := by
  have hone : ∀ ts : List (Option ValueType), Heeds R (match ts with
      | [t] => do return (← known t).isInt
      | _ => return false : Emit Bool) := by
    intro ts
    split <;> infer_instance
  unfold Shortcut.applies.indexed
  infer_instance

instance (s : Shortcut) : Heeds R (s.applies t types) := by
  cases s <;> unfold Shortcut.applies <;> infer_instance

instance (s : Shortcut) : Heeds R (s.lower t a types args) := by
  cases s <;> unfold Shortcut.lower <;> infer_instance

instance : Heeds R (findShortcut t types l) := by
  unfold findShortcut
  refine ⟨.bind (Agrees.agree : Agree R (lift l.key) _ _) fun name _ => ?_⟩
  dsimp only
  split
  · exact Agrees.agree
  · exact Agrees.agree

instance (as : List Operand) (ts : List (Option ValueType)) : Heeds R (boxArgs as ts) := by
  induction as generalizing ts with
  | nil => exact inferInstanceAs (Heeds R (pure []))
  | cons a as ih =>
    cases ts with
    | nil => exact inferInstanceAs (Heeds R (pure []))
    | cons t ts =>
      have := ih ts
      unfold boxArgs
      infer_instance

instance : Heeds R (boxInPlace args types) := by
  unfold boxInPlace
  refine ⟨.bind (Agrees.agree : Agree R (lift args.each) _ _) fun as _ => ?_⟩
  refine .bind (Agrees.agree : Agree R (lift types.each) _ _) fun ts _ => ?_
  split
  · exact Agrees.agree
  · exact Agrees.agree

instance : Heeds R (callDefault l a args types kw) := by unfold callDefault; infer_instance
instance (as : List Operand) : Heeds R (boxEach as types) := by
  have hbox : ∀ e : Operand × Nat, Heeds R (match e with
      | (a, i) => do box a (← lift (types.item i)) : Emit Term) := fun ⟨_, _⟩ => inferInstance
  unfold boxEach
  infer_instance

instance (as : List Operand) : Heeds R (numberSignature name as) := by unfold numberSignature; infer_instance

end Methods

/-- A method that may be in a slot of the type is called by the slot or by its name. -/
class Dispatches (R : Regime) : Prop where
  callIteration (name : String) (slot : Nat) (a : Operand) : Heeds R (callIteration name slot a)
  callCompare (l : Label) (t : Option ValueType) (a b : Operand) (types : Batch (Option ValueType))
    (args : Batch Operand) : Heeds R (callCompare l t a b types args)
  callNumber (l : Label) (t : Option ValueType) (a b : Operand) (types : Batch (Option ValueType))
    (args : Batch Operand) : Heeds R (callNumber l t a b types args)

instance [R.Branches] : Dispatches R where
  callIteration name slot a := by unfold callIteration; dsimp only; infer_instance
  callCompare l t a b types args := by unfold callCompare; infer_instance
  callNumber l t a b types args := by
    refine ⟨.bind (Agrees.agree : Agree R (lift l.key) _ _) fun name _ => ?_⟩
    refine .bind (Agrees.agree : Agree R (requireProtocol l name) _ _) fun _ _ => ?_
    refine .bind (Agrees.agree : Agree R (lift args.counted) _ _) fun as _ => ?_
    dsimp only
    exact Agrees.agree

variable [hD : Dispatches R]

section Dispatched

variable (a b : Operand) (t : Option ValueType) (args : Batch Operand) (types : Batch (Option ValueType))
  (kw : Keywords) (name : String) (l : Label)

instance (slot : Nat) : Heeds R (callIteration name slot a) := hD.callIteration name slot a
instance : Heeds R (callCompare l t a b types args) := hD.callCompare l t a b types args
instance : Heeds R (callNumber l t a b types args) := hD.callNumber l t a b types args
instance : Heeds R (completePower l args types) := by unfold completePower; dsimp only; infer_instance
instance : Heeds R (callMethod l a t args types kw) := by unfold callMethod; dsimp only; infer_instance

end Dispatched

section Operators

variable (a b : Operand) (t u : Term)

instance (type : Option ValueType) : Heeds R (typeText type) := by
  cases type with
  | none => exact inferInstanceAs (Heeds R (pure _))
  | some t => exact inferInstanceAs (Heeds R (lift _))

instance (op : Operator) : Heeds R (specialComparison op t u) := by
  unfold specialComparison
  split <;> infer_instance

instance (op : Operator) : Heeds R (plainComparison op t u) := by
  unfold plainComparison
  split <;> infer_instance

instance (op : Option Operator) : Heeds R (comparison op t u) := by unfold comparison; dsimp only; infer_instance

instance (name : String) (plain : Binary) : Heeds R (connective.both t u name plain) := by
  unfold connective.both; infer_instance

instance (op : Option Operator) : Heeds R (connective op t u) := by
  unfold connective
  split <;> infer_instance

instance [R.Branches] (after : BlockRef) [Inside R after] : Heeds R (restToList after t) := by
  unfold restToList; infer_instance
instance : Heeds R (listWithoutLast a t b) := by unfold listWithoutLast; infer_instance
instance (back : Int) : Heeds R (itemFromEnd t a back) := by unfold itemFromEnd; infer_instance

end Operators

end Lowering.Emit
