import Lowering.Proofs.Comprehension
import Lowering.Proofs.OperandStack

/-!
Unpacking of the top operand. The first items are taken from an iterator one after the other, each in a block of its
own; what the iterator still has goes to a list, of which the last items are taken. The first item ends on top.
-/
namespace Lowering.Stack

open Emit

set_option synthInstance.maxSize 10000000000000000000

variable {α β : Type} {s s' : State} {below : List Term}

section Held

variable {frame : StackFrame}

/-- The frame of the stack machine stays what it is. -/
def holding (frame : StackFrame) : Regime := .lasting fun s => s.stack = frame

theorem heeds_holding {x : Emit α} (hx : Ignores x) : Heeds (holding frame) x :=
  heeds_lasting fun hs h => (Ignores.frame_eq h).trans hs

instance : (holding frame).Computes :=
  Regime.computes_of_same (fun hs _ _ _ _ hstack _ => hstack.trans hs) (fun _ => heeds_holding inferInstance)
    (fun _ _ _ => heeds_holding inferInstance) fun _ _ => heeds_holding inferInstance

instance : (holding frame).Calls := ⟨fun _ _ => heeds_holding inferInstance⟩

instance : (holding frame).Branches where
  createBlock _ := ⟨(heeds_holding inferInstance).agree.mono fun _ _ => trivial⟩
  setBlock _ _ := heeds_holding inferInstance
  branch _ _ := heeds_holding inferInstance
  condBranch _ _ _ _ _ := heeds_holding inferInstance
  ret v := heeds_holding (by unfold ret leave; infer_instance)
  toHandler := heeds_holding <| by
    refine .get_bind (fun s => ?_) fun _ _ _ => rfl
    have : Ignores retNull := by unfold retNull leave; infer_instance
    split
    · split <;> infer_instance
    · infer_instance

end Held

/-- What comes after the first items: nothing, or a list of the items between and the last ones. -/
def laterItems (iterator : Term) (before : Nat) (rest : BlockRef) : Option Nat → Emit (List Term)
  | none => do
    if before ≠ 0 then branch rest
    return []
  | some after => do
    let found ← createBlock (some "Args After")
    let list ← restToList found iterator
    setBlock found
    let length ← listLength list.value
    let middle ← listWithoutLast (.id after) list length
    let last ← (List.range after).mapM fun (i : Nat) => itemFromEnd list length (after - i)
    branch rest
    return middle :: last

/-- The items that a value is taken apart into: the first ones and, where the number of the last ones is given, a list
of those between and the last ones. -/
def itemsOf (value : Term) (before : Nat) (after : Option Nat) : Emit (List Term) := do
  let rest ← createBlock (some "After Unpack")
  let iterator ← callMethod "__iter__" value.value value.type .empty .empty
  let first ← (List.range before).mapM (nextItem iterator)
  let later ← laterItems iterator before rest after
  setBlock rest
  return first ++ later

instance (frame : StackFrame) (value : Term) (before : Nat) (after : Option Nat) :
    Heeds (holding frame) (itemsOf value before after) := by
  unfold itemsOf nextItem
  cases after <;> unfold laterItems <;> infer_instance

/-- Puts items on the stack, the first one on top. -/
def pushAll (items : List Term) : Emit Unit := do
  for item in items.reverse do
    push item

theorem unpackIterable_eq (value : Term) (before : Nat) (after : Option Nat) :
    unpackIterable value before (after.elim (.id (-1)) fun n => .id n) = itemsOf value before after >>= pushAll := by
  simp only [unpackIterable, itemsOf, firstItems_eq, bind_assoc, pure_bind, Int.toNat_natCast]
  refine bind_congr fun rest => bind_congr fun iterator => bind_congr fun first => ?_
  cases after with
  | none =>
    simp only [Option.elim_none, beq_self_eq_true, and_true, lastItems, if_true, laterItems, pure_bind]
    split <;> simp only [bind_assoc, pure_bind] <;> rfl
  | some n =>
    have hne : (Operand.id n == .id (-1)) = false := by
      rw [beq_eq_false_iff_ne, ne_eq, Operand.id.injEq]
      omega
    simp only [Option.elim_some, hne, Bool.false_eq_true, and_false, if_false, lastItems, laterItems, Operand.toInt?,
      Option.getD_some, Int.toNat_natCast, bind_assoc, pure_bind, pushAll]
    simp

variable {s s' : State} {value : Term} {items below : List Term} {before : Nat} {after : Option Nat} {act : Emit Unit}

theorem pushAll_cons (t : Term) : pushAll (t :: items) = pushAll items >>= fun _ => push t := by
  simp [pushAll]

theorem stack_of_pushAll (h : pushAll items s = .ok () s') :
    s'.stack = { s.stack with stack := items.map entry ++ s.stack.stack } := by
  induction items generalizing s' with
  | nil => cases h; rfl
  | cons t items ih =>
    rw [pushAll_cons] at h
    obtain ⟨_, s1, hitems, hpush⟩ := bind_eq_ok.1 h
    rw [push_eq_ok hpush, ih hitems]
    rfl

theorem length_of_mapM {γ β : Type} {f : γ → Emit β} {xs : List γ} {ys : List β} (h : xs.mapM f s = .ok ys s') :
    ys.length = xs.length := by
  induction xs generalizing s ys with
  | nil => cases h; rfl
  | cons x xs ih =>
    rw [List.mapM_cons] at h
    obtain ⟨y, s1, -, h⟩ := bind_eq_ok.1 h
    obtain ⟨zs, s2, hzs, h⟩ := bind_eq_ok.1 h
    cases h
    rw [List.length_cons, List.length_cons, ih hzs]

theorem length_laterItems {iterator : Term} {rest : BlockRef} (h : laterItems iterator before rest after s = .ok items s') :
    items.length = after.elim 0 (· + 1) := by
  cases after with
  | none =>
    cases before with
    | zero => cases h; rfl
    | succ n =>
      obtain ⟨_, s1, -, h⟩ := bind_eq_ok.1 h
      cases h
      rfl
  | some n =>
    simp only [laterItems, bind_eq_ok] at h
    obtain ⟨_, _, -, _, _, -, _, _, -, _, _, -, _, _, -, last, s1, hlast, _, _, -, h⟩ := h
    cases h
    simp [length_of_mapM hlast]

theorem length_itemsOf (h : itemsOf value before after s = .ok items s') :
    items.length = before + after.elim 0 (· + 1) := by
  simp only [itemsOf, bind_eq_ok] at h
  obtain ⟨_, _, -, _, _, -, first, s1, hfirst, later, s2, hlater, _, _, -, h⟩ := h
  cases h
  rw [List.length_append, length_of_mapM hfirst, length_laterItems hlater, List.length_range]

/-- The instruction takes a value off the stack and puts the items there that the value is taken apart into, the
first one on top, and nothing below changes. -/
structure Unpacks (act : Emit Unit) (value : Term) (before : Nat) (after : Option Nat) (s : State) (below : List Term) :
    Prop where
  run : act (s.withOperands (value :: below)) = (itemsOf value before after >>= pushAll) (s.withOperands below)
  left : ∀ s', act (s.withOperands (value :: below)) = .ok () s' → ∃ items s1,
    itemsOf value before after (s.withOperands below) = .ok items s1 ∧ items.length = before + after.elim 0 (· + 1) ∧
    s'.stack = { s.stack with stack := items.map entry ++ below }

theorem Unpacks.of_run
    (h : act (s.withOperands (value :: below)) =
      unpackIterable value before (after.elim (.id (-1)) fun n => .id n) (s.withOperands below)) :
    Unpacks act value before after s below := by
  rw [unpackIterable_eq] at h
  refine ⟨h, fun s' hok => ?_⟩
  rw [h] at hok
  obtain ⟨items, s1, hitems, hpush⟩ := bind_eq_ok.1 hok
  have hframe : s1.stack = (s.withOperands below).stack :=
    holds_of_ok (R := holding (s.withOperands below).stack) rfl hitems
  refine ⟨items, s1, hitems, length_itemsOf hitems, ?_⟩
  rw [stack_of_pushAll hpush, hframe]
  rfl

end Lowering.Stack
