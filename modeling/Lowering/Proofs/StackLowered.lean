import Lowering.Proofs.Visits
import Lowering.Stack

/-!
What a completed lowering of stack code leaves. The blocks that it keeps are blocks of one function, so the
instructions of the function lead to blocks that it has.
-/
namespace Lowering

open Emit

set_option synthInstance.maxSize 10000000000000000000

variable {α : Type} {s s' : State} {i : Nat} {v : Visit}

instance (x : Emit (List α)) {β : Type} (f : List α → Emit β) [hx : Heeds v.regime x]
    [hnil : Heeds v.regime (f [])] [hcons : ∀ a as, Heeds v.regime (f (a :: as))] :
    Heeds v.regime (x >>= f) :=
  ⟨hx.agree.bind fun as _ => by cases as with | nil => exact hnil.agree | cons a as => exact (hcons a as).agree⟩

namespace Stack

variable [hv : Fact (v.lowerer = .stack)]

section Frame

instance (scope cursor : StackFrame → Nat) (instrs : StackFrame → List Opcode) (constants : StackFrame → List Constant)
    (names localNames : StackFrame → List String) (exceptions : StackFrame → List ExceptionEntry)
    (constantValues : StackFrame → List Operand) (stack : StackFrame → List Term)
    (stackAt : StackFrame → List (BlockRef × List Term)) (current : StackFrame → Option Nat)
    (keywords : StackFrame → Option Constant) : Heeds v.regime (modifyFrame fun f => { f with
      scope := scope f, cursor := cursor f, instrs := instrs f, constants := constants f, names := names f,
      localNames := localNames f, exceptions := exceptions f, constantValues := constantValues f, stack := stack f,
      stackAt := stackAt f, current := current f, keywords := keywords f }) :=
  heeds_lasting fun hs h => by cases h; exact hs.step (.beside rfl rfl rfl) rfl fun _ => .inl

variable {op : Opcode}

instance (r : BlockRef) [hr : Inside v.regime r] : Heeds v.regime (setBlockAt op r) :=
  heeds_lasting fun {s _ _} hs h => by
    cases h
    refine hs.step (.beside rfl rfl rfl) rfl fun q hq => ?_
    have hl := hs.lowerer.trans hv.out
    simp only [State.kept, hl, List.map_cons, List.mem_cons] at hq ⊢
    rcases hq with rfl | hq
    · exact .inr hr.room
    · exact .inl hq

theorem agree_blockAt? (op : Opcode) : Agree v.regime (blockAt? op) (blockAt? op) fun b => ∀ r, b = some r → v.regime.Room r :=
  agree_lasting fun {s _ _} hs h => by
    cases h
    refine ⟨hs, fun r hr => hs.kept r ?_⟩
    obtain ⟨before, after, heq, -⟩ := List.lookup_eq_some_iff.1 hr
    simp [State.kept, hs.lowerer.trans hv.out, heq]

instance (ts : List Term) : Heeds v.regime (setOperands ts) := by unfold setOperands; infer_instance
instance : Heeds v.regime frame := by unfold frame; infer_instance
instance : Heeds v.regime operands := by unfold operands; infer_instance
instance (t : Term) : Heeds v.regime (push t) := by unfold push requireStack; infer_instance
instance : Heeds v.regime pop := by unfold pop; infer_instance
instance (n : Nat) : Heeds v.regime (popMany n) := by unfold popMany; infer_instance

instance (place : Int) : Heeds v.regime (operandAt place) := by
  refine ⟨.bind (Agrees.agree : Agree _ operands _ _) fun ts _ => ?_⟩
  cases Operands.get? ts place <;> exact Agrees.agree

instance : Heeds v.regime (argument op) := by
  unfold argument
  cases op.arg <;> infer_instance

instance (table : List α) : Heeds v.regime (selected table op) := by
  refine ⟨.bind (Agrees.agree : Agree _ (argument op) _ _) fun n _ => ?_⟩
  cases Operands.get? table.reverse n <;> exact Agrees.agree

instance (offset shown : Int) : Yields v.regime (blockReached offset shown) := by
  refine ⟨.bind (Agrees.agree : Agree _ frame _ _) fun f _ => ?_⟩
  cases f.instrs.find? (·.offset == offset) with
  | none => exact .throw _
  | some op =>
    refine (agree_blockAt? op).bind fun b hb => ?_
    cases b with
    | none => exact .throw _
    | some r => exact .pure (hb r rfl)

instance : Yields v.regime elseBlock := by
  refine ⟨.bind (Agrees.agree : Agree _ frame _ _) fun f _ => ?_⟩
  cases f.current.bind fun i => f.instrs[i + 1]? with
  | none => exact .bind (Agrees.agree : Agree _ (discard createBlock) _ _) fun _ _ => .throw _
  | some next =>
    refine (agree_blockAt? next).bind fun b hb => ?_
    cases b with
    | none => exact Meets.agree
    | some r => exact .pure (hb r rfl)

end Frame

section Unpack

/-- The item of an iterator that comes after `i` others, asked for in a block of its own. The block of the item before
it is ended twice, the second time to no effect. -/
def nextItem (iterator : Term) (i : Nat) : Emit Term := do
  let test ← createBlock (some "Test Next")
  if i ≠ 0 then branch test
  branch test
  setBlock test
  callMethod "__next__" iterator.value iterator.type .empty .empty

/-- A loop over the items from the second on, of which each round makes the block of the next one. -/
theorem firstItems_loop (iterator : Term) (isAll : Bool) (rest test : BlockRef) (items : Array Term) {k n count : Nat}
    (hcount : k + (n + 1) = count) :
    (do
      let r ← forIn (List.range' k (n + 1)) (items, test) fun i r => do
        branch r.2
        setBlock r.2
        let item ← callMethod "__next__" iterator.value iterator.type .empty .empty
        if i + 1 ≠ count then do
          let test ← createBlock (some "Test Next")
          branch test
          pure (ForInStep.yield (r.1.push item, test))
        else if isAll then do
          branch rest
          pure (ForInStep.yield (r.1.push item, r.2))
        else pure (ForInStep.yield (r.1.push item, r.2))
      pure r.1.toList : Emit (List Term)) = (do
      branch test
      setBlock test
      let item ← callMethod "__next__" iterator.value iterator.type .empty .empty
      let more ← (List.range' (k + 1) n).mapM (nextItem iterator)
      if isAll then branch rest
      return items.toList ++ item :: more) := by
  induction n generalizing k test items with
  | zero =>
    have hlast : ¬k + 1 ≠ count := by omega
    simp only [List.range'_succ, List.range'_zero, List.forIn_cons, List.forIn_nil, List.mapM_nil, bind_assoc, pure_bind,
      if_neg hlast]
    refine bind_congr fun _ => bind_congr fun _ => bind_congr fun item => ?_
    cases isAll <;> simp
  | succ n ih =>
    have hne : k + 1 ≠ count := by omega
    rw [List.range'_succ, List.forIn_cons]
    simp only [bind_assoc, pure_bind, if_pos hne, List.range'_succ, List.mapM_cons, nextItem, if_pos (Nat.succ_ne_zero k)]
    refine bind_congr fun _ => bind_congr fun _ => bind_congr fun item => bind_congr fun next => bind_congr fun _ => ?_
    refine (ih next (items.push item) (by omega)).trans ?_
    simp

theorem firstItems_eq (iterator : Term) (n : Nat) (isAll : Bool) (rest : BlockRef) :
    firstItems iterator n isAll rest = (do
      let items ← (List.range n).mapM (nextItem iterator)
      if n ≠ 0 ∧ isAll then branch rest
      return items) := by
  cases n with
  | zero => simp [firstItems]
  | succ n =>
    simp only [firstItems, List.range_eq_range', List.range'_succ, List.mapM_cons, bind_assoc, pure_bind]
    rw [if_neg (Nat.succ_ne_zero n), nextItem]
    simp only [bind_assoc]
    refine bind_congr fun test => ?_
    have hloop := firstItems_loop iterator isAll rest test #[] (k := 0) (n := n) (Nat.zero_add _)
    rw [List.range'_succ] at hloop
    simpa using hloop

variable {t : Term}

instance (count : Nat) (isAll : Bool) (r : BlockRef) [Inside v.regime r] :
    Heeds v.regime (firstItems t count isAll r) := by
  rw [firstItems_eq]
  unfold nextItem
  infer_instance

instance (after : Operand) (r : BlockRef) [Inside v.regime r] : Heeds v.regime (lastItems t after r) := by
  unfold lastItems
  infer_instance

instance (before : Int) (after : Operand) : Heeds v.regime (unpackIterable t before after) := by
  unfold unpackIterable
  infer_instance

instance (op : Opcode) : Heeds v.regime (unpackSized t op) := by
  unfold unpackSized
  infer_instance

end Unpack

section Actions

variable (op : Opcode)

instance (place : Int) (t : Term) : Heeds v.regime (replaceAt place t) := by
  refine ⟨.bind (Agrees.agree : Agree _ operands _ _) fun ts _ => ?_⟩
  cases Operands.set? ts place t <;> exact Agrees.agree

instance (k : Nat) : Heeds v.regime (raise k) := by unfold raise; infer_instance
instance (n : Nat) : Heeds v.regime (rotate n) := by unfold rotate; infer_instance

instance : Heeds v.regime (rotateBy op) := by
  simp only [rotateBy, Std.Legacy.Range.forIn_eq_forIn_range']
  infer_instance

instance (n : Nat) (fill : Operand → Operand → Emit Unit) [∀ a b, Heeds v.regime (fill a b)] :
    Heeds v.regime (fillFromTop n fill) := by
  unfold fillFromTop
  infer_instance

instance : Heeds v.regime (buildSet op) := by unfold buildSet; infer_instance
instance : Heeds v.regime (buildMap op) := by unfold buildMap; infer_instance
instance : Heeds v.regime (buildConstKeyMap op) := by unfold buildConstKeyMap; infer_instance

instance (conversion : Int) (a b : Operand) : Heeds v.regime (converted conversion a b) := by
  unfold converted
  split <;> infer_instance

instance : Heeds v.regime (unpackSequence op) := by
  unfold unpackSequence
  cases op.arg <;> infer_instance

instance (c : Constant) : Heeds v.regime (constantValue c) := by
  unfold constantValue
  cases c <;> infer_instance

instance (x : Reach) : Yields v.regime (x.block op) := by
  unfold Reach.block
  cases x <;> infer_instance

instance (test : JumpTest) (t : Term) : Heeds v.regime (test.value t) := by
  unfold JumpTest.value
  cases test <;> infer_instance

instance (test : JumpTest) (a : Operand) (r k : BlockRef) [Inside v.regime r] [Inside v.regime k] :
    Heeds v.regime (test.branch a r k) := by
  unfold JumpTest.branch
  cases test <;> infer_instance

/-- What an instruction does goes on in the function. -/
class Action.Goes (v : Visit) (action : Action) : Prop where
  run : ∀ op : Opcode, Heeds v.regime (action.run op)

instance : Action.skip.Goes v := ⟨fun _ => inferInstanceAs (Heeds _ (pure ()))⟩
instance (e : Fault) : (Action.fail e).Goes v := ⟨fun _ => inferInstanceAs (Heeds _ (throw e))⟩
instance (act : Emit Unit) [h : Heeds v.regime act] : (Action.plain act).Goes v := ⟨fun _ => h⟩
instance (act : Opcode → Emit Unit) [h : ∀ op, Heeds v.regime (act op)] : (Action.withArg act).Goes v := ⟨h⟩

theorem goes_actions : ∀ e ∈ actions, e.2.Goes v := by
  have hown : ∀ e ∈ ownActions, e.2.Goes v := by
    simp only [ownActions, List.forall_mem_cons]
    repeat' apply And.intro
    all_goals first
      | infer_instance
      | simp
  intro e he
  simp only [actions, List.mem_append] at he
  rcases he with ((((he | he) | he) | he) | he) | he
  · exact hown e he
  all_goals
    obtain ⟨x, -, rfl⟩ := List.mem_map.1 he
    dsimp only
    infer_instance

end Actions

section Targets

variable (op : Opcode) (r : BlockRef)

instance (ways : Nat) : Heeds v.regime (switchOperands ways op r) := by
  refine ⟨.bind (Agrees.agree : Agree _ frame _ _) fun f _ => ?_⟩
  cases f.stackAt.lookup r <;> exact Agrees.agree

omit hv in
theorem agree_sourcesOf : Agree v.regime (sourcesOf r) (sourcesOf r) fun rs => ∀ r ∈ rs, r.func = v.entry.func :=
  agree_lasting fun {s _ _} hs h => by
    have hfunc : currentFunc s = .ok v.entry.func s := by
      have hof : implOf v.impl s = .ok (s.impls[v.impl]?.getD default) s := rfl
      rw [currentFunc, bind_run_of_ok hs.currentImpl, bind_run_of_ok hof, hs.code]
      rfl
    rw [sourcesOf, bind_run_of_ok hfunc] at h
    cases h
    refine ⟨hs, fun q hq => ?_⟩
    simp only [Func.predecessors, List.mem_filterMap] at hq
    obtain ⟨k, -, hq⟩ := hq
    split at hq
    · cases hq
      rfl
    · cases hq

instance (ways : Nat) : Heeds v.regime (joinOperands ways r) := by
  have hjoin : ∀ values, Heeds v.regime (do
      let sources ← sourcesOf r
      pushObject (← phi (← objectPtr) values sources)) := fun values =>
    ⟨(agree_sourcesOf r).bind fun sources hsources => by
      have : ∀ type, Heeds v.regime (phi type values sources) := fun _ => heeds_phi hsources
      exact Agrees.agree⟩
  unfold joinOperands
  infer_instance

instance : Heeds v.regime (refuseCovered op) := by
  unfold refuseCovered
  cases op.line <;> infer_instance

instance (k : Nat) : Heeds v.regime (enterAt k op) := by
  refine ⟨(agree_blockAt? op).bind fun b hb => ?_⟩
  cases b with
  | none => exact .pure trivial
  | some r =>
    have : Inside v.regime r := ⟨hb r rfl⟩
    exact Agrees.agree

instance : Heeds v.regime (perform op) := by
  unfold perform
  cases h : actions.lookup op.smallName with
  | none => infer_instance
  | some action =>
    obtain ⟨before, after, heq, -⟩ := List.lookup_eq_some_iff.1 h
    have hgoes : action.Goes v := goes_actions (op.smallName, action) (by simp [heq])
    exact hgoes.run op

end Targets

instance : Heeds v.regime bindParameters := by
  unfold bindParameters
  refine ⟨.bind (Agrees.agree : Agree _ currentImpl _ _) fun j _ => .bind (Agrees.agree : Agree _ (implOf j) _ _) fun m _ => ?_⟩
  cases m.parent <;> exact Agrees.agree

theorem start_eq_ok (hs : s.program.Sound) (h : start i s = .ok () s') :
    ∃ f g, Lower.Opened i f g s s' ∧ s'.lowerer = .stack ∧
      s'.stack = { impl := i, scope := (s.impls[i]?.getD default).scope, cursor := g.cursor,
                   entry := ⟨f, g.blocks.size⟩, content := ⟨f, g.blocks.size + 1⟩ } := by
  unfold start at h
  obtain ⟨m, s1, hm, h⟩ := bind_eq_ok.1 h
  obtain ⟨rfl, rfl⟩ := pure_eq_ok.1 hm
  obtain ⟨_, s2, h2, h⟩ := bind_eq_ok.1 h
  cases h2
  obtain ⟨⟨entry, content⟩, s3, hopen, h⟩ := bind_eq_ok.1 h
  obtain ⟨f, g, ho, rfl, rfl, hlowerer, -, hstack⟩ := Lower.openFunction_opened (by exact hs) hopen
  dsimp only at h
  rw [get_bind_run] at h
  cases h
  refine ⟨f, g, ?_, hlowerer, ?_⟩
  · exact { ho with }
  · simp only [hstack, ho.cursor]

/-- From rest, a completed lowering of stack code is a visit. -/
theorem lowerImpl_visited {code : Code} (hs : s.Rested) (h : lowerImpl i code s = .ok () s') :
    ∃ v : Visit, v.impl = i ∧ v.Leads s s' := by
  obtain ⟨_, s1, hstart, h⟩ := bind_eq_ok.1 h
  obtain ⟨f, g, ho, hlowerer, hstack⟩ := start_eq_ok hs.sound hstart
  let v : Visit := ⟨.stack, i, ⟨f, g.blocks.size⟩, g.cursor, none, s.program, s1⟩
  have hstacked : Fact (v.lowerer = .stack) := ⟨rfl⟩
  have hs1 : s1.Visiting v := ho.visiting hs (by rw [State.site?, hlowerer, hstack]) (by rw [State.kept, hlowerer, hstack]; rfl)
  obtain ⟨_, s2, htables, h⟩ := bind_eq_ok.1 h
  obtain ⟨_, s3, hinstrs, h⟩ := bind_eq_ok.1 h
  obtain ⟨_, s4, hbind, h⟩ := bind_eq_ok.1 h
  obtain ⟨_, s5, hlower, h⟩ := bind_eq_ok.1 h
  have hkept : ∀ {x : Emit Unit} [Heeds v.regime x] {t t' : State} {u : Unit}, t.Visiting v → x t = .ok u t' → t'.Visiting v :=
    fun ht hx => holds_of_ok (R := v.regime) ht hx
  have hs5 := hkept (hkept (hkept (hkept hs1 htables) hinstrs) hbind) hlower
  obtain ⟨frame, _, hframe, h⟩ := bind_eq_ok.1 h
  cases hframe
  obtain ⟨-, hentry, hcontent⟩ : s5.stack.impl = i ∧ s5.stack.entry = v.entry ∧ s5.stack.content = v.content := by
    have hsite := hs5.site
    rw [State.site?, hs5.lowerer.trans hstacked.out] at hsite
    simpa [hstacked.out] using hsite
  rw [hentry, hcontent] at h
  exact ⟨v, rfl, rfl, rfl, hs1, ⟨g, ho, rfl, rfl⟩, s5, hs5, h⟩

end Stack
end Lowering
