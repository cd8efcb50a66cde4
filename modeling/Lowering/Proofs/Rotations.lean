import Lowering.Proofs.OperandStack
import Lowering.Stack

/-!
Instructions that rearrange the operand stack. A rotation writes entries over each other one after the other; each
entry is read before the write that would destroy it, so the top entry comes to its place and the others above move up.
-/
namespace Lowering.Operands

variable {α : Type} {n : Nat}

theorem depth?_below {s : List α} (h : n < s.length) : depth? s (-n - 1) = some n := by
  have hneg : (-n - 1 : Int) < 0 := by omega
  have hle : -(-n - 1 : Int) ≤ s.length := by omega
  rw [depth?, if_pos hneg, if_pos hle]
  congr 1
  omega

theorem depth?_eq_none {s : List α} (h : s.length ≤ n) : depth? s (-n - 1) = none := by
  have hneg : (-n - 1 : Int) < 0 := by omega
  have hle : ¬-(-n - 1 : Int) ≤ s.length := by omega
  rw [depth?, if_pos hneg, if_neg hle]

end Lowering.Operands

namespace Lowering.Stack

open Emit

variable {s : State} {held t u : Term} {above below : List Term} {n : Nat} {op : Opcode} {name : String}

section Places

theorem operandAt_run (above : List Term) (hn : above.length = n) : operandAt (-n - 1) (s.withOperands (above ++ t :: below)) =
    .ok t (s.withOperands (above ++ t :: below)) := by
  have hget : Operands.get? (above ++ t :: below) (-n - 1) = some t := by
    rw [Operands.get?, Operands.depth?_below (by simp; omega), ← hn]
    simp
  rw [operandAt, bind_run_of_ok operands_run, hget]
  rfl

theorem operandAt_short {ts : List Term} (h : ts.length ≤ n) :
    operandAt (-n - 1) (s.withOperands ts) = .error .outOfRange (s.withOperands ts) := by
  rw [operandAt, bind_run_of_ok operands_run, Operands.get?, Operands.depth?_eq_none h]
  rfl

theorem replaceAt_run (above : List Term) (hn : above.length = n) : replaceAt (-n - 1) u (s.withOperands (above ++ t :: below)) =
    .ok () (s.withOperands (above ++ u :: below)) := by
  have hset : Operands.set? (above ++ t :: below) (-n - 1) u = some (above ++ u :: below) := by
    rw [Operands.set?, Operands.depth?_below (by simp; omega), ← hn]
    simp
  rw [replaceAt, bind_run_of_ok operands_run, hset]
  rfl

theorem raise_run {n : Nat} (hn : above.length = n) : raise n (s.withOperands (above ++ t :: u :: below)) =
    .ok () (s.withOperands (above ++ u :: u :: below)) := by
  have hsplit : above ++ t :: u :: below = (above ++ [t]) ++ u :: below := by simp
  have hplace : (-n - 2 : Int) = -((n + 1 : Nat) : Int) - 1 := by omega
  rw [raise, hplace, hsplit, bind_run_of_ok (operandAt_run _ (by simp [hn])), ← hsplit, replaceAt_run _ hn]

end Places

section Rotation

theorem rounds_eq (held : Term) {k m : Nat} (hn : k + m + 1 = n) :
    (forIn (List.range' k (m + 1)) PUnit.unit fun i _ =>
      if ((i : Nat) + 1 : Int) = n then do
        replaceAt (-n) held
        pure (.yield PUnit.unit)
      else do
        raise i
        pure (.yield PUnit.unit)) = (do
      (List.range' k m).forM raise
      replaceAt (-n) held : Emit PUnit) := by
  induction m generalizing k with
  | zero =>
    have hlast : (k + 1 : Int) = n := by omega
    simp [hlast]
  | succ m ih =>
    have hmore : ¬(k + 1 : Int) = n := by omega
    rw [List.range'_succ, List.forIn_cons, if_neg hmore, bind_assoc]
    simp only [pure_bind, ih (k := k + 1) (by omega)]
    rw [List.range'_succ, List.forM_eq_forM, List.forM_cons, bind_assoc]

theorem rotateBy_eq (hn : 1 ≤ n) (hop : op.arg = some (n : Int)) : rotateBy op = rotate n := by
  obtain ⟨m, rfl⟩ := Nat.exists_eq_add_of_le' hn
  simp only [rotateBy, rotate, argument_eq hop, pure_bind, Std.Legacy.Range.forIn_eq_forIn_range', Int.toNat_natCast]
  refine bind_congr fun held => ?_
  have hrounds := rounds_eq held (k := 0) (m := m) (n := m + 1) (by omega)
  simpa [Std.Legacy.Range.size, List.range_eq_range'] using hrounds

/-- Each round reads the entry that the next round overwrites. -/
theorem raise_rounds (above up below : List Term) (t : Term) : ∃ u,
    (List.range' up.length above.length).forM raise (s.withOperands (up ++ t :: (above ++ below))) =
      .ok () (s.withOperands (up ++ above ++ u :: below)) := by
  induction above generalizing up t with
  | nil => exact ⟨t, by simp; rfl⟩
  | cons a above ih =>
    obtain ⟨u, hu⟩ := ih (up ++ [a]) a
    refine ⟨u, ?_⟩
    rw [List.length_cons, List.range'_succ]
    refine (bind_run_of_ok (raise_run rfl)).trans ?_
    simpa using hu

theorem top_run (ts : List Term) : top (s.withOperands (t :: ts)) = .ok t (s.withOperands (t :: ts)) :=
  operandAt_run [] rfl

theorem rotate_run (above : List Term) (hn : above.length + 1 = n) :
    rotate n (s.withOperands (t :: (above ++ below))) = .ok () (s.withOperands (above ++ t :: below)) := by
  subst hn
  obtain ⟨u, hu⟩ := raise_rounds (s := s) above [] below t
  have hplace : (-(above.length + 1 : Nat) : Int) = -above.length - 1 := by omega
  rw [rotate, bind_run_of_ok (top_run _), Nat.add_sub_cancel, List.range_eq_range', hplace]
  exact (bind_run_of_ok hu).trans (replaceAt_run above rfl)

/-- After `k` rotations of `n` entries, the top `k` entries have come below the others. -/
theorem rotate_times (up down below : List Term) (hn : up.length + down.length = n) (hop : perform op = rotate n) :
    (List.replicate up.length op).forM perform (s.withOperands (up ++ down ++ below)) =
      .ok () (s.withOperands (down ++ up ++ below)) := by
  induction up generalizing down with
  | nil => simp; rfl
  | cons t up ih =>
    have hrun : rotate n (s.withOperands (t :: (up ++ down ++ below))) = _ := rotate_run (up ++ down) (by simp at hn ⊢; omega)
    have hrest := ih (down ++ [t]) (by simp at hn ⊢; omega)
    simp only [List.length_cons, List.replicate_succ]
    refine (bind_run_of_ok (by simpa [hop] using hrun)).trans ?_
    simpa using hrest

theorem swap_run (above : List Term) (hn : above.length + 2 = n) (hop : op.arg = some (n : Int)) :
    swap op (s.withOperands (t :: (above ++ u :: below))) = .ok () (s.withOperands (u :: (above ++ t :: below))) := by
  have hplace : (-n : Int) = -(above.length + 1 : Nat) - 1 := by omega
  have hread : operandAt _ (s.withOperands (t :: (above ++ u :: below))) = _ := operandAt_run (t :: above) rfl
  have hfirst : replaceAt (-1) u (s.withOperands (t :: (above ++ u :: below))) = _ := replaceAt_run [] rfl
  have hsecond : replaceAt _ t (s.withOperands (u :: (above ++ u :: below))) = _ := replaceAt_run (u :: above) rfl
  rw [swap, argument_eq hop, pure_bind, bind_run_of_ok (top_run _), hplace]
  exact (bind_run_of_ok hread).trans ((bind_run_of_ok hfirst).trans hsecond)

theorem rotateTwo_run : rotateTwo (s.withOperands (t :: u :: below)) = .ok () (s.withOperands (u :: t :: below)) := by
  have hread : operandAt (-2) (s.withOperands (t :: u :: below)) = _ := operandAt_run [t] rfl
  have hfirst : replaceAt (-2) t (s.withOperands (t :: u :: below)) = _ := replaceAt_run [t] rfl
  have hsecond : replaceAt (-1) u (s.withOperands (t :: t :: below)) = _ := replaceAt_run [] rfl
  exact (bind_run_of_ok hread).trans ((bind_run_of_ok (top_run _)).trans ((bind_run_of_ok hfirst).trans hsecond))

theorem rotateTwo_eq : rotateTwo = rotate 2 := by
  funext s
  rw [show s = s.withOperands s.stack.stack from rfl]
  match s.stack.stack with
  | [] => rfl
  | [t] => rfl
  | t :: u :: below => exact rotateTwo_run.trans (rotate_run [u] rfl).symm

theorem swap_two_eq (hop : op.arg = some 2) : swap op = rotate 2 := by
  funext s
  rw [show s = s.withOperands s.stack.stack from rfl]
  match s.stack.stack with
  | [] => rw [swap, argument_eq (n := 2) hop]; rfl
  | [t] => rw [swap, argument_eq (n := 2) hop]; rfl
  | t :: u :: below => exact (swap_run [] rfl hop).trans (rotate_run [u] rfl).symm

end Rotation

section Instructions

theorem perform_eq {action : Action} (hname : op.smallName = name) (h : actions.lookup name = some action) :
    perform op = action.run op := by
  rw [perform, hname, h]

/-- A rotation of `n` entries moves the top one below the others, and `n` of them change nothing; the instructions for
two, three and four entries are rotations, and so is a swap with the second entry. -/
theorem rotations_move_top (hn : 1 ≤ n) (hname : op.smallName = "rot_n") (hop : op.arg = some (n : Int)) (s : State) :
    (∀ (t : Term) (above below : List Term), above.length + 1 = n →
      perform op (s.withOperands (t :: (above ++ below))) = .ok () (s.withOperands (above ++ t :: below))) ∧
    (∀ ts : List Term, n ≤ ts.length →
      (List.replicate n op).forM perform (s.withOperands ts) = .ok () (s.withOperands ts)) ∧
    ∀ other : Opcode,
      (other.smallName = "rot_two" → n = 2 → perform other = perform op) ∧
      (other.smallName = "rot_three" → n = 3 → perform other = perform op) ∧
      (other.smallName = "rot_four" → n = 4 → perform other = perform op) ∧
      (other.smallName = "swap" → other.arg = some 2 → n = 2 → perform other = perform op) := by
  have hperform : perform op = rotate n := (perform_eq hname rfl).trans (rotateBy_eq hn hop)
  refine ⟨fun t above below hlength => hperform ▸ rotate_run above hlength, fun ts hlength => ?_, fun other => ?_⟩
  · have hup : (ts.take n).length = n := List.length_take_of_le hlength
    have htimes := rotate_times (s := s) (ts.take n) [] (ts.drop n) (by simp [hup]) hperform
    simpa [hup] using htimes
  · rw [hperform]
    refine ⟨?_, ?_, ?_, ?_⟩
    · rintro h rfl
      exact (perform_eq h rfl).trans rotateTwo_eq
    · rintro h rfl
      exact perform_eq h rfl
    · rintro h rfl
      exact perform_eq h rfl
    · rintro h hother rfl
      exact (perform_eq h rfl).trans (swap_two_eq hother)

theorem three_rotated :
    perform ⟨"ROT_N", some 3, 0, false, none⟩
        (({} : State).withOperands [⟨none, .id 7⟩, ⟨none, .id 8⟩, ⟨none, .id 9⟩, ⟨none, .id 6⟩]) =
      .ok () (({} : State).withOperands [⟨none, .id 8⟩, ⟨none, .id 9⟩, ⟨none, .id 7⟩, ⟨none, .id 6⟩]) :=
  (rotations_move_top (n := 3) (by decide) (by decide +kernel) rfl {}).1 ⟨none, .id 7⟩ [⟨none, .id 8⟩, ⟨none, .id 9⟩]
    [⟨none, .id 6⟩] rfl

/-- A copy takes the entry below the one that a swap with the same argument exchanges with the top entry, and fails where
there is none. Only with the argument 0 it takes the top entry, as a doubling of it does. -/
theorem copied_entry (hname : op.smallName = "copy") (hop : op.arg = some (n : Int)) (s : State) :
    (∀ (t : Term) (above below : List Term), above.length = n →
      perform op (s.withOperands (above ++ t :: below)) =
        (do push t; retain t.type t.value : Emit Unit) (s.withOperands (above ++ t :: below))) ∧
    (∀ ts : List Term, ts.length ≤ n → perform op (s.withOperands ts) = .error .outOfRange (s.withOperands ts)) ∧
    ∀ other : Opcode,
      (other.smallName = "swap" → other.arg = op.arg → ∀ (t u : Term) (above below : List Term), above.length + 2 = n →
        perform other (s.withOperands (t :: (above ++ u :: below))) = .ok () (s.withOperands (u :: (above ++ t :: below)))) ∧
      (other.smallName = "dup_top" → n = 0 → perform other = perform op) := by
  have hperform : perform op = (do
      let t ← operandAt (-n - 1)
      push t
      retain t.type t.value) := by
    rw [perform_eq hname rfl, Action.run, copy, argument_eq hop, pure_bind]
  rw [hperform]
  refine ⟨fun t above below hn => bind_run_of_ok (operandAt_run above hn), fun ts hn => ?_, fun other => ⟨?_, ?_⟩⟩
  · exact bind_eq_error.2 (.inl (operandAt_short hn))
  · intro hother harg t u above below hn
    rw [perform_eq hother rfl]
    exact swap_run above hn (harg.trans hop)
  · rintro hother rfl
    exact perform_eq hother rfl

/-- With the argument 1 the second entry is copied. -/
theorem second_entry_copied :
    perform ⟨"COPY", some 1, 0, false, none⟩ (({} : State).withOperands [⟨none, .id 7⟩, ⟨none, .id 8⟩]) =
      (do push ⟨none, .id 8⟩; retain none (.id 8) : Emit Unit) (({} : State).withOperands [⟨none, .id 7⟩, ⟨none, .id 8⟩]) :=
  (copied_entry (n := 1) (by decide +kernel) rfl {}).1 ⟨none, .id 8⟩ [⟨none, .id 7⟩] [] rfl

end Instructions

end Lowering.Stack
