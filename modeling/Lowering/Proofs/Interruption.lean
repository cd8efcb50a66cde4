import Lowering.Progress

/-!
Interruption of steps. A named step goes alone or with all steps after it, outermost first; the last step, if it is
not named, takes all but the outermost with it, innermost first.
-/
namespace Lowering.Progress

variable {before after : List Step} {step : Step} {name : String}

def interrupted (s : Step) : Step := { s with status := .interrupted }

/-- The line that tells of an interruption while so many steps are left. -/
def interruption (s : Step) (reason : String) (left : Nat) : String :=
  line left ("[INTERRUPTED] " ++ s.name ++ " because " ++ reason)

/-- The line of a step that goes with another. -/
def following (s : Step) (left : Nat) : String := interruption s ("Step " ++ s.name ++ " was interrupted") left

theorem place?_eq_none (h : ∀ s ∈ before, s.name ≠ name) : place? before name = none := by
  simpa [place?, List.findIdx?_eq_none_iff] using h

theorem place?_append (h : ∀ s ∈ before, s.name ≠ step.name) :
    place? (before ++ step :: after) step.name = some before.length := by
  have hnone : before.findIdx? (·.name == step.name) = none := place?_eq_none h
  simp [place?, List.findIdx?_append, List.findIdx?_cons, hnone]

theorem drop_append (before after : List Step) (step : Step) (reason : Step → String) :
    drop (before ++ step :: after) before.length reason =
      ⟨before ++ after, [interrupted step], [interruption step (reason step) (before.length + after.length)]⟩ := by
  simp [drop, List.eraseIdx_append_of_length_le, interrupted, interruption]

theorem drop_last (before : List Step) (step : Step) (reason : Step → String) :
    drop (before ++ [step]) (Place.last.index (before ++ [step])) reason =
      ⟨before, [interrupted step], [interruption step (reason step) before.length]⟩ := by
  have hdrop := drop_append before [] step reason
  rw [List.append_nil] at hdrop
  rw [Place.index, List.length_append, List.length_singleton, Nat.add_sub_cancel, hdrop]
  rfl

/-- At a place among the steps the loop removes those that stand there and after, one by one, and then stops by
itself: it could have gone on for more rounds. -/
theorem cascade_nth (before after : List Step) {n : Nat} (hn : after.length ≤ n) :
    cascade (.nth before.length) n (before ++ after) =
      ⟨before, after.map interrupted, after.zipIdx.map fun e => following e.1 (before.length + after.length - 1 - e.2)⟩ := by
  induction n generalizing after with
  | zero =>
    obtain rfl := List.length_eq_zero_iff.1 (Nat.le_zero.1 hn)
    simp [cascade]
  | succ n ih =>
    cases after with
    | nil => simp [cascade, Place.kept]
    | cons s after =>
      have hlt : Place.kept (.nth before.length) < (before ++ s :: after).length := by simp [Place.kept]
      have hshift : ∀ k, before.length + after.length - 1 - k = before.length + (after.length + 1) - 1 - (k + 1) :=
        fun k => by omega
      rw [cascade, if_pos hlt, Place.index, drop_append, andThen, ih after (Nat.le_of_succ_le_succ hn)]
      simp [List.zipIdx_succ, following, hshift]

/-- At the end of the steps the loop removes all but the first, the last one first. -/
theorem cascade_last (outer : Step) (inner : List Step) {n : Nat} (hn : inner.length ≤ n) :
    cascade .last n (outer :: inner.reverse) =
      ⟨[outer], inner.map interrupted, inner.zipIdx.map fun e => following e.1 (inner.length - e.2)⟩ := by
  induction n generalizing inner with
  | zero =>
    obtain rfl := List.length_eq_zero_iff.1 (Nat.le_zero.1 hn)
    rfl
  | succ n ih =>
    cases inner with
    | nil => rfl
    | cons s inner =>
      have hlt : Place.last.kept < ((outer :: inner.reverse) ++ [s]).length := by simp [Place.kept]
      rw [List.reverse_cons, ← List.cons_append, cascade, if_pos hlt, drop_last, andThen,
        ih inner (Nat.le_of_succ_le_succ hn)]
      simp [List.zipIdx_succ, following]

theorem interrupt_named (hbefore : ∀ s ∈ before, s.name ≠ step.name) (reason : String) (cascades : Bool) :
    interrupt (before ++ step :: after) reason cascades (some step.name) =
      interruptAt (before ++ step :: after) (.nth before.length) reason cascades := by
  simp [interrupt, Place.asked, place?_append hbefore]

theorem interrupt_last (reason : String) (cascades : Bool) :
    interrupt (before ++ [step]) reason cascades none = interruptAt (before ++ [step]) .last reason cascades := by
  simp [interrupt, Place.asked]

/-- What an interruption by name comes to. Without a cascade the first step of the name goes; with one, those after
it go too. They are told of in their order, each by the number of steps that are left, and no others change. -/
theorem named_interruption (reason name : String) :
    (∀ steps cascades, (∀ s ∈ steps, s.name ≠ name) → interrupt steps reason cascades (some name) = { steps }) ∧
    ∀ (before after : List Step) (step : Step), step.name = name → (∀ s ∈ before, s.name ≠ name) →
      interrupt (before ++ step :: after) reason false (some name) =
        ⟨before ++ after, [interrupted step], [interruption step reason (before.length + after.length)]⟩ ∧
      interrupt (before ++ step :: after) reason true (some name) =
        ⟨before, (step :: after).map interrupted, interruption step reason (before.length + after.length) ::
          after.zipIdx.map fun e => following e.1 (before.length + after.length - 1 - e.2)⟩ ∧
      ∀ n, after.length ≤ n → cascade (.nth before.length) n (before ++ after) =
        cascade (.nth before.length) (before ++ after).length (before ++ after) := by
  refine ⟨fun steps cascades hnone => ?_, ?_⟩
  · simp [interrupt, Place.asked, place?_eq_none hnone]
  · rintro before after step rfl hbefore
    have hlength : after.length ≤ (before ++ after).length := by simp
    refine ⟨?_, ?_, fun n hn => ?_⟩
    · rw [interrupt_named hbefore, interruptAt, Place.index, drop_append]
      rfl
    · rw [interrupt_named hbefore, interruptAt, Place.index, drop_append, andThen, if_pos rfl, cascade_nth _ _ hlength]
      rfl
    · rw [cascade_nth _ _ hn, cascade_nth _ _ hlength]

theorem second_of_three_interrupted :
    interrupt [⟨"a", .ongoing, 0⟩, ⟨"b", .ongoing, 1⟩, ⟨"b", .idle, 2⟩] "x" true (some "b") =
      ⟨[⟨"a", .ongoing, 0⟩], [⟨"b", .interrupted, 1⟩, ⟨"b", .interrupted, 2⟩],
        ["\t\t[INTERRUPTED] b because x", "\t[INTERRUPTED] b because Step b was interrupted"]⟩ :=
  ((named_interruption "x" "b").2 [⟨"a", .ongoing, 0⟩] [⟨"b", .idle, 2⟩] ⟨"b", .ongoing, 1⟩ rfl (by simp)).2.1

/-- The last step, addressed without its name and by it. An interruption is the same without a cascade; with one it
takes all but the first step along if the name is not given. To be ended by name leaves a step where it is. -/
theorem last_step_addressed (before : List Step) (step : Step) (h : ∀ s ∈ before, s.name ≠ step.name)
    (reason : String) :
    interrupt (before ++ [step]) reason false none = interrupt (before ++ [step]) reason false (some step.name) ∧
    (interrupt (before ++ [step]) reason true (some step.name)).steps = before ∧
    (interrupt (before ++ [step]) reason true none).steps = before.take 1 ∧
    finish (before ++ [step]) =
      ⟨before, [{ step with status := .completed }], [line before.length ("[COMPLETE] " ++ step.name)]⟩ ∧
    finishNamed (before ++ [step]) step.name =
      ⟨before ++ [{ step with status := .completed }], [], [line (before.length + 1) ("[COMPLETE] " ++ step.name)]⟩ := by
  refine ⟨?_, ?_, ?_, ?_, ?_⟩
  · rw [interrupt_named h, interrupt_last, interruptAt, interruptAt, drop_last, Place.index, drop_append, List.append_nil]
    rfl
  · rw [interrupt_named h, interruptAt, Place.index, drop_append, andThen, if_pos rfl, cascade_nth _ _ (Nat.zero_le _)]
  · rw [interrupt_last, interruptAt, drop_last, andThen, if_pos rfl]
    cases before with
    | nil => rfl
    | cons outer inner =>
      rw [← inner.reverse_reverse, cascade_last _ _ (by simp)]
      rfl
  · simp [finish]
  · rw [finishNamed, place?_append h, atPlace]
    simp [finishAt, setStatus, List.modify_eq_take_drop]

theorem last_of_three_addressed :
    (interrupt [⟨"a", .ongoing, 0⟩, ⟨"b", .ongoing, 1⟩, ⟨"c", .ongoing, 2⟩] "x" true none).steps = [⟨"a", .ongoing, 0⟩] ∧
    (interrupt [⟨"a", .ongoing, 0⟩, ⟨"b", .ongoing, 1⟩, ⟨"c", .ongoing, 2⟩] "x" true (some "c")).steps =
      [⟨"a", .ongoing, 0⟩, ⟨"b", .ongoing, 1⟩] :=
  have h := last_step_addressed [⟨"a", .ongoing, 0⟩, ⟨"b", .ongoing, 1⟩] ⟨"c", .ongoing, 2⟩ (by simp) "x"
  ⟨h.2.2.1, h.2.1⟩

end Lowering.Progress
