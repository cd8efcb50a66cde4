import Lowering.Proofs.Emission

/-!
Actions that make the program grow. Every emission is put together from a few actions on blocks and
tables; instances follow the way it is put together.
-/
namespace Lowering

namespace Block

variable {b : Block} {i : Instr}

theorem push_of_locked (hb : b.locked = true) (hw : (i.write b.locked).2 = none) : (b.push i).1 = b := by
  unfold push
  split
  next heq => simp [heq] at hw
  next => simp [hb]

theorem push_of_unlocked (hb : b.locked = false)
    (hw : (i.write b.locked).2 = none) : (b.push i).1 = { b with items := b.items.push (.instr i) } := by
  unfold push
  split
  next heq => simp [heq] at hw
  next => simp [hb]

theorem extends_push (hi : i.isTerminator = false) (hw : (i.write b.locked).2 = none) : b.Extends (b.push i).1 := by
  cases hb : b.locked with
  | true =>
    rw [push_of_locked hb hw]
    exact ⟨.refl b, fun h => h⟩
  | false =>
    rw [push_of_unlocked hb hw]
    rw [hb] at hw
    refine ⟨⟨rfl, by simp, by simp [hb], fun h => h⟩, fun h => ?_⟩
    rcases h with ⟨body, h⟩ | ⟨body, last, h⟩
    · refine .inl ⟨body ++ [i], ⟨by simp [h.items], ?_, hb, h.needsEnd⟩⟩
      intro j hj
      rcases List.mem_append.1 hj with hj | hj
      · exact h.plain j hj
      · rw [List.mem_singleton.1 hj]
        exact ⟨hw, hi⟩
    · exact absurd h.locked (by simp [hb])

theorem needsEnd_endBy {targets : List BlockRef} {leaves : Bool}
    (h : targets ≠ [] ∨ leaves = true) : (b.endBy i targets leaves).needsEnd = false := by
  rcases h with h | h
  · cases targets with
    | nil => exact absurd rfl h
    | cons t rest => simp [endBy, needsEnd]
  · simp [endBy, needsEnd, h]

theorem extends_endBy {targets : List BlockRef} {leaves : Bool}
    (hi : i.isTerminator = true) (hw : (i.write b.locked).2 = none)
    (h : targets ≠ [] ∨ leaves = true) : b.Extends (b.endBy i targets leaves) := by
  have hend := needsEnd_endBy (b := b) (i := i) h
  cases hb : b.locked with
  | true =>
    have hitems : (b.endBy i targets leaves).items = b.items := by
      simp only [endBy, push_of_locked hb hw]
    refine ⟨⟨by simp only [endBy, push_of_locked hb hw], hitems ▸ List.prefix_rfl, fun _ => ⟨hitems, rfl⟩,
      fun _ => hend⟩, fun hs => ?_⟩
    rcases hs with ⟨body, hs⟩ | ⟨body, last, hs⟩
    · exact absurd hs.unlocked (by simp [hb])
    · exact .inr ⟨body, last, hitems ▸ hs.items, hs.plain, hs.final, rfl, hend⟩
  | false =>
    have hitems : (b.endBy i targets leaves).items = b.items.push (.instr i) := by
      simp only [endBy, push_of_unlocked hb hw]
    rw [hb] at hw
    refine ⟨⟨by simp only [endBy, push_of_unlocked hb (by rwa [hb])], by simp [hitems],
      fun h => absurd h (by simp [hb]), fun _ => hend⟩, fun hs => ?_⟩
    rcases hs with ⟨body, hs⟩ | ⟨body, last, hs⟩
    · exact .inr ⟨body, i, by simp [hitems, hs.items], hs.plain, ⟨hw, hi⟩, rfl, hend⟩
    · exact absurd hs.locked (by simp [hb])

end Block

theorem Func.grown_addBlock (f : Func) (label : Option String) : f.Grown (f.addBlock label) := by
  refine ⟨rfl, rfl, rfl, rfl, rfl, rfl, Nat.le_refl _, fun k b hb => ⟨b, ?_, .refl b⟩⟩
  have hlt := (Array.getElem?_eq_some_iff.1 hb).1
  rw [addBlock, Array.getElem?_push, if_neg (by omega), hb]

theorem Func.Sound.addBlock {f : Func} (hf : f.Sound) (label : Option String) : (f.addBlock label).Sound := by
  refine ⟨hf.dropped, fun k b hb => ?_⟩
  rw [Func.addBlock, Array.getElem?_push] at hb
  split at hb
  next hk =>
    cases hb
    exact ⟨by simp [blockCount, hf.dropped, hk], Block.shaped_new _ _⟩
  next => exact hf.blocks k b hb

theorem Program.extends_cursors {p : Program} {cs : Array Cursor}
    (h : ∀ (i : Nat) (c : Cursor), p.cursors[i]? = some c → ∃ d : Cursor, cs[i]? = some d ∧ d.func = c.func) :
    p.Extends { p with cursors := cs } := by
  refine fun hp => ⟨⟨hp.funcs, fun i f hf => ?_, hp.size, hp.listed, hp.found, hp.globals, hp.placed,
    hp.constants⟩, ⟨rfl, rfl, rfl, List.prefix_rfl, List.prefix_rfl, List.prefix_rfl, List.prefix_rfl,
    fun _ f hf => ⟨f, hf, .refl f⟩, h⟩⟩
  obtain ⟨c, hc, hfunc⟩ := hp.cursors i f hf
  obtain ⟨d, hd, hdc⟩ := h _ c hc
  exact ⟨d, hd, hdc.trans hfunc⟩

namespace Emit

variable {α β : Type}

/-- A completed action made the program grow. -/
class Grows (x : Emit α) : Prop where
  extends_of_ok : ∀ {s s' : State} {a : α}, x s = .ok a s' → s.program.Extends s'.program

theorem Grows.of_program_eq {x : Emit α} (h : ∀ s a s', x s = .ok a s' → s'.program = s.program) : Grows x where
  extends_of_ok hx := by
    rw [h _ _ _ hx]
    exact .refl _

instance (a : α) : Grows (pure a : Emit α) :=
  .of_program_eq fun _ _ _ h => by rw [(pure_eq_ok.1 h).2]

instance (e : Fault) : Grows (throw e : Emit α) :=
  .of_program_eq fun _ _ _ h => absurd h throw_ne_ok

instance : Grows (get : Emit State) :=
  .of_program_eq fun _ _ _ h => by rw [(get_eq_ok.1 h).2]

theorem Grows.bind {x : Emit α} {f : α → Emit β} (hx : Grows x) (hf : ∀ a, Grows (f a)) : Grows (x >>= f) where
  extends_of_ok h := by
    obtain ⟨a, s1, hxa, hfa⟩ := bind_eq_ok.1 h
    exact (hx.extends_of_ok hxa).trans ((hf a).extends_of_ok hfa)

instance (x : Emit α) (f : α → Emit β) [Grows x] [∀ a, Grows (f a)] : Grows (x >>= f) :=
  .bind inferInstance inferInstance

instance (x : Emit (Option α)) (f : Option α → Emit β) [Grows x] [hn : Grows (f none)]
    [hs : ∀ a, Grows (f (some a))] : Grows (x >>= f) :=
  .bind inferInstance fun a => by
    cases a with
    | none => exact hn
    | some a => exact hs a

instance (f : α → β) (x : Emit α) [Grows x] : Grows (f <$> x) where
  extends_of_ok h := by
    obtain ⟨a, hx, -⟩ := map_eq_ok.1 h
    exact Grows.extends_of_ok hx

instance (x : Emit α) [Grows x] : Grows (discard x) :=
  inferInstanceAs (Grows ((fun _ => PUnit.unit) <$> x))

instance (c : Prop) [Decidable c] (x y : Emit α) [Grows x] [Grows y] : Grows (if c then x else y) := by
  split <;> infer_instance

instance (x : Except Fault α) : Grows (lift x) :=
  .of_program_eq fun _ _ _ h => by rw [(lift_eq_ok.1 h).2]

instance (x : Option α) (e : Fault) : Grows (expect x e) := by
  cases x with
  | none => exact inferInstanceAs (Grows (throw e))
  | some a => exact inferInstanceAs (Grows (pure a))

instance (x : Build α) [Program.Request x] : Grows (build x) where
  extends_of_ok h := by
    obtain ⟨p, hx, rfl⟩ := build_eq_ok.1 h
    exact Program.Request.extends_of_ok hx

variable {γ : Type}

theorem Grows.forIn (xs : List γ) (f : γ → β → Emit (ForInStep β))
    (h : ∀ a b, Grows (f a b)) (init : β) : Grows (forIn xs init f) := by
  induction xs generalizing init with
  | nil => exact inferInstanceAs (Grows (pure init))
  | cons x xs ih =>
    rw [List.forIn_cons]
    have hstep : ∀ r : ForInStep β, Grows (match r with
        | .done b => pure b
        | .yield b => ForIn.forIn xs b f : Emit β) := by
      rintro (b | b)
      · exact inferInstanceAs (Grows (pure b))
      · exact ih b
    infer_instance

instance (xs : List γ) (f : γ → β → Emit (ForInStep β)) [∀ a b, Grows (f a b)] (init : β) : Grows (forIn xs init f) :=
  .forIn xs f inferInstance init

instance (xs : Array γ) (f : γ → β → Emit (ForInStep β)) [∀ a b, Grows (f a b)] (init : β) :
    Grows (forIn xs init f) := by
  rw [← Array.forIn_toList]
  infer_instance

instance (xs : List γ) (f : γ → Emit β) [∀ a, Grows (f a)] : Grows (xs.mapM f) := by
  induction xs with
  | nil => exact inferInstanceAs (Grows (pure []))
  | cons x xs ih =>
    rw [List.mapM_cons]
    infer_instance

instance (xs : List γ) (f : γ → Emit PUnit) [∀ a, Grows (f a)] : Grows (xs.forM f) := by
  induction xs with
  | nil => exact inferInstanceAs (Grows (pure PUnit.unit))
  | cons x xs ih =>
    exact inferInstanceAs (Grows (f x >>= fun _ => xs.forM f))

instance (xs : List γ) (f : β → γ → Emit β) [∀ a b, Grows (f a b)] (init : β) : Grows (xs.foldlM f init) := by
  induction xs generalizing init with
  | nil => exact inferInstanceAs (Grows (pure init))
  | cons x xs ih =>
    rw [List.foldlM_cons]
    infer_instance

theorem extends_pushValue {p : Program} {i : Nat} {ref : BlockRef} {k : Instr}
    (hk : k.isTerminator = false) (hw : (k.write (p.block ref).locked).2 = none) : p.Extends (pushValue p i ref k) := by
  refine .trans (q := _) (Program.extends_mapBlock fun b hb => Block.extends_push hk ?_)
    (Program.extends_mapFunc fun g hg => ⟨?_, fun hs => ⟨hs.dropped, hs.blocks⟩⟩)
  · rwa [Program.block, hb] at hw
  · exact ⟨rfl, rfl, rfl, rfl, rfl, rfl, Nat.le_succ _, fun _ b hb => ⟨b, hb, .refl b⟩⟩

theorem Grows.assign {mk : Nat → Instr} (h : ∀ n, (mk n).isTerminator = false) : Grows (assign mk) where
  extends_of_ok hok := by
    obtain ⟨ref, f, -, -, hw, -, rfl⟩ := assign_eq_ok.1 hok
    exact extends_pushValue (h _) hw

theorem Ends.extends {s s' : State} {i : Instr} {targets : List BlockRef} {leaves : Bool}
    (h : Ends s s' i targets leaves) (hi : i.isTerminator = true)
    (hend : targets ≠ [] ∨ leaves = true) : s.program.Extends s'.program := by
  obtain ⟨ref, -, hw, rfl⟩ := h
  refine Program.extends_mapBlock fun b hb => Block.extends_endBy hi ?_ hend
  rwa [Program.block, hb] at hw

instance (target : BlockRef) : Grows (branch target) where
  extends_of_ok h := (branch_eq_ok.1 h).2.extends rfl (.inl (by simp))

instance (c : Operand) (yes no : BlockRef) : Grows (condBranch c yes no) where
  extends_of_ok h := (condBranch_eq_ok.1 h).extends rfl (.inl (by simp))

instance (v : Operand) : Grows (ret v) where
  extends_of_ok h := (leave_eq_ok.1 h).extends rfl (.inr rfl)

instance : Grows retVoid where
  extends_of_ok h := (leave_eq_ok.1 h).extends rfl (.inr rfl)

instance : Grows retNull where
  extends_of_ok h := (leave_eq_ok.1 h).extends rfl (.inr rfl)

instance (ref : Option BlockRef) : Grows (moveTo ref) where
  extends_of_ok h := by
    rw [moveTo_eq_ok.1 h]
    refine Program.extends_cursors fun i c hc => ?_
    rw [Array.getElem?_modify, hc]
    split
    next => exact ⟨_, rfl, rfl⟩
    next => exact ⟨c, rfl, rfl⟩

instance (ref : BlockRef) : Grows (setBlock ref) := inferInstanceAs (Grows (moveTo (some ref)))

instance (i : Nat) (label : Option String) : Grows (modifyFunc i (·.addBlock label)) where
  extends_of_ok h := by
    rw [modifyFunc_eq_ok.1 h]
    exact Program.extends_mapFunc fun f _ => ⟨f.grown_addBlock label, fun hf => hf.addBlock label⟩

instance (c : Nat) (x : Emit α) [Grows x] : Grows (withCursor c x) where
  extends_of_ok h := by
    obtain ⟨s1, hx, rfl⟩ := withCursor_eq_ok.1 h
    exact (Grows.extends_of_ok hx : _)

theorem Grows.modify {f : State → State} (h : ∀ s, (f s).program = s.program) : Grows (modify f : Emit PUnit) :=
  .of_program_eq fun s _ _ hx => by
    cases hx
    exact h s

instance : Grows here := by unfold here; infer_instance
instance : Grows hereBlock? := by unfold hereBlock?; infer_instance

instance (i : Nat) (label : Option String) : Grows (addBlock i label) := by
  unfold addBlock; infer_instance
instance (label : Option String) : Grows (createBlock label) := by unfold createBlock; infer_instance

end Emit
end Lowering
