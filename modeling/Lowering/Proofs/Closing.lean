import Lowering.Proofs.Follows.Tree
import Lowering.Proofs.Regime.Emission
import Lowering.Proofs.Successors

/-!
How the blocks of a function are closed. Releasing variables opens new blocks and ends every one it
leaves, so closing one block after the other leaves none open, and a walk over the list of blocks that
grows under way comes to an end.
-/
namespace Lowering

open Emit

variable {α β : Type} {p q : Program} {s s' s'' : State} {r : BlockRef} {i f k : Nat}

/-- A block is there and goes nowhere yet. -/
def Program.OpenAt (p : Program) (r : BlockRef) : Prop :=
  ∃ b, p.blockAt r = some b ∧ b.needsEnd = true

theorem Program.Kept.openAt (h : p.Kept q) (hr : q.OpenAt r) : p.OpenAt r := by
  obtain ⟨b, hb, hend⟩ := hr
  obtain ⟨g, hg, hblock⟩ := Option.bind_eq_some_iff.1 hb
  rcases h.added _ g hg with hold | hnew
  · exact ⟨b, by rw [Program.blockAt, hold]; exact hblock, hend⟩
  · simp [hnew.blocks] at hblock

theorem Program.Kept.openAt_of_openAt (h : p.Kept q) (hr : p.OpenAt r) : q.OpenAt r := by
  obtain ⟨b, hb, hend⟩ := hr
  obtain ⟨g, hg, hblock⟩ := Option.bind_eq_some_iff.1 hb
  exact ⟨b, by rw [blockAt, h.funcs _ g hg]; exact hblock, hend⟩

variable {t : BlockRef}

theorem Program.openAt_mapBlock {g : Block → Block} (hr : (p.mapBlock t g).OpenAt r) : t ≠ r ∧ p.OpenAt r ∨
      t = r ∧ ∃ b, p.blockAt r = some b ∧ (g b).needsEnd = true := by
  obtain ⟨b, hb, hend⟩ := hr
  rw [Program.blockAt_mapBlock] at hb
  split at hb
  next ht =>
    obtain ⟨c, hc, rfl⟩ := Option.map_eq_some_iff.1 hb
    exact .inr ⟨ht, c, hc, hend⟩
  next ht => exact .inl ⟨ht, b, hb, hend⟩

theorem Program.OpenAt.mapBlock {g : Block → Block} (hr : p.OpenAt r)
    (hg : t = r → ∀ b, p.blockAt r = some b → (g b).needsEnd = b.needsEnd) : (p.mapBlock t g).OpenAt r := by
  obtain ⟨b, hb, hend⟩ := hr
  rw [OpenAt, blockAt_mapBlock]
  split
  next ht => exact ⟨g b, by rw [hb]; rfl, (hg ht b hb).trans hend⟩
  next => exact ⟨b, hb, hend⟩

theorem Program.OpenAt.mapFunc {g : Func → Func} (hr : p.OpenAt r)
    (hg : ∀ (h : Func) (k : Nat) (b : Block), h.blocks[k]? = some b → (g h).blocks[k]? = some b) :
    (p.mapFunc i g).OpenAt r := by
  obtain ⟨b, hb, hend⟩ := hr
  obtain ⟨h, hh, hblock⟩ := Option.bind_eq_some_iff.1 hb
  refine ⟨b, ?_, hend⟩
  rw [blockAt, getElem?_mapFunc, hh]
  split
  · exact hg h _ b hblock
  · exact hblock

theorem Program.OpenAt.addBlock {label : Option String} (hr : p.OpenAt r) : (p.mapFunc i (·.addBlock label)).OpenAt r :=
  hr.mapFunc fun _ _ _ hb => getElem?_push_of_some hb

/-- The only block that an added one can be open beside the old ones is the new one. -/
theorem Program.openAt_addBlock {label : Option String} (hr : (p.mapFunc f (·.addBlock label)).OpenAt r) :
    p.OpenAt r ∨ r = ⟨f, (p.funcs[f]?.map (·.blocks.size)).getD 0⟩ := by
  obtain ⟨i, j⟩ := r
  obtain ⟨b, hb, hend⟩ := hr
  rw [Program.blockAt, Program.getElem?_mapFunc] at hb
  split at hb
  next hi =>
    subst hi
    obtain ⟨g, hg, hblock⟩ := Option.bind_eq_some_iff.1 hb
    obtain ⟨h, hh, rfl⟩ := Option.map_eq_some_iff.1 hg
    simp only [Func.addBlock, Array.getElem?_push] at hblock
    split at hblock
    next hj => exact .inr (by rw [hh, hj]; rfl)
    next => exact .inl ⟨b, by rw [Program.blockAt, hh]; exact hblock, hend⟩
  next => exact .inl ⟨b, hb, hend⟩

theorem Block.needsEnd_push {b : Block} {i : Instr} (hw : (i.write b.locked).2 = none) :
    (b.push i).1.needsEnd = b.needsEnd := by
  cases hb : b.locked with
  | true => rw [push_of_locked hb hw]
  | false =>
    rw [push_of_unlocked hb hw]
    rfl

theorem openAt_pushValue {i : Instr}
    (hw : (i.write (p.block t).locked).2 = none) (hr : (pushValue p f t i).OpenAt r) : p.OpenAt r := by
  have hblock : (p.mapBlock t fun b => (b.push i).1).OpenAt r := by
    obtain ⟨b, hb, hend⟩ := hr
    refine ⟨b, ?_, hend⟩
    rw [pushValue, Program.blockAt, Program.getElem?_mapFunc] at hb
    rw [Program.blockAt]
    split at hb
    next hf =>
      obtain ⟨g, hg, hblock⟩ := Option.bind_eq_some_iff.1 hb
      obtain ⟨g', hg', rfl⟩ := Option.map_eq_some_iff.1 hg
      rw [hg']
      exact hblock
    next => exact hb
  rcases Program.openAt_mapBlock hblock with ⟨-, h⟩ | ⟨rfl, b, hb, hend⟩
  · exact h
  · have hwrite : (i.write b.locked).2 = none := by rwa [Program.block, hb] at hw
    rw [Block.needsEnd_push hwrite] at hend
    exact ⟨b, hb, hend⟩

theorem openAt_pushValue_of_openAt {e : Instr} (hw : (e.write (p.block t).locked).2 = none) (hr : p.OpenAt r) :
    (pushValue p f t e).OpenAt r := by
  refine Program.OpenAt.mapFunc (hr.mapBlock fun ht b hb => ?_) fun _ _ _ hb => hb
  subst ht
  rw [Program.block, hb] at hw
  exact Block.needsEnd_push hw

theorem Program.Kept.successors (h : p.Kept q) (r : BlockRef) : q.successors r = p.successors r := by
  rw [Program.successors, Program.successors]
  cases hg : q.funcs[r.func]? with
  | none =>
    cases hg' : p.funcs[r.func]? with
    | none => rfl
    | some g => rw [h.funcs _ g hg'] at hg; cases hg
  | some g =>
    obtain hold | hnew := h.added _ g hg
    · rw [hold]
    · cases hg' : p.funcs[r.func]? with
      | none => rw [Option.elim_some, Func.successors, hnew.blocks]; rfl
      | some g' => rw [h.funcs _ g' hg'] at hg; rw [Option.some.inj hg]

theorem successors_pushValue {i : Instr} (hp : p.Sound) (hq : (pushValue p f t i).Sound)
    (hgrown : p.Grown (pushValue p f t i)) (hw : (i.write (p.block t).locked).2 = none) (r : BlockRef) :
    (pushValue p f t i).successors r = p.successors r := by
  refine hp.successors_eq hq hgrown fun hr => ?_
  have hafter : (pushValue p f t i).blockAt r = if t = r then (p.blockAt r).map (fun b => (b.push i).1) else p.blockAt r := by
    rw [← Program.blockAt_mapBlock]
    exact Program.blockAt_mapFunc _ f (h := fun g => { g with nextValue := g.nextValue + 1 }) (fun _ => rfl) r
  cases hb : p.blockAt r with
  | none =>
    rw [hq.successors, hafter, hb]
    split <;> rfl
  | some b =>
    cases hend : b.needsEnd with
    | false => rw [hp.successors_of_ended hq hgrown hb hend, hr]
    | true =>
      rw [hb] at hafter
      split at hafter
      · next ht =>
        subst ht
        rw [Program.block, hb] at hw
        exact hq.successors_of_needsEnd hafter ((Block.needsEnd_push hw).trans hend)
      · exact hq.successors_of_needsEnd hafter hend

/-- The cursor in use stands in a block of a function. -/
structure State.At (s : State) (i f k : Nat) : Prop where
  cursor : s.cursor = i
  stands : ∃ c : Cursor, s.program.cursors[i]? = some c ∧ c.func = f ∧ c.block = some ⟨f, k⟩

theorem State.At.here (h : s.At i f k) : s.here.func = f ∧ s.here.block = some ⟨f, k⟩ := by
  obtain ⟨c, hc, hfunc, hblock⟩ := h.stands
  rw [State.here, h.cursor, hc]
  exact ⟨hfunc, hblock⟩

/-- What an action leaves that emits into the block in hand only. -/
structure State.Stays (s s' : State) : Prop where
  sound : s'.program.Sound
  grown : s.program.Grown s'.program
  cursor : s'.cursor = s.cursor
  here : ∀ c : Cursor, s.program.cursors[s.cursor]? = some c → s'.program.cursors[s.cursor]? = some c
  opened : ∀ r, s'.program.OpenAt r ↔ s.program.OpenAt r
  successors : ∀ r, s'.program.successors r = s.program.successors r

theorem State.Stays.of_same (hs : s.program.Sound) (hprogram : s'.program = s.program) (hcursor : s'.cursor = s.cursor) :
    s.Stays s' := by
  obtain ⟨hsound, hgrown⟩ : s'.program.Sound ∧ s.program.Grown s'.program := by
    rw [hprogram]
    exact ⟨hs, .refl _⟩
  exact ⟨hsound, hgrown, hcursor, fun _ => by rw [hprogram]; exact id, fun _ => by rw [hprogram], fun _ => by rw [hprogram]⟩

theorem State.Stays.refl (hs : s.program.Sound) : s.Stays s := .of_same hs rfl rfl

theorem State.Stays.trans (h : s.Stays s') (h' : s'.Stays s'') : s.Stays s'' where
  sound := h'.sound
  grown := h.grown.trans h'.grown
  cursor := h'.cursor.trans h.cursor
  here c hc := h.cursor ▸ h'.here c (h.cursor.symm ▸ h.here c hc)
  opened r := (h'.opened r).trans (h.opened r)
  successors r := (h'.successors r).trans (h.successors r)

/-- What an action leaves that goes from block to block: the only block that may be left open, beside
those that were not in hand, is the one it ends in. -/
structure State.Moves (s s' : State) (i f k k' : Nat) : Prop where
  sound : s'.program.Sound
  grown : s.program.Grown s'.program
  at_ : s'.At i f k'
  opened : ∀ j, s'.program.OpenAt ⟨f, j⟩ → j = k' ∨ s.program.OpenAt ⟨f, j⟩ ∧ j ≠ k
  onward : ∀ g, s.program.funcs[f]? = some g → Program.Onward f s.program s'.program

theorem State.Stays.moves (h : s.Stays s') (hs : s.At i f k) : s.Moves s' i f k k where
  sound := h.sound
  grown := h.grown
  at_ := by
    obtain ⟨rfl, c, hc, hrest⟩ := hs
    exact ⟨h.cursor, c, h.here c hc, hrest⟩
  opened j hj := by
    by_cases hk : j = k
    · exact .inl hk
    · exact .inr ⟨(h.opened _).1 hj, hk⟩
  onward _ _ r := .inl (h.successors r)

theorem State.Moves.trans {k' k'' : Nat} (h : s.Moves s' i f k k') (h' : s'.Moves s'' i f k' k'') :
    s.Moves s'' i f k k'' where
  sound := h'.sound
  grown := h.grown.trans h'.grown
  at_ := h'.at_
  opened j hj := by
    rcases h'.opened j hj with hj | ⟨hj, hne⟩
    · exact .inl hj
    · rcases h.opened j hj with hj | hj
      · exact absurd hj hne
      · exact .inr hj
  onward g hg := by
    obtain ⟨g', hg', -⟩ := h.grown.funcs f g hg
    exact (h.onward g hg).trans (h'.onward g' hg') h.grown

namespace Emit

/-- An action that emits into the block in hand only. -/
class Stays (x : Emit α) : Prop where
  stays : ∀ {s s' : State} {a : α}, s.program.Sound → x s = .ok a s' → s.Stays s'

/-- An action that goes from block to block and leaves none of them open. -/
class Moves (x : Emit α) : Prop where
  moves : ∀ {s s' : State} {a : α} {i f k : Nat}, s.program.Sound → s.At i f k → x s = .ok a s' →
    ∃ k', s.Moves s' i f k k'

instance (x : Emit α) [Stays x] : Moves x where
  moves hs hat h := ⟨_, (Stays.stays hs h).moves hat⟩

section Rules

instance (x : Build α) [Program.Request x] : Stays (build x) where
  stays hs h := by
    obtain ⟨p, hx, rfl⟩ := build_eq_ok.1 h
    obtain ⟨hp, hgrown⟩ := Program.Request.extends_of_ok hx hs
    have hkept := Program.Request.kept hs hx
    exact ⟨hp, hgrown, rfl, hkept.cursors _, fun r => ⟨hkept.openAt, hkept.openAt_of_openAt⟩, hkept.successors⟩

theorem stays_assign {mk : Nat → Instr} (hmk : ∀ n, (mk n).isTerminator = false) : Stays (assign mk) where
  stays hs h := by
    obtain ⟨hp, hgrown⟩ := (Grows.assign hmk).extends_of_ok h hs
    obtain ⟨t, g, -, -, hw, -, rfl⟩ := assign_eq_ok.1 h
    exact ⟨hp, hgrown, rfl, fun _ hc => hc, fun _ => ⟨openAt_pushValue hw, openAt_pushValue_of_openAt hw⟩,
      successors_pushValue hs hp hgrown hw⟩

variable {start : State}

theorem heeds_stays (x : Emit α) [Stays x] : Heeds (.lasting start.Stays) x :=
  heeds_lasting fun hs h => hs.trans (Stays.stays hs.sound h)

/-- A variable is made in the entry block, after which code goes on where it went before. -/
instance (type : MachineType) (nulled : Bool) : Stays (entryVar type nulled) where
  stays {s s' a} hs hrun := by
    obtain ⟨hsound, hgrown⟩ := Grows.extends_of_ok hrun hs
    obtain ⟨entry, s3, s5, -, h3, hbody, h5⟩ := entryVar_eq_ok.1 hrun
    have hs3 : s3.program.Sound := (Grows.extends_of_ok h3 hs).1
    have hmoved := moveTo_eq_ok.1 h3
    have : Heeds (.lasting s3.Stays) (slotBody type nulled) := heeds_slotBody fun _ hmk _ =>
      have := stays_assign hmk
      heeds_stays _
    have hstay : s3.Stays s5 := holds_of_ok (R := .lasting s3.Stays) (.refl hs3) hbody
    have hback := moveTo_eq_ok.1 h5
    have hcursor : s3.cursor = s.cursor := by rw [hmoved]; rfl
    refine ⟨hsound, hgrown, ?_, fun c hc => ?_, fun r => ?_, fun r => ?_⟩
    · rw [hback]
      exact hstay.cursor.trans hcursor
    · have hc3 : s3.program.cursors[s3.cursor]? = some { c with block := some entry } := by
        rw [hmoved]
        simp [State.withProgram, Array.getElem?_modify, hc]
      have hblock : s.here.block = c.block := by rw [State.here, hc]; rfl
      rw [hback, ← hcursor, ← hstay.cursor]
      simp [State.withProgram, Array.getElem?_modify, hstay.cursor, hstay.here _ hc3, hblock]
    · rw [hback]
      refine (hstay.opened r).trans ?_
      rw [hmoved]
      exact .rfl
    · rw [hback]
      refine (hstay.successors r).trans ?_
      rw [hmoved]
      rfl

instance : (Regime.lasting start.Stays).Computes :=
  Regime.computes_of_same (fun hs hprogram hcursor _ _ _ _ => hs.trans (.of_same hs.sound hprogram hcursor)) (fun _ => heeds_stays _)
    (fun _ hend _ => have := stays_assign hend; heeds_stays _) fun _ _ => heeds_stays _

instance : (Regime.lasting start.Stays).Calls where
  call id args := have : Stays (assign (.call id args)) := stays_assign fun _ => rfl; heeds_stays _

instance : (Regime.lasting start.Stays).Notes where
  note _ := heeds_lasting fun hs h => by cases h; exact hs.trans (.of_same hs.sound rfl rfl)

instance (priority := low) (x : Emit α) [∀ start : State, Heeds (.lasting start.Stays) x] : Stays x :=
  ⟨fun hs h => holds_of_ok (R := .lasting (State.Stays _)) (.refl hs) h⟩

instance (x : Emit α) (g : α → Emit β) [Moves x] [∀ a, Moves (g a)] : Moves (x >>= g) where
  moves hs hat h := by
    obtain ⟨a, s1, hx, hg⟩ := bind_eq_ok.1 h
    obtain ⟨k', h1⟩ := Moves.moves hs hat hx
    obtain ⟨k'', h2⟩ := Moves.moves h1.sound h1.at_ hg
    exact ⟨k'', h1.trans h2⟩

instance (c : Prop) [Decidable c] (x y : Emit α) [Moves x] [Moves y] : Moves (if c then x else y) := by
  split <;> infer_instance

theorem Moves.forIn {γ : Type} (xs : List γ) (g : γ → β → Emit (ForInStep β))
    (hg : ∀ a b, Moves (g a b)) (init : β) : Moves (forIn xs init g) := by
  induction xs generalizing init with
  | nil => exact inferInstanceAs (Moves (pure init))
  | cons x xs ih =>
    refine ⟨fun hs hat h => ?_⟩
    rw [List.forIn_cons] at h
    obtain ⟨step, s1, hx, hrest⟩ := bind_eq_ok.1 h
    obtain ⟨k', h1⟩ := (hg x init).moves hs hat hx
    cases step with
    | done b =>
      obtain ⟨-, rfl⟩ := pure_eq_ok.1 hrest
      exact ⟨k', h1⟩
    | yield b =>
      obtain ⟨k'', h2⟩ := (ih b).moves h1.sound h1.at_ hrest
      exact ⟨k'', h1.trans h2⟩

end Rules

theorem state_of_currentImpl {m : Nat} (h : currentImpl s = .ok m s') : s' = s := by
  rw [currentImpl, get_bind_run] at h
  cases hl : s.lowerer <;> rw [hl] at h
  case bare => exact absurd h throw_ne_ok
  all_goals exact (pure_eq_ok.1 h).2

theorem Ends.opened {e : Instr} {targets : List BlockRef} {leaves : Bool} (h : Ends s s' e targets leaves)
    (hend : targets ≠ [] ∨ leaves = true) (hat : s.At i f k) {j : Nat}
    (hj : s'.program.OpenAt ⟨f, j⟩) : s.program.OpenAt ⟨f, j⟩ ∧ j ≠ k := by
  obtain ⟨t, ht, -, rfl⟩ := h
  cases ht.symm.trans hat.here.2
  rcases Program.openAt_mapBlock hj with ⟨hne, hj⟩ | ⟨-, b, -, hopen⟩
  · exact ⟨hj, fun hjk => hne (by rw [hjk])⟩
  · rw [Block.needsEnd_endBy hend] at hopen
    cases hopen

theorem Ends.at_ {e : Instr} {targets : List BlockRef} {leaves : Bool} (h : Ends s s' e targets leaves)
    (hat : s.At i f k) : s'.At i f k := by
  obtain ⟨t, -, -, rfl⟩ := h
  exact ⟨hat.cursor, hat.stands⟩

theorem at_setBlock (hi : s.cursor = i) (hc : ∃ c : Cursor, s.program.cursors[i]? = some c ∧ c.func = f)
    (hs : setBlock ⟨f, k⟩ s = .ok () s') : s'.At i f k := by
  obtain ⟨c, hc, hfunc⟩ := hc
  subst hi
  rw [moveTo_eq_ok.1 hs]
  refine ⟨rfl, { c with block := some ⟨f, k⟩ }, ?_, hfunc, rfl⟩
  simp [State.withProgram, Array.getElem?_modify, hc]

theorem at_setBlock_of_at (h : s.At i f k) {k' : Nat} (hs : Emit.setBlock ⟨f, k'⟩ s = .ok () s') : s'.At i f k' :=
  at_setBlock h.cursor (h.stands.imp fun _ hc => ⟨hc.1, hc.2.1⟩) hs

theorem openAt_setBlock {t : BlockRef} (hs : setBlock t s = .ok () s') (hr : s'.program.OpenAt r) :
    s.program.OpenAt r := by
  rw [moveTo_eq_ok.1 hs] at hr
  exact hr

theorem createBlock_opened {label : Option String} (hat : s.At i f k)
    (h : createBlock label s = .ok r s') : (∃ n, r = ⟨f, n⟩) ∧ s'.At i f k ∧
      ∀ t, s'.program.OpenAt t → s.program.OpenAt t ∨ t = r := by
  obtain ⟨hr, rfl⟩ := createBlock_eq_ok.1 h
  rw [hat.here.1] at hr
  refine ⟨⟨_, hr⟩, ⟨hat.cursor, hat.stands⟩, fun t ht => ?_⟩
  rw [hr]
  exact Program.openAt_addBlock (hat.here.1 ▸ ht)

theorem createBlock_added {g : Func} {label : Option String} (hat : s.At i f k) (hg : s.program.funcs[f]? = some g)
    (h : createBlock label s = .ok r s') : r = ⟨f, g.blocks.size⟩ ∧ s'.program.funcs[f]? = some (g.addBlock label) ∧
      ∀ t, s'.program.successors t = s.program.successors t := by
  obtain ⟨hr, rfl⟩ := createBlock_eq_ok.1 h
  rw [hat.here.1, hg] at hr
  refine ⟨hr, ?_, Program.successors_addBlock s.here.func label⟩
  rw [hat.here.1]
  exact Program.getElem?_mapFunc_self hg

variable {v : Operand}

/-- A release opens a block where the count is lowered and one to go on in. -/
theorem releaseCounted_stages {t : ValueType} {u : Unit} (hs : s.program.Sound) (h : releaseCounted t v s = .ok u s') :
    ∃ present rest isNull s1 s2 s5 s6 s7 s8 s9, createBlock (some "Value Not Null") s = .ok present s1 ∧
      createBlock (some "After Ref Decrement") s1 = .ok rest s2 ∧
      s2.Stays s5 ∧ condBranch isNull rest present s5 = .ok () s6 ∧ setBlock present s6 = .ok () s7 ∧ s7.Stays s8 ∧
        branch rest s8 = .ok () s9 ∧ setBlock rest s9 = .ok () s' := by
  obtain ⟨present, s1, h1, h⟩ := bind_eq_ok.1 h
  have hs1 := (Grows.extends_of_ok h1 hs).1
  obtain ⟨rest, s2, h2, h⟩ := bind_eq_ok.1 h
  have hs2 := (Grows.extends_of_ok h2 hs1).1
  obtain ⟨type, s3, h3, h⟩ := bind_eq_ok.1 h
  obtain ⟨zero, s4, h4, h⟩ := bind_eq_ok.1 h
  obtain ⟨isNull, s5, h5, h⟩ := bind_eq_ok.1 h
  have hstay3 := Stays.stays hs2 h3
  have hstay4 := hstay3.trans (Stays.stays hstay3.sound h4)
  have hstay5 := hstay4.trans (Stays.stays hstay4.sound h5)
  obtain ⟨_, s6, h6, h⟩ := bind_eq_ok.1 h
  have hs6 := (Grows.extends_of_ok h6 hstay5.sound).1
  obtain ⟨_, s7, h7, h⟩ := bind_eq_ok.1 h
  have hs7 := (Grows.extends_of_ok h7 hs6).1
  obtain ⟨_, s8, h8, h⟩ := bind_eq_ok.1 h
  obtain ⟨_, s9, h9, h10⟩ := bind_eq_ok.1 h
  exact ⟨present, rest, isNull, s1, s2, s5, s6, s7, s8, s9, h1, h2, hstay5, h6, h7, Stays.stays hs7 h8, h9, h10⟩

/-- Of the two blocks that a release opens, one is ended and the code goes on in the other. What is
ended goes on at the two. -/
theorem releaseCounted_moves {t : ValueType} {u : Unit} (hs : s.program.Sound)
    (hat : s.At i f k) (h : releaseCounted t v s = .ok u s') : ∃ k', s.Moves s' i f k k' := by
  have hgrows := Grows.extends_of_ok h hs
  obtain ⟨present, rest, isNull, s1, s2, s5, s6, s7, s8, s9, h1, h2, hstay5, h6, h7, hstay8, h9, h10⟩ :=
    releaseCounted_stages hs h
  obtain ⟨⟨n, rfl⟩, hat1, hopen1⟩ := createBlock_opened hat h1
  obtain ⟨⟨m, rfl⟩, hat2, hopen2⟩ := createBlock_opened hat1 h2
  have hat5 := (hstay5.moves hat2).at_
  have hends6 := condBranch_eq_ok.1 h6
  have hat7 := at_setBlock_of_at (hends6.at_ hat5) h7
  have hat8 := (hstay8.moves hat7).at_
  have hends9 := (branch_eq_ok.1 h9).2
  refine ⟨m, hgrows.1, hgrows.2, at_setBlock_of_at (hends9.at_ hat8) h10, fun j hj => ?_, fun g hg => ?_⟩
  · -- back along the run: neither the block in hand nor the first new one is open any more
    obtain ⟨hj, hjn⟩ := hends9.opened (.inl (by simp)) hat8 (openAt_setBlock h10 hj)
    obtain ⟨hj, hjk⟩ := hends6.opened (.inl (by simp)) hat5
      (openAt_setBlock h7 ((hstay8.opened _).1 hj))
    rcases hopen2 _ ((hstay5.opened _).1 hj) with hj | hj
    · rcases hopen1 _ hj with hj | hj
      · exact .inr ⟨hj, hjk⟩
      · cases hj
        exact absurd rfl hjn
    · cases hj
      exact .inl rfl
  · obtain ⟨hn, hg1, hsame1⟩ := createBlock_added hat hg h1
    obtain ⟨hm, hg2, hsame2⟩ := createBlock_added hat1 hg1 h2
    cases hn
    cases hm
    have hs6 := Grows.extends_of_ok h6 hstay5.sound
    have hs7 := Grows.extends_of_ok h7 hs6.1
    have hgrown8 := hstay5.grown.trans (hs6.2.trans (hs7.2.trans hstay8.grown))
    -- the numbers of the two blocks are their places, which are behind the others
    have hnumber : ∀ {p : Program} {j : Nat}, p.Sound → s2.program.Grown p → g.blocks.size ≤ j → j ≤ g.blocks.size + 1 →
        s.program.width f ≤ (p.block ⟨f, j⟩).id := by
      intro p j hp hgrown hle hlt
      have hwidth : s.program.width f = g.blocks.size := by rw [Program.width, hg]; rfl
      have hwidth2 : s2.program.width f = g.blocks.size + 2 := by
        rw [Program.width, hg2]
        simp [Func.addBlock]
      have hle' := hgrown.width_le f
      rw [hp.block_id (by dsimp only; omega), hwidth]
      exact hle
    have honward5 : Program.Onward f s.program s5.program := fun r =>
      .inl ((hstay5.successors r).trans ((hsame2 r).trans (hsame1 r)))
    have honward6 : Program.Onward f s.program s6.program := by
      refine honward5.step fun r => (hends6.successors_or hstay5.sound hs6.1 rfl r).imp_right fun hr k hk => ?_
      rw [hr.2.2, Instr.targets, List.mem_pair] at hk
      obtain rfl | rfl := hk
      · exact hnumber hstay5.sound hstay5.grown (by simp [Func.addBlock]) (by simp [Func.addBlock])
      · exact hnumber hstay5.sound hstay5.grown (Nat.le_refl _) (Nat.le_succ _)
    have honward8 : Program.Onward f s.program s8.program := by
      refine honward6.step fun r => .inl ((hstay8.successors r).trans ?_)
      rw [moveTo_eq_ok.1 h7]
      rfl
    have hs9 := (Grows.extends_of_ok h9 hstay8.sound).1
    have honward9 : Program.Onward f s.program s9.program := by
      refine honward8.step fun r => (hends9.successors_or hstay8.sound hs9 rfl r).imp_right fun hr k hk => ?_
      rw [hr.2.2, Instr.targets, List.mem_singleton] at hk
      rw [hk]
      exact hnumber hstay8.sound hgrown8 (by simp [Func.addBlock]) (by simp [Func.addBlock])
    rw [moveTo_eq_ok.1 h10]
    exact honward9

instance (t : ValueType) : Moves (releaseCounted t v) := ⟨releaseCounted_moves⟩

instance (type : Option ValueType) : Moves (releaseNullable type v) := by
  unfold releaseNullable
  cases type <;> infer_instance

instance (v : Variable) : Moves (releaseVariable v) := by
  unfold releaseVariable
  split
  · split
    · cases v.slot with
      | value w => cases w <;> simp only [Follows.throw_bind] <;> infer_instance
      | _ => simp only [Follows.throw_bind]; infer_instance
    · cases v.slot with
      | value w => cases w <;> simp only [Follows.throw_bind, pure_bind] <;> infer_instance
      | _ => simp only [Follows.throw_bind]; infer_instance
  · infer_instance

instance : Moves releaseVariables := by
  unfold releaseVariables
  have hloop : ∀ vs : List Nat, Moves (forIn vs PUnit.unit fun i _ => do
      releaseVariable (← varAt i)
      pure (ForInStep.yield PUnit.unit) : Emit PUnit) :=
    fun vs => .forIn vs _ (fun i u => inferInstance) _
  infer_instance

end Emit

namespace Lower

variable {g : Func} {result : MachineType}

/-- Closing a block leaves open what was open beside it. What it ends goes on at new blocks. -/
theorem closeBlock_opened (hs : s.program.Sound) (hg : s.program.funcs[f]? = some g) (hcursor : s.cursor = g.cursor)
    (h : closeBlock g.cursor result ⟨f, k⟩ s = .ok () s') :
    s'.cursor = s.cursor ∧ Program.Onward f s.program s'.program ∧
      ∀ j, s'.program.OpenAt ⟨f, j⟩ → s.program.OpenAt ⟨f, j⟩ ∧ j ≠ k := by
  have hs' := (Grows.extends_of_ok h hs).1
  rw [closeBlock] at h
  obtain ⟨b, s0, hb, h⟩ := bind_eq_ok.1 h
  rw [(block_eq_ok.1 hb).1, (block_eq_ok.1 hb).2] at h
  split at h
  next hend =>
    obtain ⟨_, s2, h2, h⟩ := bind_eq_ok.1 h
    have hs2 := (Grows.extends_of_ok h2 hs).1
    obtain ⟨s1, hset, rfl⟩ := withCursor_eq_ok.1 h2
    rw [← hcursor] at hset
    have hat2 := at_setBlock hcursor (hs.cursors f g hg) hset
    obtain ⟨_, s3, h3, h⟩ := bind_eq_ok.1 h
    obtain ⟨k', hmoves⟩ := Moves.moves hs2 (show State.At _ g.cursor f k from ⟨hcursor, hat2.stands⟩) h3
    have hopen : ∀ s' : State, (∀ j, s'.program.OpenAt ⟨f, j⟩ → s3.program.OpenAt ⟨f, j⟩ ∧ j ≠ k') →
        ∀ j, s'.program.OpenAt ⟨f, j⟩ → s.program.OpenAt ⟨f, j⟩ ∧ j ≠ k := by
      intro s' hlast j hj
      obtain ⟨hj, hne⟩ := hlast j hj
      rcases hmoves.opened j hj with hj | ⟨hj, hk⟩
      · exact absurd hj hne
      · exact ⟨openAt_setBlock hset hj, hk⟩
    have honward : Program.Onward f s.program s3.program := by
      rw [moveTo_eq_ok.1 hset] at hmoves
      exact hmoves.onward g hg
    split at h
    next =>
      obtain ⟨s4, hret, rfl⟩ := withCursor_eq_ok.1 h
      have hat3 : State.At { s3 with cursor := g.cursor } g.cursor f k' := ⟨rfl, hmoves.at_.stands⟩
      refine ⟨hmoves.at_.cursor.trans hcursor.symm, honward.step ?_, hopen _ fun j hj => ?_⟩
      · exact fun r => ((leave_eq_ok.1 hret).successors_or hmoves.sound hs' rfl r).imp_right fun hr k hk => by
          rw [hr.2.2] at hk
          cases hk
      exact (leave_eq_ok.1 hret).opened (.inr rfl) hat3 hj
    next =>
      obtain ⟨i, s4, h4, h⟩ := bind_eq_ok.1 h
      obtain ⟨nothing, s5, h5, h⟩ := bind_eq_ok.1 h
      obtain ⟨_, s6, h6, h⟩ := bind_eq_ok.1 h
      obtain ⟨_, s7, h7, hret⟩ := bind_eq_ok.1 h
      have hstay4 := Stays.stays hmoves.sound h4
      have hstay5 := hstay4.trans (Stays.stays hstay4.sound h5)
      have hstay6 := hstay5.trans (Stays.stays hstay5.sound h6)
      have hstay7 := hstay6.trans (Stays.stays hstay6.sound h7)
      have hat7 := (hstay7.moves hmoves.at_).at_
      have hends := leave_eq_ok.1 hret
      refine ⟨(hends.at_ hat7).cursor.trans hcursor.symm, (honward.step fun r => .inl (hstay7.successors r)).step ?_,
        hopen _ fun j hj => ?_⟩
      · exact fun r => (hends.successors_or hstay7.sound hs' rfl r).imp_right fun hr k hk => by
          rw [hr.2.2] at hk
          cases hk
      obtain ⟨hj, hne⟩ := hends.opened (.inr rfl) hat7 hj
      exact ⟨(hstay7.opened _).1 hj, hne⟩
  next hend =>
    obtain ⟨-, rfl⟩ := pure_eq_ok.1 h
    refine ⟨rfl, .refl _ _, fun j hj => ⟨hj, ?_⟩⟩
    rintro rfl
    obtain ⟨b, hb, hopen⟩ := hj
    rw [Program.block, hb] at hend
    exact hend hopen

theorem closeBlock_of_closed {c : Nat} (hg : s.program.funcs[f]? = some g) (hk : k < g.blocks.size)
    (hclosed : ¬ s.program.OpenAt ⟨f, k⟩) : closeBlock c result ⟨f, k⟩ s = .ok () s := by
  have hb : s.program.blockAt ⟨f, k⟩ = some g.blocks[k] := by
    rw [Program.blockAt, hg]
    exact Array.getElem?_eq_getElem hk
  have hend : (s.program.block ⟨f, k⟩).needsEnd = false := by
    rw [Program.block, hb]
    exact Bool.eq_false_iff.2 fun h => hclosed ⟨_, hb, h⟩
  refine bind_eq_ok.2 ⟨_, s, block_eq_ok.2 ⟨rfl, rfl⟩, ?_⟩
  rw [hend]
  rfl

/-- A walk over the blocks of a function from one of them on, which also goes over the blocks that are
added under way. -/
inductive Sweep (f : Nat) (visit : BlockRef → Emit Unit) : Nat → State → State → Prop
  | done {k : Nat} {s : State} {g : Func} (hg : s.program.funcs[f]? = some g)
      (hk : g.blocks.size ≤ k) : Sweep f visit k s s
  | next {k : Nat} {s s₁ s' : State} {g : Func} (hg : s.program.funcs[f]? = some g)
      (hk : k < g.blocks.size) (h : visit ⟨f, k⟩ s = .ok () s₁) (rest : Sweep f visit (k + 1) s₁ s') :
      Sweep f visit k s s'

theorem sweep_of_closed {c : Nat}
    (hg : s.program.funcs[f]? = some g) (hclosed : ∀ j, ¬ s.program.OpenAt ⟨f, j⟩) (k : Nat) :
    Sweep f (closeBlock c result) k s s := by
  rcases Nat.lt_or_ge k g.blocks.size with hk | hk
  · exact .next hg hk (closeBlock_of_closed hg hk (hclosed k)) (sweep_of_closed hg hclosed (k + 1))
  · exact .done hg hk
termination_by g.blocks.size - k

/-- Closing the blocks from one to another, when no others are open, leaves none open. The blocks that
are added behind them need no closing, so the walk goes over all there are in the end. -/
theorem close_range {n : Nat} (hs : s.program.Sound)
    (hg : s.program.funcs[f]? = some g) (hcursor : s.cursor = g.cursor) (hsize : k + n ≤ g.blocks.size)
    (hopen : ∀ j, s.program.OpenAt ⟨f, j⟩ → k ≤ j ∧ j < k + n) (h : (forIn (List.range' k n) PUnit.unit fun j _ => do
      closeBlock g.cursor result ⟨f, j⟩
      pure (ForInStep.yield PUnit.unit) : Emit PUnit) s = .ok PUnit.unit s') :
    (∀ j, ¬ s'.program.OpenAt ⟨f, j⟩) ∧ Sweep f (closeBlock g.cursor result) k s s' ∧
      Program.Onward f s.program s'.program := by
  induction n generalizing s k g with
  | zero =>
    have hclosed : ∀ j, ¬ s.program.OpenAt ⟨f, j⟩ := fun j hj => by
      have := hopen j hj
      omega
    obtain ⟨-, rfl⟩ := pure_eq_ok.1 h
    exact ⟨hclosed, sweep_of_closed hg hclosed k, .refl _ _⟩
  | succ n ih =>
    rw [List.range'_succ, List.forIn_cons] at h
    obtain ⟨_, s1, hround, hrest⟩ := bind_eq_ok.1 h
    obtain ⟨_, s2, hclose, hyield⟩ := bind_eq_ok.1 hround
    obtain ⟨rfl, rfl⟩ := pure_eq_ok.1 hyield
    obtain ⟨hcursor1, honward1, hopen1⟩ := closeBlock_opened hs hg hcursor hclose
    obtain ⟨hs1, hgrown⟩ := Grows.extends_of_ok hclose hs
    obtain ⟨g1, hg1, hgg1⟩ := hgrown.funcs f g hg
    have hle := hgg1.size_le
    rw [← hgg1.cursor] at hrest hclose hcursor ⊢
    obtain ⟨hclosed, hsweep, honward⟩ := ih hs1 hg1 (hcursor1.trans hcursor) (by omega) (fun j hj => by
      obtain ⟨hj, hne⟩ := hopen1 j hj
      have := hopen j hj
      omega) hrest
    exact ⟨hclosed, .next hg (by omega) hclose hsweep, honward1.trans honward hgrown⟩

/-- When the blocks of a function have been closed, none of them is open, and the walk over the list of
its blocks has ended. What has been closed goes on at blocks that are new. -/
theorem closeBlocks_closed {m : Nat} (hs : s.program.Sound) (hm : currentImpl s = .ok m s)
    (hcode : (s.impls[m]?.getD default).code = some f) (hg : s.program.funcs[f]? = some g)
    (hcursor : s.cursor = g.cursor) (h : closeBlocks s = .ok () s') :
    (∀ j, ¬ s'.program.OpenAt ⟨f, j⟩) ∧ Sweep f (closeBlock g.cursor g.result) 0 s s' ∧
      Program.Onward f s.program s'.program := by
  rw [closeBlocks] at h
  obtain ⟨m', s1, hm', h⟩ := bind_eq_ok.1 h
  cases hm.symm.trans hm'
  obtain ⟨impl, s2, himpl, h⟩ := bind_eq_ok.1 h
  obtain ⟨rfl, rfl⟩ := pure_eq_ok.1 himpl
  rw [hcode] at h
  simp only [expect, pure_bind, get_bind_run, hg, Option.getD_some, (hs.funcs f g hg).dropped,
    Nat.zero_le, if_true] at h
  obtain ⟨_, s3, hloop, hlast⟩ := bind_eq_ok.1 h
  obtain ⟨-, rfl⟩ := pure_eq_ok.1 hlast
  refine close_range hs hg hcursor (Nat.le_of_eq (Nat.zero_add _)) (fun j hj => ?_)
    (by rw [← List.range_eq_range']; exact hloop)
  obtain ⟨b, hb, -⟩ := hj
  rw [Program.blockAt, hg] at hb
  have hlt : j < g.blocks.size := (Array.getElem?_eq_some_iff.1 hb).1
  omega

end Lower
end Lowering
