import Lowering.Proofs.BuilderCalls
import Lowering.Proofs.PoolOrder

/-!
The predecessors of a block, as they are listed and as they are written. A branch that is ordered in a block
that has ended already is not written, but it is listed: the list is that of the written branches just if
every such branch repeats one that is written.
-/
namespace Lowering

namespace Block

/-- The written end of the block goes on at the block of a number. -/
def goesTo (b : Block) (id : Nat) : Bool := b.terminator?.any (·.targets.contains id)

end Block

namespace Func

/-- The block is one of the function, and no clearing has discarded it. -/
def Live (f : Func) (self : Nat) (r : BlockRef) : Prop :=
  r.func = self ∧ f.dropped ≤ r.index ∧ r.index < f.blocks.size

instance (f : Func) (self : Nat) (r : BlockRef) : Decidable (f.Live self r) :=
  inferInstanceAs (Decidable (_ ∧ _))

/-- The live blocks of the function whose written end goes on at a block. -/
def writtenPredecessors (f : Func) (self : Nat) (target : BlockRef) : List BlockRef :=
  (List.range f.blocks.size).filterMap fun i =>
    if f.dropped ≤ i && f.blocks[i]?.any (·.goesTo (f.blocks[target.index]?.getD default).id)
      then some ⟨self, i⟩ else none

end Func

/-- A call of the builder of a function. -/
inductive BuilderCall
  | order (o : Order)
  | createBlock (label : Option String)
  | setBlock (ref : Option BlockRef)

/-- The blocks that an order goes on at. -/
def Order.targets : Order → List BlockRef
  | branch target => [target]
  | condBranch _ yes no => [yes, no]
  | _ => []

namespace BuilderCall

def run : BuilderCall → Emit Unit
  | order o => o.run
  | createBlock label => discard (Emit.createBlock label)
  | setBlock ref => Emit.moveTo ref

/-- The blocks that a call names. -/
def refs : BuilderCall → List BlockRef
  | order o => o.targets
  | createBlock _ => []
  | setBlock ref => ref.toList

/-- The branches that a call lists without writing them: those of a block that has ended before, each from
the block to where it goes. A call that fails lists none. -/
def unwritten (c : BuilderCall) (s : State) : List (BlockRef × BlockRef) :=
  match c, s.here.block, c.run s with
  | order o, some ref, .ok _ _ => if (s.program.block ref).locked then o.targets.map (ref, ·) else []
  | _, _, _ => []

/-- What the calls leave, one after the other. A call that fails stops none that come later. -/
def leftByAll : List BuilderCall → State → State
  | [], s => s
  | c :: cs, s => leftByAll cs (leftBy (c.run s))

/-- The branches that the calls list without writing them. -/
def unwrittenAll : List BuilderCall → State → List (BlockRef × BlockRef)
  | [], _ => []
  | c :: cs, s => c.unwritten s ++ unwrittenAll cs (leftBy (c.run s))

/-- Every call names live blocks of the function, as they are when it is made. -/
def Named (func : Nat) : List BuilderCall → State → Prop
  | [], _ => True
  | c :: cs, s => (∀ r ∈ c.refs, ∃ f ∈ s.program.funcs[func]?, f.Live func r) ∧ Named func cs (leftBy (c.run s))

instance decidableNamed (func : Nat) : (cs : List BuilderCall) → (s : State) → Decidable (Named func cs s)
  | [], _ => inferInstanceAs (Decidable True)
  | c :: cs, s =>
    have := decidableNamed func cs (leftBy (c.run s))
    inferInstanceAs (Decidable (_ ∧ _))

end BuilderCall

namespace Block

variable {func d : Nat} {w : List (BlockRef × BlockRef)} {r : BlockRef} {b : Block}

/-- The listed branches of a block are those that are written and those of a list beside. Until the block has
ended there are none. -/
structure Listed (func d : Nat) (w : List (BlockRef × BlockRef)) (r : BlockRef) (b : Block) : Prop where
  id : b.id = r.index - d
  opened : b.locked = false → b.branches = #[] ∧ b.terminator? = none ∧ ∀ t, (r, t) ∉ w
  listed : ∀ t, t ∈ b.branches ↔ (t.func = func ∧ d ≤ t.index ∧ b.goesTo (t.index - d)) ∨ (r, t) ∈ w

theorem Listed.of_same {c : Block} (h : b.Listed func d w r) (hid : c.id = b.id) (hlocked : c.locked = b.locked)
    (hbranches : c.branches = b.branches) (hend : c.terminator? = b.terminator?) : c.Listed func d w r := by
  refine ⟨hid.trans h.id, fun hc => ?_, fun t => ?_⟩
  · rw [hbranches, hend]
    exact h.opened (hlocked ▸ hc)
  · rw [hbranches, goesTo, hend]
    exact h.listed t

/-- What is written of an instruction ends no block, unless it is the whole of one that does. -/
theorem Listed.push (h : b.Listed func d w r) {i : Instr}
    (hi : i.isTerminator = true → (i.write b.locked).2 ≠ none) : (b.push i).1.Listed func d w r := by
  rw [Block.push]
  split
  next bs fault hw =>
    refine h.of_same rfl rfl rfl ?_
    rw [terminator?_push]
    exact Option.or_none
  next bs hw =>
    split
    · exact h
    · refine h.of_same rfl rfl rfl ?_
      have hplain : i.isTerminator = false := by
        cases hend : i.isTerminator with
        | false => rfl
        | true => exact absurd (by rw [hw]) (hi hend)
      rw [terminator?_push, Item.terminator?, hplain]
      exact Option.or_none

/-- The end of a block is written if it is the first; a later one goes into the list beside. -/
theorem Listed.endBy (h : b.Listed func d w r) {i : Instr} {ts : List BlockRef} (leaves : Bool)
    (hi : i.isTerminator = true) (hw : (i.write b.locked).2 = none) (hts : ∀ t ∈ ts, t.func = func ∧ d ≤ t.index)
    (htargets : i.targets = ts.map (·.index - d)) :
    (b.endBy i ts leaves).Listed func d (w ++ if b.locked then ts.map (r, ·) else []) r := by
  cases hb : b.locked with
  | true =>
    have hend : (b.endBy i ts leaves).terminator? = b.terminator? := terminator?_endBy_of_locked hb hw
    refine ⟨?_, fun hopen => ?_, fun t => ?_⟩
    · simpa [Block.endBy, push_of_locked hb hw] using h.id
    · simp [Block.endBy] at hopen
    · have hbranches : (b.endBy i ts leaves).branches = b.branches ++ ts.toArray := by
        simp [Block.endBy, push_of_locked hb hw]
      rw [hbranches, goesTo, hend, Array.mem_append, h.listed t, goesTo]
      simp [or_assoc]
  | false =>
    obtain ⟨hbranches, hopen, hbeside⟩ := h.opened hb
    have hend : (b.endBy i ts leaves).terminator? = some i := terminator?_endBy_of_unlocked hb hopen hi hw
    refine ⟨?_, fun hlocked => ?_, fun t => ?_⟩
    · simpa [Block.endBy, push_of_unlocked hb hw] using h.id
    · simp [Block.endBy] at hlocked
    · have hlist : (b.endBy i ts leaves).branches = ts.toArray := by
        simp [Block.endBy, push_of_unlocked hb hw, hbranches]
      rw [hlist, goesTo, hend, Option.any_some, htargets]
      -- Among blocks that are live a number stands for one block.
      have hnumber : t ∈ ts ↔ t.func = func ∧ d ≤ t.index ∧ t.index - d ∈ ts.map (·.index - d) := by
        constructor
        · intro ht
          exact ⟨(hts t ht).1, (hts t ht).2, List.mem_map.2 ⟨t, ht, rfl⟩⟩
        · rintro ⟨hfunc, hd, hmem⟩
          obtain ⟨u, hu, hnum⟩ := List.mem_map.1 hmem
          obtain ⟨hufunc, hud⟩ := hts u hu
          have heq : u = t := by
            obtain ⟨uf, ui⟩ := u
            obtain ⟨tf, ti⟩ := t
            simp only [BlockRef.mk.injEq] at *
            omega
          exact heq ▸ hu
      simpa [hbeside t] using hnumber

end Block

namespace Func

variable {func : Nat} {w : List (BlockRef × BlockRef)} {f : Func}

/-- What is listed for the live blocks of a function. -/
structure Listed (func : Nat) (w : List (BlockRef × BlockRef)) (f : Func) : Prop where
  blocks : ∀ i b, f.dropped ≤ i → f.blocks[i]? = some b → b.Listed func f.dropped w ⟨func, i⟩
  beside : ∀ e ∈ w, f.Live func e.1

theorem Listed.block (h : f.Listed func w) {r : BlockRef} (hr : f.Live func r) :
    ∃ b, f.blocks[r.index]? = some b ∧ b.Listed func f.dropped w r := by
  obtain ⟨rfl, hlive, hlt⟩ := hr
  exact ⟨f.blocks[r.index], Array.getElem?_eq_getElem hlt, h.blocks r.index _ hlive (Array.getElem?_eq_getElem hlt)⟩

theorem Listed.modify (h : f.Listed func w) {k : Nat} {g : Block → Block} (ts : List BlockRef)
    (hk : f.Live func ⟨func, k⟩)
    (hg : ∀ b, f.dropped ≤ k → f.blocks[k]? = some b → b.Listed func f.dropped w ⟨func, k⟩ →
      (g b).Listed func f.dropped (w ++ ts.map (⟨func, k⟩, ·)) ⟨func, k⟩) :
    { f with blocks := f.blocks.modify k g }.Listed func (w ++ ts.map (BlockRef.mk func k, ·)) := by
  constructor
  · intro i b hi hb
    dsimp only at hi hb
    rw [Array.getElem?_modify] at hb
    by_cases hik : k = i
    · subst hik
      rw [if_pos rfl] at hb
      obtain ⟨b0, hb0, rfl⟩ := Option.map_eq_some_iff.1 hb
      exact hg b0 hi hb0 (h.blocks k b0 hi hb0)
    · rw [if_neg hik] at hb
      have hold := h.blocks i b hi hb
      have hbeside : ∀ t, (BlockRef.mk func i, t) ∈ w ++ ts.map (BlockRef.mk func k, ·) ↔ (BlockRef.mk func i, t) ∈ w := by
        intro t
        simp [hik]
      refine ⟨hold.id, fun hopen => ?_, fun t => ?_⟩
      · obtain ⟨hbranches, hend, hnone⟩ := hold.opened hopen
        exact ⟨hbranches, hend, fun t => by rw [hbeside]; exact hnone t⟩
      · rw [hold.listed t, hbeside]
  · intro e he
    rw [Live, Array.size_modify]
    rcases List.mem_append.1 he with he | he
    · exact h.beside e he
    · obtain ⟨t, -, rfl⟩ := List.mem_map.1 he
      exact hk

theorem Listed.addBlock (h : f.Listed func w) (label : Option String) : (f.addBlock label).Listed func w := by
  constructor
  · intro i b hi hb
    rw [Func.addBlock, Array.getElem?_push] at hb
    split at hb
    next hlast =>
      cases hb
      have hnone : ∀ t, (⟨func, i⟩, t) ∉ w := fun t ht => absurd (h.beside _ ht).2.2 (by simp [hlast])
      refine ⟨by simp [Func.blockCount, hlast, Func.addBlock], fun _ => ⟨rfl, rfl, hnone⟩, fun t => ?_⟩
      simp [hnone t, Block.goesTo, Block.terminator?]
    next => exact h.blocks i b hi hb
  · intro e he
    obtain ⟨hfunc, hdropped, hlt⟩ := h.beside e he
    refine ⟨hfunc, hdropped, ?_⟩
    rw [Func.addBlock, Array.size_push]
    omega

end Func

/-- An order in a block that was in hand before it. -/
inductive Order.Leaves (o : Order) (s : State) : State → Prop
  /-- The order changes nothing. -/
  | same (hidden : (BuilderCall.order o).unwritten s = []) : o.Leaves s s
  /-- An instruction is written that ends no block, or a part of one. -/
  | placed {ref : BlockRef} {i : Instr} {h : Func → Func} (here : s.here.block = some ref)
      (hi : i.isTerminator = true → (i.write (s.program.block ref).locked).2 ≠ none)
      (hh : ∀ f, (h f).blocks = f.blocks ∧ (h f).dropped = f.dropped)
      (hidden : (BuilderCall.order o).unwritten s = []) :
      o.Leaves s (s.withProgram ((s.program.mapBlock ref fun b => (b.push i).1).mapFunc s.here.func h))
  /-- The block is ended. -/
  | ended {ref : BlockRef} {i : Instr} {leaves : Bool} (here : s.here.block = some ref)
      (hi : i.isTerminator = true) (hw : (i.write (s.program.block ref).locked).2 = none)
      (targets : i.targets = o.targets.map fun t => (s.program.block t).id)
      (listed : (BuilderCall.order o).unwritten s =
        if (s.program.block ref).locked then o.targets.map (ref, ·) else []) :
      o.Leaves s (s.withProgram (s.program.mapBlock ref (·.endBy i o.targets leaves)))

namespace Emit

variable {s s' : State} {e : Fault}

theorem modifyBlock_run (ref : BlockRef) (g : Block → Block) :
    modifyBlock ref g s = .ok () (s.withProgram (s.program.mapBlock ref g)) := rfl

theorem modifyFunc_run (i : Nat) (g : Func → Func) :
    modifyFunc i g s = .ok () (s.withProgram (s.program.mapFunc i g)) := rfl

theorem hereBlock_eq_error (h : hereBlock s = .error e s') : s' = s := by
  rw [hereBlock, here_bind_run] at h
  cases href : s.here.block <;> rw [href] at h
  · exact (throw_eq_error.1 h).2
  · exact absurd h pure_ne_error

theorem branchSource_eq_error (h : branchSource s = .error e s') : s' = s := by
  rw [branchSource, here_bind_run] at h
  cases href : s.here.block <;> rw [href] at h
  · exact (throw_eq_error.1 h).2
  · exact absurd h pure_ne_error

/-- What is left of an instruction that could not be written whole: nothing, or the part before the fault. -/
def Fragment (i : Instr) (s s' : State) : Prop :=
  s' = s ∨ ∃ ref, s.here.block = some ref ∧ (i.write (s.program.block ref).locked).2 ≠ none ∧
    s' = s.withProgram (s.program.mapBlock ref fun b => (b.push i).1)

theorem place_eq_error {i : Instr} (h : place i s = .error e s') : Fragment i s s' := by
  rcases bind_eq_error.1 h with hfirst | ⟨ref, s1, hok, hrest⟩
  · exact .inl (hereBlock_eq_error hfirst)
  · obtain ⟨href, rfl⟩ := hereBlock_eq_ok.1 hok
    rw [bind_run_of_ok (block_eq_ok.2 ⟨rfl, rfl⟩), bind_run_of_ok (modifyBlock_run _ _)] at hrest
    refine .inr ⟨ref, href, ?_⟩
    dsimp only at hrest
    rw [← fault_push]
    cases hw : ((s1.program.block ref).push i).2 with
    | some fault =>
      rw [hw] at hrest
      exact ⟨nofun, (throw_eq_error.1 hrest).2⟩
    | none =>
      rw [hw] at hrest
      exact absurd hrest pure_ne_error

theorem assign_eq_error {mk : Nat → Instr} {f : Func} (hf : s.program.funcs[s.here.func]? = some f)
    (h : assign mk s = .error e s') : Fragment (mk f.nextValue) s s' := by
  rcases bind_eq_error.1 h with hfirst | ⟨ref, s1, hok, hrest⟩
  · exact .inl (hereBlock_eq_error hfirst)
  · obtain ⟨-, rfl⟩ := hereBlock_eq_ok.1 hok
    rw [here_bind_run, get_bind_run, hf] at hrest
    rcases bind_eq_error.1 hrest with hplace | ⟨_, s2, -, hlast⟩
    · exact place_eq_error hplace
    · rw [bind_run_of_ok (modifyFunc_run _ _)] at hlast
      exact absurd hlast pure_ne_error

theorem placeEnd_eq_error {i : Instr} {ref : BlockRef} {g : Block → Block}
    (h : (do place i; modifyBlock ref g : Emit Unit) s = .error e s') : Fragment i s s' := by
  rcases bind_eq_error.1 h with hplace | ⟨_, s2, -, hlast⟩
  · exact place_eq_error hplace
  · cases hlast

theorem leave_eq_error {i : Instr} (h : leave i s = .error e s') : Fragment i s s' := by
  rcases bind_eq_error.1 h with hfirst | ⟨ref, s1, hok, hrest⟩
  · exact .inl (hereBlock_eq_error hfirst)
  · obtain ⟨-, rfl⟩ := hereBlock_eq_ok.1 hok
    exact placeEnd_eq_error hrest

theorem condBranch_eq_error {c : Operand} {yes no : BlockRef} (h : condBranch c yes no s = .error e s') :
    Fragment (.condBranch c (s.program.block yes).id (s.program.block no).id) s s' := by
  rcases bind_eq_error.1 h with hfirst | ⟨ref, s1, hok, hrest⟩
  · exact .inl (branchSource_eq_error hfirst)
  · obtain ⟨-, rfl⟩ := branchSource_eq_ok.1 hok
    rw [bind_run_of_ok (blockId_eq_ok.2 ⟨rfl, rfl⟩), bind_run_of_ok (blockId_eq_ok.2 ⟨rfl, rfl⟩)] at hrest
    exact placeEnd_eq_error hrest

theorem branch_eq_error {target : BlockRef} {g : Func} (hg : s.program.funcs[target.func]? = some g)
    (h : branch target s = .error e s') : Fragment (.branch (s.program.block target).id) s s' := by
  rcases bind_eq_error.1 h with hfirst | ⟨ref, s1, hok, hrest⟩
  · exact .inl (branchSource_eq_error hfirst)
  · obtain ⟨-, rfl⟩ := branchSource_eq_ok.1 hok
    rw [get_bind_run, hg] at hrest
    dsimp only at hrest
    rw [bind_run_of_ok (blockId_eq_ok.2 ⟨rfl, rfl⟩)] at hrest
    exact placeEnd_eq_error hrest

theorem phi_run {type : MachineType} {values : List Operand} {refs : List BlockRef} (h : values.length = refs.length) :
    phi type values refs s = assign (.phi type values (refs.map fun r => (s.program.block r).id)) s := by
  unfold phi
  simp only [h, ne_eq, not_true_eq_false, if_false]
  exact bind_run_of_ok (mapM_blockId refs)

theorem phi_throws {type : MachineType} {values : List Operand} {refs : List BlockRef}
    (h : values.length ≠ refs.length) : phi type values refs s = .error (.phiArity values.length refs.length) s := by
  unfold phi
  rw [if_pos h]
  rfl

end Emit

namespace Order

open BuilderCall Emit

variable {s s' : State} {o : Order}

theorem unwritten_of_targets (h : o.targets = []) : (order o).unwritten s = [] := by
  unfold unwritten
  split <;> simp_all

theorem unwritten_of_error {e : Fault} (h : o.run s = .error e s') : (order o).unwritten s = [] := by
  unfold unwritten
  split
  next hok => exact absurd (h.symm.trans hok) nofun
  next => rfl

theorem Leaves.of_fragment {i : Instr} (h : Fragment i s s') (hidden : (order o).unwritten s = []) : o.Leaves s s' := by
  rcases h with rfl | ⟨ref, href, hw, rfl⟩
  · exact .same hidden
  · have hplaced := Leaves.placed (h := id) href (fun _ => hw) (fun f => ⟨rfl, rfl⟩) hidden
    rwa [Program.mapFunc_id] at hplaced

theorem Leaves.of_assign {mk : Nat → Instr} {f : Func} (hf : s.program.funcs[s.here.func]? = some f)
    (hmk : (mk f.nextValue).isTerminator = false) (ho : o.targets = []) : o.Leaves s (leftBy (assign mk s)) := by
  have hidden := unwritten_of_targets (s := s) ho
  cases h : assign mk s with
  | error e s' => exact .of_fragment (assign_eq_error hf h) hidden
  | ok v s' =>
    obtain ⟨ref, g, href, hg, -, -, rfl⟩ := assign_eq_ok.1 h
    cases hf.symm.trans hg
    exact .placed href (fun hend => absurd hend (by simp [hmk])) (fun f => ⟨rfl, rfl⟩) hidden

theorem Leaves.of_place {i : Instr} (hi : i.isTerminator = false) (ho : o.targets = []) :
    o.Leaves s (leftBy (place i s)) := by
  have hidden := unwritten_of_targets (s := s) ho
  cases h : place i s with
  | error e s' => exact .of_fragment (place_eq_error h) hidden
  | ok u s' =>
    obtain ⟨ref, href, -, rfl⟩ := place_eq_ok.1 h
    have hends : i.isTerminator = true → (i.write (s.program.block ref).locked).2 ≠ none := by simp [hi]
    have hplaced := Leaves.placed (h := id) href hends (fun f => ⟨rfl, rfl⟩) hidden
    rwa [Program.mapFunc_id] at hplaced

theorem Leaves.of_end {i : Instr} {leaves : Bool} (hi : i.isTerminator = true)
    (htargets : i.targets = o.targets.map fun t => (s.program.block t).id)
    (hok : ∀ s', o.run s = .ok () s' → Ends s s' i o.targets leaves)
    (herror : ∀ e s', o.run s = .error e s' → Fragment i s s') : o.Leaves s (leftBy (o.run s)) := by
  cases h : o.run s with
  | error e s' => exact .of_fragment (herror e s' h) (unwritten_of_error h)
  | ok u s' =>
    obtain ⟨ref, href, hw, rfl⟩ := hok s' h
    refine .ended href hi hw htargets ?_
    simp only [unwritten, href, BuilderCall.run, h]

theorem leaves_run (o : Order) {f : Func} (hf : s.program.funcs[s.here.func]? = some f)
    (hts : ∀ t ∈ o.targets, ∃ g, s.program.funcs[t.func]? = some g) : o.Leaves s (leftBy (o.run s)) := by
  cases o with
  | compute i h =>
    rw [run, leftBy_discard]
    exact .of_assign hf (Instr.isTerminator_of_result? (Instr.result?_numbered h _)) rfl
  | phi type values blocks =>
    rw [run, leftBy_discard]
    by_cases hlength : values.length = blocks.length
    · rw [phi_run hlength]
      exact .of_assign hf rfl rfl
    · rw [phi_throws hlength]
      exact .same (unwritten_of_targets rfl)
  | branch target =>
    obtain ⟨g, hg⟩ := hts target (by simp [targets])
    exact .of_end rfl rfl (fun s' h => (branch_eq_ok.1 h).2) fun e s' h => branch_eq_error hg h
  | condBranch c yes no =>
    exact .of_end rfl rfl (fun s' h => condBranch_eq_ok.1 h) fun e s' h => condBranch_eq_error h
  | ret value => exact .of_end rfl rfl (fun s' h => leave_eq_ok.1 h) fun e s' h => leave_eq_error h
  | retVoid => exact .of_end rfl rfl (fun s' h => leave_eq_ok.1 h) fun e s' h => leave_eq_error h
  | retNull => exact .of_end rfl rfl (fun s' h => leave_eq_ok.1 h) fun e s' h => leave_eq_error h
  | printType value => exact .of_place rfl rfl
  | debugOp => exact .of_place rfl rfl
  | debugOp2 => exact .of_place rfl rfl

end Order

/-- The builder of a function stands in a live block of it, if in any, and the branches of the live blocks are
those that are written and those of a list beside. -/
structure State.Listed (func : Nat) (w : List (BlockRef × BlockRef)) (s : State) : Prop where
  here : s.here.func = func
  listed : ∃ f, s.program.funcs[func]? = some f ∧ f.Listed func w ∧ ∀ r, s.here.block = some r → f.Live func r

namespace State.Listed

open BuilderCall Emit

variable {func : Nat} {w : List (BlockRef × BlockRef)} {s : State}

theorem block_eq {f : Func} {r : BlockRef} {b : Block} (hf : s.program.funcs[func]? = some f) (hr : f.Live func r)
    (hb : f.blocks[r.index]? = some b) : s.program.block r = b := by
  obtain ⟨rfl, -⟩ := hr
  rw [Program.block, Program.blockAt, hf, Option.bind_some, hb, Option.getD_some]

theorem mapBlock (hs : s.Listed func w) {ref : BlockRef} {g : Block → Block} {h : Func → Func} (ts : List BlockRef)
    (href : s.here.block = some ref) (hh : ∀ f, (h f).blocks = f.blocks ∧ (h f).dropped = f.dropped)
    (hg : ∀ f, s.program.funcs[func]? = some f → (s.program.block ref).Listed func f.dropped w ref →
      (g (s.program.block ref)).Listed func f.dropped (w ++ ts.map (ref, ·)) ref) :
    (s.withProgram ((s.program.mapBlock ref g).mapFunc func h)).Listed func (w ++ ts.map (ref, ·)) := by
  obtain ⟨hhere, f, hf, hlisted, hstands⟩ := hs
  have hlive := hstands ref href
  obtain ⟨rfl, -⟩ := hstands ref href
  have hmodified := hlisted.modify (g := g) ts hlive fun b _ hb hold => by
    have hblock := block_eq hf hlive hb
    rw [← hblock] at hold ⊢
    exact hg f hf hold
  refine ⟨hhere, _, Program.getElem?_mapFunc_self (Program.getElem?_mapFunc_self hf), ?_, fun r hr => ?_⟩
  · refine ⟨fun i c hi hc => ?_, fun e he => ?_⟩
    · rw [(hh _).1] at hc
      rw [(hh _).2] at hi ⊢
      exact hmodified.blocks i c hi hc
    · rw [Func.Live, (hh _).1, (hh _).2]
      exact hmodified.beside e he
  · obtain ⟨hfunc, hdropped, hindex⟩ := hstands r hr
    rw [Func.Live, (hh _).1, (hh _).2, Array.size_modify]
    exact ⟨hfunc, hdropped, hindex⟩

theorem leaves (hs : s.Listed func w) {o : Order} {s' : State} (ho : o.Leaves s s')
    (hnamed : ∀ t ∈ o.targets, ∃ f ∈ s.program.funcs[func]?, f.Live func t) :
    s'.Listed func (w ++ (order o).unwritten s) := by
  cases ho with
  | same hidden => simpa [hidden] using hs
  | @placed ref i h href hi hh hidden =>
    have hplaced := hs.mapBlock (g := fun b => (b.push i).1) [] href hh fun f _ h => by simpa using h.push hi
    simpa [hidden, hs.here] using hplaced
  | @ended ref i leaves href hi hw targets listed =>
    obtain ⟨f, hf, hlisted, -⟩ := hs.listed
    have hlive : ∀ t ∈ o.targets, f.Live func t := by
      intro t ht
      obtain ⟨g, hg, hlive⟩ := hnamed t ht
      cases hf.symm.trans hg
      exact hlive
    have hnumbers : i.targets = o.targets.map (·.index - f.dropped) := by
      rw [targets]
      refine List.map_congr_left fun t ht => ?_
      obtain ⟨b, hb, hlist⟩ := hlisted.block (hlive t ht)
      rw [block_eq hf (hlive t ht) hb, hlist.id]
    have hts : ∀ t ∈ o.targets, t.func = func ∧ f.dropped ≤ t.index := fun t ht => ⟨(hlive t ht).1, (hlive t ht).2.1⟩
    have hended := hs.mapBlock (g := (·.endBy i o.targets leaves)) (h := id)
      (if (s.program.block ref).locked then o.targets else []) href (fun f => ⟨rfl, rfl⟩) fun g hg h => by
        cases hf.symm.trans hg
        have hend := h.endBy leaves hi hw hts hnumbers
        cases hlocked : (s.program.block ref).locked <;> simpa [hlocked] using hend
    rw [Program.mapFunc_id] at hended
    rw [listed]
    cases hlocked : (s.program.block ref).locked <;> simpa [hlocked] using hended

/-- One call keeps the list beside up to date. -/
theorem call (hs : s.Listed func w) (c : BuilderCall)
    (hnamed : ∀ r ∈ c.refs, ∃ f ∈ s.program.funcs[func]?, f.Live func r) :
    (leftBy (c.run s)).Listed func (w ++ c.unwritten s) := by
  obtain ⟨f, hf, hlisted, hstands⟩ := hs.listed
  cases c with
  | order o =>
    refine hs.leaves (o.leaves_run (hs.here ▸ hf) fun t ht => ?_) hnamed
    obtain ⟨g, hg, hfunc, -⟩ := hnamed t ht
    exact ⟨g, hfunc ▸ hg⟩
  | createBlock label =>
    have hnew : (s.withProgram (s.program.mapFunc func (·.addBlock label))).Listed func w := by
      refine ⟨hs.here, _, Program.getElem?_mapFunc_self hf, hlisted.addBlock label, fun r hr => ?_⟩
      obtain ⟨hfunc, hdropped, hindex⟩ := hstands r hr
      refine ⟨hfunc, hdropped, ?_⟩
      rw [Func.addBlock, Array.size_push]
      omega
    rw [BuilderCall.run, leftBy_discard, createBlock_eq_ok.2 ⟨rfl, rfl⟩, hs.here]
    simpa [unwritten, leftBy] using hnew
  | setBlock ref =>
    have hmoved : (leftBy (moveTo ref s)).here.func = s.here.func ∧
        ∀ r, (leftBy (moveTo ref s)).here.block = some r → ref = some r := by
      change ((s.program.cursors.modify s.cursor _)[s.cursor]?.getD default).func = _ ∧
        ∀ r, ((s.program.cursors.modify s.cursor _)[s.cursor]?.getD default).block = some r → _
      rw [Array.getElem?_modify, if_pos rfl, State.here]
      cases s.program.cursors[s.cursor]? with
      | none => exact ⟨rfl, fun r hr => absurd hr.symm (Option.some_ne_none r)⟩
      | some c => exact ⟨rfl, fun r hr => hr⟩
    have hstay : (leftBy (moveTo ref s)).Listed func w := by
      refine ⟨hmoved.1.trans hs.here, f, hf, hlisted, fun r hr => ?_⟩
      obtain ⟨g, hg, hlive⟩ := hnamed r (by simp [refs, hmoved.2 r hr])
      cases hf.symm.trans hg
      exact hlive
    simpa [unwritten, BuilderCall.run] using hstay

theorem calls {cs : List BuilderCall} (hs : s.Listed func w) (hnamed : BuilderCall.Named func cs s) :
    (leftByAll cs s).Listed func (w ++ unwrittenAll cs s) := by
  induction cs generalizing s w with
  | nil => simpa [leftByAll, unwrittenAll] using hs
  | cons c cs ih =>
    obtain ⟨hfirst, hrest⟩ := hnamed
    have hall := ih (hs.call c hfirst) hrest
    rwa [List.append_assoc] at hall

end State.Listed

namespace Func

variable {func : Nat} {w : List (BlockRef × BlockRef)} {f : Func}

theorem mem_select {n : Nat} {p : Nat → Bool} {r : BlockRef} :
    (r ∈ (List.range n).filterMap fun i => if p i then some (BlockRef.mk func i) else none) ↔
      r.func = func ∧ r.index < n ∧ p r.index = true := by
  obtain ⟨rfunc, rindex⟩ := r
  simp only [List.mem_filterMap, List.mem_range, Option.ite_none_right_eq_some, Option.some.injEq,
    BlockRef.mk.injEq]
  constructor
  · rintro ⟨i, hi, hp, rfl, rfl⟩
    exact ⟨rfl, hi, hp⟩
  · rintro ⟨rfl, hi, hp⟩
    exact ⟨rindex, hi, hp, rfl, rfl⟩

variable {target : BlockRef}

theorem mem_predecessors {r : BlockRef} : r ∈ f.predecessors func target ↔
    f.Live func r ∧ ∃ b, f.blocks[r.index]? = some b ∧ target ∈ b.branches := by
  rw [predecessors, mem_select, Live, Bool.and_eq_true, decide_eq_true_iff, Option.any_eq_true]
  simp only [Block.branchesInto, Array.contains_iff_mem]
  tauto

theorem mem_writtenPredecessors {r : BlockRef} : r ∈ f.writtenPredecessors func target ↔
    f.Live func r ∧ ∃ b, f.blocks[r.index]? = some b ∧ b.goesTo (f.blocks[target.index]?.getD default).id = true := by
  rw [writtenPredecessors, mem_select, Live, Bool.and_eq_true, decide_eq_true_iff, Option.any_eq_true]
  tauto

theorem Listed.mem_predecessors_iff (h : f.Listed func w) (htarget : f.Live func target)
    (r : BlockRef) : r ∈ f.predecessors func target ↔ r ∈ f.writtenPredecessors func target ∨ (r, target) ∈ w := by
  obtain ⟨c, hc, hnumber⟩ := h.block htarget
  rw [mem_predecessors, mem_writtenPredecessors, hc, Option.getD_some, hnumber.id]
  by_cases hr : f.Live func r
  · obtain ⟨b, hb, hlist⟩ := h.block hr
    simp [hr, hb, hlist.listed target, htarget.1, htarget.2.1]
  · have hbeside : (r, target) ∉ w := fun hmem => hr (h.beside _ hmem)
    simp [hr, hbeside]

/-- Both lists follow the order of the blocks, so they are equal if they hold the same blocks. -/
theorem predecessors_eq_iff : f.predecessors func target = f.writtenPredecessors func target ↔
      ∀ r, r ∈ f.predecessors func target ↔ r ∈ f.writtenPredecessors func target := by
  constructor
  · intro h r
    rw [h]
  · intro h
    refine List.filterMap_congr fun i hi => ?_
    have hplace := h ⟨func, i⟩
    rw [predecessors, writtenPredecessors, mem_select, mem_select] at hplace
    simp only [List.mem_range.1 hi, true_and] at hplace
    simp only [hplace]

end Func

/-- From a function without a live block, whatever is ordered of its builder: a block is listed as predecessor
of another just if its written end goes there or a branch to there was ordered after its end. So the listed
predecessors are those of the written program just if every branch ordered too late repeats a written one. -/
theorem predecessors_after_calls {s : State} {func : Nat} {f : Func} {cs : List BuilderCall}
    (hhere : s.here.func = func ∧ s.here.block = none) (hf : s.program.funcs[func]? = some f)
    (hfresh : f.blocks.size ≤ f.dropped) (hnamed : BuilderCall.Named func cs s) :
    ∃ g, (BuilderCall.leftByAll cs s).program.funcs[func]? = some g ∧ ∀ target, g.Live func target →
      (∀ r, r ∈ g.predecessors func target ↔
        r ∈ g.writtenPredecessors func target ∨ (r, target) ∈ BuilderCall.unwrittenAll cs s) ∧
      (g.predecessors func target = g.writtenPredecessors func target ↔
        ∀ e ∈ BuilderCall.unwrittenAll cs s, e.2 = target → e.1 ∈ g.writtenPredecessors func target) := by
  have hstart : s.Listed func [] := by
    refine ⟨hhere.1, f, hf, ⟨fun i b hi hb => ?_, by simp⟩, by simp [hhere.2]⟩
    have hlt := (Array.getElem?_eq_some_iff.1 hb).1
    omega
  have hend := hstart.calls hnamed
  rw [List.nil_append] at hend
  obtain ⟨g, hg, hlisted, -⟩ := hend.listed
  refine ⟨g, hg, fun target htarget => ?_⟩
  have hmem := hlisted.mem_predecessors_iff htarget
  refine ⟨hmem, ?_⟩
  rw [Func.predecessors_eq_iff]
  constructor
  · rintro h ⟨r, t⟩ hr rfl
    exact (h r).1 ((hmem r).2 (.inr hr))
  · intro h r
    rw [hmem r]
    exact ⟨fun hr => hr.elim id fun hbeside => h _ hbeside rfl, .inl⟩

/-- The builder of a function without blocks. -/
def builderState : State :=
  { program := { funcs := #[{ name := "f" }], cursors := #[{ func := 0 }] } }

/-- Two blocks, the first of which branches to the second after another order. -/
def branchAfter (o : Order) : List BuilderCall :=
  [.createBlock none, .createBlock none, .setBlock (some ⟨0, 0⟩), .order o, .order (.branch ⟨0, 1⟩)]

theorem predecessors_branchAfter :
    ∃ g h, (BuilderCall.leftByAll (branchAfter (.branch ⟨0, 1⟩)) builderState).program.funcs[0]? = some g ∧
      (BuilderCall.leftByAll (branchAfter .retVoid) builderState).program.funcs[0]? = some h ∧
      g.predecessors 0 ⟨0, 1⟩ = g.writtenPredecessors 0 ⟨0, 1⟩ ∧
      h.predecessors 0 ⟨0, 1⟩ ≠ h.writtenPredecessors 0 ⟨0, 1⟩ := by
  have hstart : builderState.here.func = 0 ∧ builderState.here.block = none := ⟨rfl, rfl⟩
  have hfunc : builderState.program.funcs[0]? = some { name := "f" } := rfl
  obtain ⟨g, hg, hagain⟩ := predecessors_after_calls hstart hfunc (Nat.le_refl 0)
    (show BuilderCall.Named 0 (branchAfter (.branch ⟨0, 1⟩)) builderState by decide +kernel)
  obtain ⟨h, hh, hlate⟩ := predecessors_after_calls hstart hfunc (Nat.le_refl 0)
    (show BuilderCall.Named 0 (branchAfter .retVoid) builderState by decide +kernel)
  refine ⟨g, h, hg, hh, ?_, ?_⟩
  · cases hg
    exact (hagain ⟨0, 1⟩ (by decide +kernel)).2.2 (by decide +kernel)
  · cases hh
    intro heq
    have hrepeats := (hlate ⟨0, 1⟩ (by decide +kernel)).2.1 heq
    exact absurd hrepeats (by decide +kernel)

end Lowering
