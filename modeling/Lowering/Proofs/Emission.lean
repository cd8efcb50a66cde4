import Lowering.Proofs.ConstantPool

/-!
What an emission did if it completed: for each action that changes a program, the state before and
the state after.
-/
namespace Lowering

/-- The cursor in hand. -/
def State.here (s : State) : Cursor := s.program.cursors[s.cursor]?.getD default

def State.withProgram (s : State) (p : Program) : State := { s with program := p }

/-- A block of the program; one that is not there is empty. -/
def Program.block (p : Program) (ref : BlockRef) : Block := (p.blockAt ref).getD default

namespace Emit

variable {α : Type} {s s' : State}

theorem build_eq_ok {x : Build α} {a : α} :
    build x s = .ok a s' ↔ ∃ p, x s.program = .ok a p ∧ s' = s.withProgram p := by
  rw [build]
  cases x s.program <;> simp [State.withProgram, eq_comm]

theorem lift_eq_ok {x : Except Fault α} {a : α} : lift x s = .ok a s' ↔ x = .ok a ∧ s' = s := by
  cases x with
  | error e => simp [lift, throw_ne_ok]
  | ok b => simp [lift, pure_eq_ok, eq_comm]

theorem here_bind_run (f : Cursor → Emit α) : (here >>= f) s = f s.here s := rfl

variable {ref : BlockRef} {u : Unit}

theorem hereBlock_eq_ok : hereBlock s = .ok ref s' ↔ s.here.block = some ref ∧ s' = s := by
  rw [hereBlock, here_bind_run]
  cases s.here.block with
  | none => simp [throw_ne_ok]
  | some r => simp [pure_eq_ok, eq_comm]

theorem branchSource_eq_ok : branchSource s = .ok ref s' ↔ s.here.block = some ref ∧ s' = s := by
  rw [branchSource, here_bind_run]
  cases s.here.block with
  | none => simp [throw_ne_ok]
  | some r => simp [pure_eq_ok, eq_comm]

theorem block_eq_ok {b : Block} : Emit.block ref s = .ok b s' ↔ b = s.program.block ref ∧ s' = s := by
  change EStateM.Result.ok (s.program.block ref) s = _ ↔ _
  simp [eq_comm]

theorem modifyBlock_eq_ok {g : Block → Block} :
    modifyBlock ref g s = .ok u s' ↔ s' = s.withProgram (s.program.mapBlock ref g) := by
  change EStateM.Result.ok () (s.withProgram (s.program.mapBlock ref g)) = _ ↔ _
  simp [eq_comm]

theorem modifyFunc_eq_ok {i : Nat} {g : Func → Func} :
    modifyFunc i g s = .ok u s' ↔ s' = s.withProgram (s.program.mapFunc i g) := by
  change EStateM.Result.ok () (s.withProgram (s.program.mapFunc i g)) = _ ↔ _
  simp [eq_comm]

theorem here_eq_ok {c : Cursor} : Emit.here s = .ok c s' ↔ c = s.here ∧ s' = s := by
  change EStateM.Result.ok s.here s = _ ↔ _
  simp [eq_comm]

theorem write_eq_ok {push : Block → Block × Option Fault} : Emit.write push s = .ok u s' ↔
    ∃ ref, s.here.block = some ref ∧ (push (s.program.block ref)).2 = none ∧
      s' = s.withProgram (s.program.mapBlock ref fun b => (push b).1) := by
  simp only [Emit.write, bind_eq_ok, hereBlock_eq_ok, block_eq_ok, modifyBlock_eq_ok]
  constructor
  · rintro ⟨ref, _, ⟨href, rfl⟩, b, s, ⟨rfl, rfl⟩, _, _, rfl, hlast⟩
    refine ⟨ref, href, ?_⟩
    cases hw : (push (s.program.block ref)).2 with
    | some fault =>
      rw [hw] at hlast
      exact absurd hlast throw_ne_ok
    | none =>
      rw [hw] at hlast
      exact ⟨rfl, (pure_eq_ok.1 hlast).2⟩
  · rintro ⟨ref, href, hw, rfl⟩
    refine ⟨ref, s, ⟨href, rfl⟩, _, s, ⟨rfl, rfl⟩, (), _, rfl, ?_⟩
    rw [hw]
    rfl

theorem fault_push (b : Block) (i : Instr) : (b.push i).2 = (i.write b.locked).2 := by
  unfold Block.push
  split <;> simp_all

theorem place_eq_ok {i : Instr} : place i s = .ok u s' ↔
    ∃ ref, s.here.block = some ref ∧ (i.write (s.program.block ref).locked).2 = none ∧
      s' = s.withProgram (s.program.mapBlock ref fun b => (b.push i).1) := by
  simp only [← fault_push]
  exact write_eq_ok

theorem funcId_eq_ok {i : Nat} {n : Int} :
    funcId i s = .ok n s' ↔ (∃ f, s.program.funcs[i]? = some f ∧ f.id = n) ∧ s' = s := by
  rw [funcId, get_bind_run]
  cases s.program.funcs[i]? with
  | none => simp [throw_ne_ok]
  | some f => simp [pure_eq_ok, eq_comm]

/-- The program with one more instruction, whose value has the next number. -/
def pushValue (p : Program) (func : Nat) (ref : BlockRef) (i : Instr) : Program :=
  (p.mapBlock ref fun b => (b.push i).1).mapFunc func fun f =>
    { f with nextValue := f.nextValue + 1 }

theorem assign_eq_ok {mk : Nat → Instr} {v : Operand} : assign mk s = .ok v s' ↔
    ∃ ref f, s.here.block = some ref ∧ s.program.funcs[s.here.func]? = some f ∧
      ((mk f.nextValue).write (s.program.block ref).locked).2 = none ∧ v = .id f.nextValue ∧
      s' = s.withProgram (pushValue s.program s.here.func ref (mk f.nextValue)) := by
  simp only [assign, bind_eq_ok, hereBlock_eq_ok, here_eq_ok, get_eq_ok]
  constructor
  · rintro ⟨ref, _, ⟨href, rfl⟩, _, _, ⟨rfl, rfl⟩, _, s, ⟨rfl, rfl⟩, h⟩
    cases hf : s.program.funcs[s.here.func]? with
    | some f =>
      rw [hf] at h
      simp only [bind_eq_ok, place_eq_ok, modifyFunc_eq_ok, pure_eq_ok] at h
      obtain ⟨_, _, ⟨ref', href', hw, rfl⟩, _, _, rfl, rfl, rfl⟩ := h
      cases href.symm.trans href'
      exact ⟨ref, f, href, rfl, hw, rfl, rfl⟩
    | none =>
      rw [hf] at h
      obtain ⟨_, _, -, h⟩ := bind_eq_ok.1 h
      exact absurd h throw_ne_ok
  · rintro ⟨ref, f, href, hf, hw, rfl, rfl⟩
    refine ⟨ref, s, ⟨href, rfl⟩, _, s, ⟨rfl, rfl⟩, _, s, ⟨rfl, rfl⟩, ?_⟩
    rw [hf]
    refine bind_eq_ok.2 ⟨(), _, place_eq_ok.2 ⟨ref, href, hw, rfl⟩, ?_⟩
    exact bind_eq_ok.2 ⟨(), _, modifyFunc_eq_ok.2 rfl, pure_eq_ok.2 ⟨rfl, rfl⟩⟩

theorem moveTo_eq_ok {ref : Option BlockRef} : moveTo ref s = .ok u s' ↔ s' = s.withProgram { s.program with
      cursors := s.program.cursors.modify s.cursor fun c => { c with block := ref } } := by
  change EStateM.Result.ok () _ = _ ↔ _
  simp [eq_comm, State.withProgram]

theorem addBlock_eq_ok {i : Nat} {label : Option String} :
    addBlock i label s = .ok ref s' ↔ ref = ⟨i, (s.program.funcs[i]?.map (·.blocks.size)).getD 0⟩ ∧
      s' = s.withProgram (s.program.mapFunc i (·.addBlock label)) := by
  change EStateM.Result.ok (BlockRef.mk _ _) (s.withProgram (s.program.mapFunc _ _)) = _ ↔ _
  simp [eq_comm]

theorem createBlock_eq_ok {label : Option String} : createBlock label s = .ok ref s' ↔
      ref = ⟨s.here.func, (s.program.funcs[s.here.func]?.map (·.blocks.size)).getD 0⟩ ∧
      s' = s.withProgram (s.program.mapFunc s.here.func (·.addBlock label)) := by
  change EStateM.Result.ok (BlockRef.mk _ _) (s.withProgram (s.program.mapFunc _ _)) = _ ↔ _
  simp [eq_comm, State.here]

end Emit

def Block.endBy (b : Block) (i : Instr) (targets : List BlockRef) (leaves : Bool) : Block :=
  let b := (b.push i).1
  { b with branches := b.branches ++ targets.toArray, locked := true, returns := b.returns || leaves }

theorem Program.blockAt_mapFunc (p : Program) (i : Nat) {h : Func → Func} (hh : ∀ f, (h f).blocks = f.blocks)
    (r : BlockRef) : (p.mapFunc i h).blockAt r = p.blockAt r := by
  rw [blockAt, getElem?_mapFunc, blockAt]
  split
  next hi => cases p.funcs[r.func]? <;> simp [hh]
  next => rfl

theorem Program.blockAt_mapBlock (p : Program) (ref r : BlockRef) (g : Block → Block) :
    (p.mapBlock ref g).blockAt r = if ref = r then (p.blockAt r).map g else p.blockAt r := by
  obtain ⟨i, k⟩ := ref
  obtain ⟨j, l⟩ := r
  simp only [mapBlock, blockAt, getElem?_mapFunc, BlockRef.mk.injEq]
  by_cases hij : i = j
  · subst hij
    cases p.funcs[i]? with
    | none => simp
    | some f => simp [Array.getElem?_modify]
  · simp [hij]

theorem Program.mapBlock_eq_self {p : Program} {ref : BlockRef} {g : Block → Block}
    (h : ∀ b, p.blockAt ref = some b → g b = b) : p.mapBlock ref g = p := by
  have hfuncs : p.funcs.modify ref.func (fun f => { f with blocks := f.blocks.modify ref.index g })
      = p.funcs := by
    apply Array.ext_getElem?
    intro i
    rw [Array.getElem?_modify]
    split
    next hi =>
      subst hi
      cases hf : p.funcs[ref.func]? with
      | none => rfl
      | some f =>
        have hblocks : f.blocks.modify ref.index g = f.blocks := by
          apply Array.ext_getElem?
          intro k
          rw [Array.getElem?_modify]
          split
          next hk =>
            subst hk
            cases hb : f.blocks[ref.index]? with
            | none => rfl
            | some b => rw [Option.map_some, h b (by rw [blockAt, hf]; exact hb)]
          next => rfl
        rw [Option.map_some, hblocks]
    next => rfl
  rw [mapBlock, mapFunc, hfuncs]

theorem Program.mapBlock_mapBlock (p : Program) (ref : BlockRef) (g h : Block → Block) :
    (p.mapBlock ref g).mapBlock ref h = p.mapBlock ref fun b => h (g b) := by
  simp only [mapBlock, mapFunc]
  congr 1
  apply Array.ext_getElem?
  intro i
  simp only [Array.getElem?_modify]
  split
  next =>
    cases p.funcs[i]? with
    | none => rfl
    | some f =>
      simp only [Option.map_some, Option.some.injEq, Func.mk.injEq, true_and, and_true]
      apply Array.ext_getElem?
      intro k
      simp only [Array.getElem?_modify]
      split <;> simp [Function.comp_def]
  next => rfl

namespace Emit

variable {s s' : State}

/-- The block in hand has been ended. -/
def Ends (s s' : State) (i : Instr) (targets : List BlockRef) (leaves : Bool) : Prop :=
  ∃ ref, s.here.block = some ref ∧ (i.write (s.program.block ref).locked).2 = none ∧
    s' = s.withProgram (s.program.mapBlock ref (·.endBy i targets leaves))

theorem blockId_eq_ok {ref : BlockRef} {n : Nat} :
    blockId ref s = .ok n s' ↔ n = (s.program.block ref).id ∧ s' = s := by
  change EStateM.Result.ok (s.program.block ref).id s = _ ↔ _
  simp [eq_comm]

variable {u : Unit}

theorem leave_eq_ok {i : Instr} : leave i s = .ok u s' ↔ Ends s s' i [] true := by
  simp only [leave, bind_eq_ok, hereBlock_eq_ok, place_eq_ok, modifyBlock_eq_ok, Ends]
  constructor
  · rintro ⟨ref, s, ⟨href, rfl⟩, _, _, ⟨ref', href', hw, rfl⟩, rfl⟩
    cases href.symm.trans href'
    refine ⟨ref, href, hw, ?_⟩
    simp [State.withProgram, Program.mapBlock_mapBlock, Block.endBy]
  · rintro ⟨ref, href, hw, rfl⟩
    refine ⟨ref, s, ⟨href, rfl⟩, (), _, ⟨ref, href, hw, rfl⟩, ?_⟩
    simp [State.withProgram, Program.mapBlock_mapBlock, Block.endBy]

theorem push_push (refs : Array BlockRef) (yes no : BlockRef) : (refs.push yes).push no = refs ++ #[yes, no] :=
  Array.ext' (by simp)

theorem condBranch_eq_ok {c : Operand} {yes no : BlockRef} : condBranch c yes no s = .ok u s' ↔
      Ends s s' (.condBranch c (s.program.block yes).id (s.program.block no).id) [yes, no] false := by
  simp only [condBranch, bind_eq_ok, branchSource_eq_ok, blockId_eq_ok, place_eq_ok,
    modifyBlock_eq_ok, Ends]
  constructor
  · rintro ⟨ref, _, ⟨href, rfl⟩, _, _, ⟨rfl, rfl⟩, _, s, ⟨rfl, rfl⟩, _, _, ⟨ref', href', hw, rfl⟩, rfl⟩
    cases href.symm.trans href'
    refine ⟨ref, href, hw, ?_⟩
    simp [State.withProgram, Program.mapBlock_mapBlock, Block.endBy, push_push]
  · rintro ⟨ref, href, hw, rfl⟩
    refine ⟨ref, s, ⟨href, rfl⟩, _, s, ⟨rfl, rfl⟩, _, s, ⟨rfl, rfl⟩, (), _, ⟨ref, href, hw, rfl⟩, ?_⟩
    simp [State.withProgram, Program.mapBlock_mapBlock, Block.endBy, push_push]

theorem placeFields_defect (fs : List Field) {fault : Fault} : placeFields (fs ++ [.defect fault]) s ≠ .ok u s' := by
  have hdefect : ∀ locked, (Field.writeAll locked (fs ++ [.defect fault])).2 ≠ none := by
    intro locked
    induction fs with
    | nil => cases locked <;> simp [Field.writeAll, Field.write, Field.bytes]
    | cons f fs ih =>
      rw [List.cons_append, Field.writeAll]
      cases f.write locked with
      | error e => simp
      | ok bs => exact ih
  intro h
  obtain ⟨ref, -, hw, -⟩ := write_eq_ok.1 h
  exact hdefect _ hw

theorem branch_eq_ok {target : BlockRef} : branch target s = .ok u s' ↔
    (∃ g, s.program.funcs[target.func]? = some g) ∧ Ends s s' (.branch (s.program.block target).id) [target] false := by
  simp only [branch, bind_eq_ok, branchSource_eq_ok, get_eq_ok]
  constructor
  · rintro ⟨ref, _, ⟨href, rfl⟩, _, s, ⟨rfl, rfl⟩, h⟩
    cases hg : s.program.funcs[target.func]? with
    | none =>
      rw [hg] at h
      exact absurd h (placeFields_defect [.count 150])
    | some g =>
      rw [hg] at h
      simp only [bind_eq_ok, blockId_eq_ok, place_eq_ok, modifyBlock_eq_ok] at h
      obtain ⟨_, s, ⟨rfl, rfl⟩, _, _, ⟨ref', href', hw, rfl⟩, rfl⟩ := h
      cases href.symm.trans href'
      refine ⟨⟨g, rfl⟩, ref, href, hw, ?_⟩
      simp [State.withProgram, Program.mapBlock_mapBlock, Block.endBy]
  · rintro ⟨⟨g, hg⟩, ref, href, hw, rfl⟩
    refine ⟨ref, s, ⟨href, rfl⟩, _, s, ⟨rfl, rfl⟩, ?_⟩
    rw [hg]
    simp only [bind_eq_ok, blockId_eq_ok, place_eq_ok, modifyBlock_eq_ok]
    refine ⟨_, s, ⟨rfl, rfl⟩, (), _, ⟨ref, href, hw, rfl⟩, ?_⟩
    simp [State.withProgram, Program.mapBlock_mapBlock, Block.endBy]

theorem writeAll_locked (fs : List Field) : (Field.writeAll true fs).1 = [] := by
  induction fs with
  | nil => rfl
  | cons f fs ih =>
    cases f <;> simp [Field.writeAll, Field.write, ih]

theorem placeFields_locked {fs : List Field} {ref : BlockRef} (href : s.here.block = some ref)
    (hlocked : (s.program.block ref).locked = true) (hw : (Field.writeAll true fs).2 = none) :
    placeFields fs s = .ok () s := by
  have hsame : s.program.mapBlock ref (fun b => (b.pushFields fs).1) = s.program := by
    refine Program.mapBlock_eq_self fun b hb => ?_
    rw [Program.block, hb] at hlocked
    have hitems : (b.pushFields fs).1.items = b.items := by
      simp only [Block.pushFields, show b.locked = true from hlocked, writeAll_locked,
        List.isEmpty_nil, if_true]
    calc (b.pushFields fs).1 = { b with items := (b.pushFields fs).1.items } := rfl
      _ = b := by rw [hitems]
  refine write_eq_ok.2 ⟨ref, href, by rwa [Block.pushFields, hlocked], ?_⟩
  rw [hsame]
  rfl

/-- A text that cannot be written is passed over where nothing is written any more. -/
theorem globalText_eq_ok {l : Label} {v : Operand} : globalText l s = .ok v s' ↔
    (l.text? = none → ∃ ref, s.here.block = some ref ∧ (s.program.block ref).locked = true ∧
      (Field.writeAll true (.count 3001 :: l.fields)).2 = none) ∧ assign (.globalText l.text?) s = .ok v s' := by
  cases htext : l.text? with
  | some text => simp [globalText, htext]
  | none =>
    simp only [globalText, htext, Option.isNone_none, if_true, forall_const, bind_eq_ok]
    constructor
    · rintro ⟨_, s1, hplace, hassign⟩
      obtain ⟨ref, href, hw, hs1⟩ := write_eq_ok.1 hplace
      cases hlocked : (s.program.block ref).locked with
      | true =>
        rw [Block.pushFields, hlocked] at hw
        obtain rfl : s = s1 := by
          rw [placeFields_locked href hlocked hw] at hplace
          injection hplace
        exact ⟨⟨ref, href, hlocked, hw⟩, hassign⟩
      | false =>
        subst hs1
        obtain ⟨ref', f, href', -, hw', -⟩ := assign_eq_ok.1 hassign
        cases href.symm.trans href'
        have hopen : ((s.program.mapBlock ref fun b =>
            (b.pushFields (.count 3001 :: l.fields)).1).block ref).locked = false := by
          rw [Program.block, Program.blockAt_mapBlock, if_pos rfl]
          rw [Program.block] at hlocked
          cases hb : s.program.blockAt ref with
          | none => rfl
          | some b =>
            rw [hb] at hlocked
            exact hlocked
        exact absurd hw' (by
          rw [State.withProgram, hopen]
          simp [Instr.write, Instr.fields, Field.writeAll, Field.write, Field.bytes, Field.count,
            Field.integer, Operand.toInt?, fitsSigned, byteRange])
    · rintro ⟨⟨ref, href, hlocked, hw⟩, hassign⟩
      exact ⟨(), s, placeFields_locked href hlocked hw, hassign⟩

theorem mapM_blockId (refs : List BlockRef) :
    refs.mapM blockId s = .ok (refs.map fun r => (s.program.block r).id) s := by
  induction refs with
  | nil => rfl
  | cons r refs ih =>
    rw [List.mapM_cons]
    refine bind_eq_ok.2 ⟨_, s, blockId_eq_ok.2 ⟨rfl, rfl⟩, ?_⟩
    exact bind_eq_ok.2 ⟨_, s, ih, rfl⟩

theorem phi_eq_ok {type : MachineType} {values : List Operand} {refs : List BlockRef} {v : Operand} :
    phi type values refs s = .ok v s' ↔ values.length = refs.length ∧
      assign (.phi type values (refs.map fun r => (s.program.block r).id)) s = .ok v s' := by
  unfold phi
  by_cases h : values.length = refs.length
  · simp only [h, ne_eq, not_true_eq_false, if_false, true_and]
    rw [bind_eq_ok]
    simp only [mapM_blockId, EStateM.Result.ok.injEq]
    constructor
    · rintro ⟨_, _, ⟨rfl, rfl⟩, h⟩
      exact h
    · exact fun h => ⟨_, _, ⟨rfl, rfl⟩, h⟩
  · simp only [h, ne_eq, not_false_eq_true, if_true, false_and, iff_false]
    intro hok
    obtain ⟨_, _, hthrow, -⟩ := bind_eq_ok.1 hok
    exact throw_ne_ok hthrow

/-- What is written in the entry block to make room for a variable. -/
def slotBody (type : MachineType) (nulled : Bool) : Emit Operand := do
  let address ← alloca type
  if nulled then
    let zero ← null type
    discard (store zero address)
  return address

theorem entryBlock_of_ok {e : BlockRef} (h : entryBlock s = .ok e s') : s' = s := by
  rw [entryBlock, get_bind_run] at h
  cases hl : s.lowerer <;> rw [hl] at h
  · exact (pure_eq_ok.1 h).2
  · exact (pure_eq_ok.1 h).2
  · exact absurd h throw_ne_ok

theorem entryVar_eq_ok {type : MachineType} {nulled : Bool} {v : Operand} : entryVar type nulled s = .ok v s' ↔
    ∃ e s1 s2, entryBlock s = .ok e s ∧ moveTo (some e) s = .ok () s1 ∧ slotBody type nulled s1 = .ok v s2 ∧
      moveTo s.here.block s2 = .ok () s' := by
  have hbody : entryVar type nulled = (do
      let e ← entryBlock
      let back ← hereBlock?
      moveTo (some e)
      let address ← slotBody type nulled
      moveTo back
      return address) := by
    cases nulled <;> simp [entryVar, slotBody, setBlock]
  rw [hbody]
  constructor
  · intro hrun
    obtain ⟨e, _, h1, h⟩ := bind_eq_ok.1 hrun
    cases entryBlock_of_ok h1
    obtain ⟨_, _, h2, h⟩ := bind_eq_ok.1 h
    obtain ⟨rfl, rfl⟩ := pure_eq_ok.1 h2
    obtain ⟨_, s1, h3, h⟩ := bind_eq_ok.1 h
    obtain ⟨_, s2, h4, h⟩ := bind_eq_ok.1 h
    obtain ⟨_, _, h5, h⟩ := bind_eq_ok.1 h
    obtain ⟨rfl, rfl⟩ := pure_eq_ok.1 h
    exact ⟨e, s1, s2, h1, h3, h4, h5⟩
  · rintro ⟨e, s1, s2, h1, h3, h4, h5⟩
    exact bind_eq_ok.2 ⟨e, s, h1, bind_eq_ok.2 ⟨_, s, rfl, bind_eq_ok.2 ⟨_, s1, h3, bind_eq_ok.2 ⟨_, s2, h4,
      bind_eq_ok.2 ⟨_, _, h5, rfl⟩⟩⟩⟩⟩

theorem restoring_eq_ok {α : Type} {restore : State → State} {x : Emit α} {a : α} :
    restoring restore x s = .ok a s' ↔ ∃ s1, x s = .ok a s1 ∧ s' = restore s1 := by
  rw [restoring]
  cases x s <;> simp [eq_comm]

theorem withCursor_eq_ok {α : Type} {cursor : Nat} {x : Emit α} {a : α} : withCursor cursor x s = .ok a s' ↔
      ∃ s1, x { s with cursor := cursor } = .ok a s1 ∧ s' = { s1 with cursor := s.cursor } :=
  restoring_eq_ok

end Emit
end Lowering
