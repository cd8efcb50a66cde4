import Lowering.Proofs.FieldRange
import Lowering.Proofs.OpcodeTable

/-!
Orders for the instructions of one block. They are carried out up to the first that ends the block, and a
reader gets back just those; what is ordered after the end changes nothing.
-/
namespace Lowering

/-- The instruction with another number for its value. -/
def Instr.numbered (n : Nat) : Instr → Instr
  | binary op left right _ => binary op left right n
  | unary op value _ => unary op value n
  | store value address _ => store value address n
  | load address _ => load address n
  | member base first second _ => member base first second n
  | element type base indices _ => element type base indices n
  | call func args _ => call func args n
  | callPtr ptr convention args _ => callPtr ptr convention args n
  | int64 k _ => int64 k n
  | smallInt sort k _ => smallInt sort k n
  | float32 x _ => float32 x n
  | float64 x _ => float64 x n
  | null type _ => null type n
  | cast sort value type _ => cast sort value type n
  | alloca type _ => alloca type n
  | globalVar id _ => globalVar id n
  | globalText s _ => globalText s n
  | funcPtr id _ => funcPtr id n
  | phi type values blocks _ => phi type values blocks n
  | sizeOf type _ => sizeOf type n
  | sizeOfElement type _ => sizeOfElement type n
  | i => i

theorem Instr.result?_numbered {i : Instr} (h : i.result?.isSome = true) (n : Nat) :
    (i.numbered n).result? = some n := by
  cases i <;> first | rfl | cases h

/-- An order for an instruction of the block in hand. -/
inductive Order
  /-- An instruction that computes a value; its number is given when it is placed. -/
  | compute (i : Instr) (h : i.result?.isSome = true)
  | phi (type : MachineType) (values : List Operand) (blocks : List BlockRef)
  | branch (target : BlockRef)
  | condBranch (condition : Operand) (yes no : BlockRef)
  | ret (value : Operand)
  | retVoid
  | retNull
  | printType (value : Operand)
  | debugOp
  | debugOp2

namespace Order

open Emit

def run : Order → Emit Unit
  | compute i _ => discard (assign fun n => i.numbered n)
  | phi type values blocks => discard (Emit.phi type values blocks)
  | branch target => Emit.branch target
  | condBranch condition yes no => Emit.condBranch condition yes no
  | ret value => Emit.ret value
  | retVoid => Emit.retVoid
  | retNull => Emit.retNull
  | printType value => place (.printType value)
  | debugOp => place .debugOp
  | debugOp2 => place .debugOp2

def runAll : List Order → Emit Unit
  | [] => pure ()
  | o :: os => do
    o.run
    runAll os

def count : Order → Nat
  | compute .. | phi .. => 1
  | _ => 0

/-- The instruction that is ordered, if the next value has the number `n`. -/
def instr (p : Program) (n : Nat) : Order → Instr
  | compute i _ => i.numbered n
  | phi type values blocks => .phi type values (blocks.map fun r => (p.block r).id) n
  | branch target => .branch (p.block target).id
  | condBranch condition yes no => .condBranch condition (p.block yes).id (p.block no).id
  | ret value => .ret value
  | retVoid => .retVoid
  | retNull => .retNull
  | printType value => .printType value
  | debugOp => .debugOp
  | debugOp2 => .debugOp2

def instrs (p : Program) : Nat → List Order → List Instr
  | _, [] => []
  | n, o :: os => o.instr p n :: instrs p (n + o.count) os

def next : Nat → List Order → Nat
  | n, [] => n
  | n, o :: os => next (n + o.count) os

/-- The order names what is there: a function to branch into, and a block for every value. -/
def Named (p : Program) : Order → Prop
  | branch target => ∃ g, p.funcs[target.func]? = some g
  | phi _ values blocks => values.length = blocks.length
  | _ => True

end Order

/-- The instructions up to the first that ends a block. -/
def Instr.upToEnd : List Instr → List Instr
  | [] => []
  | i :: is => if i.isTerminator then [i] else i :: upToEnd is

theorem Program.mapFunc_id (p : Program) (i : Nat) : p.mapFunc i id = p := by
  have hfuncs : p.funcs.modify i id = p.funcs :=
    Array.ext_getElem? fun k => by rw [Array.getElem?_modify, Option.map_id_fun, id, ite_self]
  rw [mapFunc, hfuncs]

/-- A cursor stands in a block: what the block holds, whether it has ended, and the number of the next
value. Numbers of blocks, and the functions that there are, are those of a program. -/
structure Standing (p : Program) (s : State) (func : Nat) (ref : BlockRef) (n : Nat) (is : List Instr)
    (locked : Bool) : Prop where
  here : s.here = { func := func, block := some ref }
  func : ∃ g, s.program.funcs[func]? = some g ∧ g.nextValue = n
  block : ∃ b, s.program.blockAt ref = some b ∧ b.items.toList = is.map .instr ∧ b.locked = locked
  ids : ∀ r, (s.program.block r).id = (p.block r).id
  funcs : s.program.funcs.size = p.funcs.size

namespace Standing

open Emit

variable {p : Program} {s s' : State} {func n : Nat} {ref : BlockRef} {is : List Instr} {locked : Bool}

theorem locked_block (hs : Standing p s func ref n is locked) : (s.program.block ref).locked = locked := by
  obtain ⟨b, hb, -, hlocked⟩ := hs.block
  rw [Program.block, hb]
  exact hlocked

structure Places (i : Instr) (locked ends : Bool) (g : Block → Block) : Prop where
  id : ∀ b, (g b).id = b.id
  items : ∀ b : Block, b.locked = locked →
    (g b).items = if locked then b.items else b.items.push (.instr i)
  locked : ∀ b : Block, b.locked = locked → (g b).locked = (locked || ends)

variable {i : Instr}

theorem step {ends : Bool} {g : Block → Block} {h : Func → Func} {k : Nat}
    (hs : Standing p s func ref n is locked) (hg : Places i locked ends g)
    (hh : ∀ f, (h f).blocks = f.blocks ∧ (h f).nextValue = f.nextValue + k) :
    Standing p (s.withProgram ((s.program.mapBlock ref g).mapFunc func h)) func ref (n + k)
      (if locked then is else is ++ [i]) (locked || ends) := by
  obtain ⟨f, hf, hnext⟩ := hs.func
  obtain ⟨b, hb, hitems, hlocked⟩ := hs.block
  have hblocks : ∀ f, (h f).blocks = f.blocks := fun f => (hh f).1
  refine ⟨hs.here, ?_, ⟨g b, ?_, ?_, hg.locked b hlocked⟩, fun r => ?_, ?_⟩
  · obtain ⟨f', hf', hnext'⟩ : ∃ f', (s.program.mapBlock ref g).funcs[func]? = some f' ∧
        f'.nextValue = f.nextValue := by
      rw [Program.mapBlock, Program.getElem?_mapFunc, hf]
      split
      next => exact ⟨_, rfl, rfl⟩
      next => exact ⟨f, rfl, rfl⟩
    exact ⟨h f', Program.getElem?_mapFunc_self hf', by rw [(hh f').2, hnext', hnext]⟩
  · rw [State.withProgram, Program.blockAt_mapFunc _ _ hblocks, Program.blockAt_mapBlock, if_pos rfl, hb]
    rfl
  · rw [hg.items b hlocked]
    cases locked <;> simp [hitems]
  · rw [← hs.ids r]
    simp only [State.withProgram, Program.block]
    rw [Program.blockAt_mapFunc _ _ hblocks, Program.blockAt_mapBlock]
    split
    next =>
      cases s.program.blockAt r with
      | none => rfl
      | some c => exact hg.id c
    next => rfl
  · simpa [State.withProgram, Program.mapFunc, Program.mapBlock] using hs.funcs

theorem mapBlock {ends : Bool} {g : Block → Block} (hs : Standing p s func ref n is locked)
    (hg : Places i locked ends g) : Standing p (s.withProgram (s.program.mapBlock ref g)) func ref n
      (if locked then is else is ++ [i]) (locked || ends) := by
  simpa only [Program.mapFunc_id, Nat.add_zero] using hs.step (h := id) (k := 0) hg fun f => ⟨rfl, rfl⟩

theorem places_push (hi : (i.write locked).2 = none) : Places i locked false fun b => (b.push i).1 := by
  refine ⟨fun b => ?_, fun b hb => ?_, fun b hb => ?_⟩
  · unfold Block.push
    split
    · rfl
    · split <;> rfl
  · cases locked with
    | true => rw [Block.push_of_locked hb (by rwa [hb])]; rfl
    | false => rw [Block.push_of_unlocked hb (by rwa [hb])]; rfl
  · cases locked with
    | true => rw [Block.push_of_locked hb (by rwa [hb]), hb]; rfl
    | false =>
      rw [Block.push_of_unlocked hb (by rwa [hb])]
      exact hb

theorem places_endBy {targets : List BlockRef} {leaves : Bool} (hi : (i.write locked).2 = none) :
    Places i locked true (·.endBy i targets leaves) := by
  have hpush := places_push hi
  exact ⟨hpush.id, hpush.items, fun b _ => by simp [Block.endBy]⟩

/-- What is written whole is passed over without a fault where nothing is written any more. -/
theorem write_eq_none (hi : i.Whole) (locked : Bool) : (i.write locked).2 = none := by
  cases locked with
  | false => exact hi
  | true =>
    have hfits := Instr.whole_iff.1 hi
    rw [Instr.write]
    generalize i.fields = fs at hfits
    induction fs with
    | nil => rfl
    | cons f fs ih =>
      obtain ⟨⟨bs, hbs⟩, hfs⟩ := List.forall_mem_cons.1 hfits
      have hpassed : f.write true = .ok [] := by
        cases f with
        | defect fault => cases hbs
        | _ => rfl
      rw [Field.writeAll, hpassed]
      exact ih hfs

theorem exists_assign (hs : Standing p s func ref n is locked) (mk : Nat → Instr) (hwhole : (mk n).Whole)
    (hmk : (mk n).isTerminator = false) : ∃ s', assign mk s = .ok (.id n) s' ∧ Standing p s' func ref (n + 1)
      (if locked then is else is ++ [mk n]) (locked || (mk n).isTerminator) := by
  have hplaces := places_push (write_eq_none hwhole locked)
  have hstep := hs.step (h := fun f => { f with nextValue := f.nextValue + 1 }) hplaces fun f => ⟨rfl, rfl⟩
  obtain ⟨f, hf, rfl⟩ := hs.func
  refine ⟨_, assign_eq_ok.2 ⟨ref, f, by rw [hs.here], by rw [hs.here]; exact hf, ?_, rfl, rfl⟩, ?_⟩
  · rw [hs.locked_block]
    exact write_eq_none hwhole locked
  · rw [pushValue, hs.here, hmk]
    exact hstep

theorem exists_place (hs : Standing p s func ref n is locked) (hwhole : i.Whole)
    (hi : i.isTerminator = false) : ∃ s', place i s = .ok () s' ∧ Standing p s' func ref n
      (if locked then is else is ++ [i]) (locked || i.isTerminator) := by
  have hwrite := write_eq_none hwhole locked
  refine ⟨_, place_eq_ok.2 ⟨ref, by rw [hs.here], by rwa [hs.locked_block], rfl⟩, ?_⟩
  rw [hi]
  exact hs.mapBlock (places_push hwrite)

theorem exists_ends (hs : Standing p s func ref n is locked) (hwhole : i.Whole)
    (hi : i.isTerminator = true) (targets : List BlockRef) (leaves : Bool) :
    ∃ s', Ends s s' i targets leaves ∧ Standing p s' func ref n
      (if locked then is else is ++ [i]) (locked || i.isTerminator) := by
  have hwrite := write_eq_none hwhole locked
  refine ⟨_, ⟨ref, by rw [hs.here], by rwa [hs.locked_block], rfl⟩, ?_⟩
  rw [hi]
  exact hs.mapBlock (places_endBy hwrite)

theorem exists_run (hs : Standing p s func ref n is locked) {o : Order} (hnamed : o.Named p)
    (hwhole : (o.instr p n).Whole) : ∃ s', o.run s = .ok () s' ∧ Standing p s' func ref (n + o.count)
      (if locked then is else is ++ [o.instr p n]) (locked || (o.instr p n).isTerminator) := by
  cases o with
  | compute i h =>
    have hi : (i.numbered n).isTerminator = false := by
      cases i <;> first | rfl | cases h
    obtain ⟨s', hrun, hs'⟩ := hs.exists_assign (fun n => i.numbered n) hwhole hi
    exact ⟨s', map_eq_ok.2 ⟨_, hrun, rfl⟩, hs'⟩
  | phi type values blocks =>
    obtain ⟨s', hrun, hs'⟩ := hs.exists_assign _ hwhole rfl
    refine ⟨s', map_eq_ok.2 ⟨.id n, phi_eq_ok.2 ⟨hnamed, ?_⟩, rfl⟩, hs'⟩
    simpa only [hs.ids] using hrun
  | branch target =>
    obtain ⟨s', hends, hs'⟩ := hs.exists_ends hwhole rfl [target] false
    refine ⟨s', branch_eq_ok.2 ⟨?_, by rwa [hs.ids]⟩, hs'⟩
    obtain ⟨g, hg⟩ := hnamed
    have hlt := (Array.getElem?_eq_some_iff.1 hg).1
    exact ⟨_, Array.getElem?_eq_getElem (by rw [hs.funcs]; exact hlt)⟩
  | condBranch condition yes no =>
    obtain ⟨s', hends, hs'⟩ := hs.exists_ends hwhole rfl [yes, no] false
    exact ⟨s', condBranch_eq_ok.2 (by rwa [hs.ids, hs.ids]), hs'⟩
  | ret value =>
    obtain ⟨s', hends, hs'⟩ := hs.exists_ends hwhole rfl [] true
    exact ⟨s', leave_eq_ok.2 hends, hs'⟩
  | retVoid =>
    obtain ⟨s', hends, hs'⟩ := hs.exists_ends hwhole rfl [] true
    exact ⟨s', leave_eq_ok.2 hends, hs'⟩
  | retNull =>
    obtain ⟨s', hends, hs'⟩ := hs.exists_ends hwhole rfl [] true
    exact ⟨s', leave_eq_ok.2 hends, hs'⟩
  | printType value => exact hs.exists_place hwhole rfl
  | debugOp => exact hs.exists_place hwhole rfl
  | debugOp2 => exact hs.exists_place hwhole rfl

/-- Orders are carried out up to the first that ends the block. -/
theorem exists_runAll {orders : List Order} (hs : Standing p s func ref n is locked)
    (hnamed : ∀ o ∈ orders, o.Named p) (hwhole : ∀ i ∈ Order.instrs p n orders, i.Whole) :
    ∃ s', Order.runAll orders s = .ok () s' ∧ Standing p s' func ref (Order.next n orders)
      (if locked then is else is ++ Instr.upToEnd (Order.instrs p n orders))
      (locked || (Order.instrs p n orders).any Instr.isTerminator) := by
  induction orders generalizing s n is locked with
  | nil => exact ⟨s, rfl, by simpa [Order.instrs, Order.next, Instr.upToEnd] using hs⟩
  | cons o os ih =>
    obtain ⟨hfirst, hrest⟩ := List.forall_mem_cons.1 hnamed
    obtain ⟨hi, his⟩ := List.forall_mem_cons.1 hwhole
    obtain ⟨s1, hrun, hs1⟩ := hs.exists_run hfirst hi
    obtain ⟨s', hruns, hs'⟩ := ih hs1 hrest his
    refine ⟨s', bind_eq_ok.2 ⟨(), s1, hrun, hruns⟩, ?_⟩
    rw [Order.next, Order.instrs, List.any_cons, ← Bool.or_assoc]
    cases locked with
    | true => simpa using hs'
    | false =>
      rw [Instr.upToEnd]
      cases hend : (o.instr p n).isTerminator with
      | true => simpa [hend] using hs'
      | false => simpa [hend] using hs'

theorem bytes_block (hs : Standing p s func ref n is locked) :
    (s.program.block ref).bytes = is.flatMap Instr.bytes := by
  obtain ⟨b, hb, hitems, -⟩ := hs.block
  rw [Program.block, hb, Option.getD_some, Block.bytes, hitems, List.flatMap_map]
  rfl

end Standing

/-- What is read of instructions that were written whole is what was written, unless there is a text among
them that is longer in bytes than in characters. -/
theorem readBlock_records {is : List Instr} (hwhole : ∀ i ∈ is, i.Whole) :
    readBlock (is.flatMap Instr.bytes) = some (is.map Instr.record) ↔ ∀ i ∈ is, i.IsPlain := by
  rw [readBlock_eq_some_iff, List.forall_mem_map, List.flatMap_map]
  constructor
  · rintro ⟨hfits, hbytes⟩ i hi
    have heq := eq_of_flatMap_eq (fun i hi => (Instr.bytes_record (hwhole i hi)).1) hbytes i hi
    exact (Instr.bytes_record (hwhole i hi)).2.1 ⟨hfits i hi, heq⟩
  · intro hplain
    have hread := fun i hi => (Instr.bytes_record (hwhole i hi)).2.2 (hplain i hi)
    exact ⟨fun i hi => (hread i hi).1, List.flatMap_congr fun i hi => (hread i hi).2⟩

theorem Instr.mem_of_mem_upToEnd {is : List Instr} {i : Instr} (h : i ∈ upToEnd is) : i ∈ is := by
  induction is with
  | nil => exact h
  | cons j is ih =>
    rw [upToEnd] at h
    split at h
    · simp_all
    · rcases List.mem_cons.1 h with rfl | h
      · simp
      · exact List.mem_cons_of_mem _ (ih h)

namespace Order

theorem instrs_append (p : Program) (n : Nat) (before after : List Order) :
    instrs p n (before ++ after) = instrs p n before ++ instrs p (next n before) after := by
  induction before generalizing n with
  | nil => rfl
  | cons o os ih => rw [List.cons_append, instrs, ih, instrs, next, List.cons_append]

theorem runAll_append (before after : List Order) :
    runAll (before ++ after) = runAll before >>= fun _ => runAll after := by
  induction before with
  | nil => rfl
  | cons o os ih =>
    rw [List.cons_append, runAll, ih, runAll, bind_assoc]

end Order

/-- Orders for a text, an end and something after the end. -/
def orderedText (text : String) : List Order :=
  [.compute (.globalText (some text) 0) rfl, .retNull, .debugOp]

/-- A state in the only block there is, which is empty. -/
def emptyBlockState : State :=
  { program := {
      funcs := #[{ name := "f", blocks := #[{ id := 0 }] }]
      cursors := #[{ func := 0, block := some ⟨0, 0⟩ }] } }

theorem standing_emptyBlockState : Standing emptyBlockState.program emptyBlockState 0 ⟨0, 0⟩ 0 [] false :=
  ⟨rfl, ⟨_, rfl, rfl⟩, ⟨_, rfl, rfl, rfl⟩, fun _ => rfl, rfl⟩

end Lowering
