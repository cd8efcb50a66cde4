import Lowering.Proofs.BuilderCalls
import Lowering.Proofs.Framing.Lowering

/-!
The visit of a function, from its tree or from stack code. It is a row of calls of the builder: room for a variable
is made in the entry block, whatever block code goes to, and all the rest goes to other blocks. So the entry block
stays open until the visit is over, and nothing goes back to it.
-/
namespace Lowering

open Emit

variable {α : Type} {s t : State} {p q : Program} {r : BlockRef} {e : Instr}

namespace Instr

/-- The instruction makes room for a variable. -/
def isSlot : Instr → Bool
  | alloca .. => true
  | _ => false

theorem isSlot_of_isTerminator (h : e.isTerminator = true) : e.isSlot = false := by
  cases e <;> first | rfl | cases h

theorem isSlot_of_refers (he : e.refers = false) : e.isSlot = false := by
  cases e <;> first | rfl | cases he

theorem targets_eq_nil (hend : e.isTerminator = false) (he : e.refers = false) : e.targets = [] := by
  cases e <;> simp_all [isTerminator, refers, targets]

end Instr

namespace Block

variable {b : Block}

theorem mem_push {j : Instr} (h : Item.instr j ∈ (b.push e).1.items) : .instr j ∈ b.items ∨ j = e := by
  unfold push at h
  split at h
  · exact .inl (by simpa using h)
  · split at h
    · exact .inl h
    · simpa using h

theorem branches_push (b : Block) (e : Instr) : (b.push e).1.branches = b.branches := by
  unfold push
  split
  · rfl
  · split <;> rfl

end Block

namespace Program

def HoldsAt (p : Program) (r : BlockRef) (e : Instr) : Prop := ∃ b, p.blockAt r = some b ∧ .instr e ∈ b.items

theorem Kept.blockAt (h : p.Kept q) {b : Block} (hb : q.blockAt r = some b) : p.blockAt r = some b := by
  obtain ⟨g, hg, hblock⟩ := Option.bind_eq_some_iff.1 hb
  rcases h.added _ g hg with hold | hnew
  · rw [Program.blockAt, hold]
    exact hblock
  · rw [hnew.blocks] at hblock
    cases hblock

theorem blockAt_addBlock {f : Nat} {label : Option String} {b : Block}
    (h : (p.mapFunc f (·.addBlock label)).blockAt r = some b) :
    p.blockAt r = some b ∨ b.items = #[] ∧ b.branches = #[] := by
  rw [Program.blockAt, getElem?_mapFunc] at h
  split at h
  next =>
    obtain ⟨g', hg', hb⟩ := Option.bind_eq_some_iff.1 h
    obtain ⟨g, hg, rfl⟩ := Option.map_eq_some_iff.1 hg'
    rw [Func.addBlock, Array.getElem?_push] at hb
    split at hb
    · cases hb
      exact .inr ⟨rfl, rfl⟩
    · rw [Program.blockAt, hg]
      exact .inl hb
  next => exact .inl h

end Program

/-- What is lowered, the implementation in hand, the entry block of its function and the block that its code begins in. -/
def State.site? (s : State) : Option (Lowerer × Nat × BlockRef × BlockRef) :=
  match s.lowerer with
  | .tree => some (.tree, s.tree.impl, s.tree.entry, s.tree.content)
  | .stack => some (.stack, s.stack.impl, s.stack.entry, s.stack.content)
  | .bare => none

/-- The other blocks that are kept for later. -/
def State.kept (s : State) : List BlockRef :=
  match s.lowerer with
  | .tree => s.tree.exits ++ s.tree.handlers.filterMap id
  | .stack => s.stack.blockAt.map (·.2)
  | .bare => []

/-- One call of the builder in a visit: it computes a value, makes room for a variable, makes a block, goes to one or
ends the one in hand, or asks the tables for something. What is not of the program may change at any time. -/
inductive Visit.Step (entry : BlockRef) (s : State) : State → Prop
  | value {mk : Nat → Instr} {v : Operand} {t : State} (hend : ∀ n, (mk n).isTerminator = false)
      (hslot : ∀ n, (mk n).isSlot = false) (htargets : ∀ k, ∀ n ∈ (mk k).targets, n < s.program.width entry.func)
      (h : assign mk s = .ok v t) : Visit.Step entry s t
  | slot {type : MachineType} {nulled : Bool} {v : Operand} {t : State} (h : entryVar type nulled s = .ok v t) : Visit.Step entry s t
  | block {label : Option String} {r : BlockRef} {t : State} (h : createBlock label s = .ok r t) : Visit.Step entry s t
  | move {r : BlockRef} {t : State} (hr : r.func = entry.func ∧ r ≠ entry) (h : setBlock r s = .ok () t) : Visit.Step entry s t
  | leave {e : Instr} {rs : List BlockRef} {leaves : Bool} {t : State} (hend : e.isTerminator = true)
      (hout : rs ≠ [] ∨ leaves = true) (hrs : entry ∉ rs) (htargets : ∀ n ∈ e.targets, n < s.program.width entry.func)
      (h : Ends s t e rs leaves) : Visit.Step entry s t
  | request {α : Type} (x : Build α) [Program.Request x] {a : α} {t : State} (h : build x s = .ok a t) : Visit.Step entry s t
  | beside {t : State} (hprogram : t.program = s.program) (hcursor : t.cursor = s.cursor) (hsite : t.site? = s.site?) :
      Visit.Step entry s t

def Visit.Reaches (entry : BlockRef) : State → State → Prop := Relation.ReflTransGen (Visit.Step entry)

/-- What a visit is of: an implementation, the entry block of its code and the cursor of its function. -/
structure Visit where
  lowerer : Lowerer
  impl : Nat
  entry : BlockRef
  cursor : Nat
  /-- How the entry block has ended, if it has. -/
  last : Option Instr := none
  before : Program
  start : State

namespace Visit

def content (v : Visit) : BlockRef := ⟨v.entry.func, v.entry.index + 1⟩

theorem content_ne (v : Visit) : v.content ≠ v.entry :=
  fun h => Nat.succ_ne_self v.entry.index (congrArg BlockRef.index h)

/-- The visit when the entry block has ended. -/
def closing (v : Visit) (t : State) : Visit := { v with last := some (.branch v.content.index), start := t }

end Visit

variable {v : Visit}

/-- No block of the function goes to the entry block, and room for variables has been made nowhere else, beside what
there was before. -/
structure State.Visits (v : Visit) (s : State) : Prop where
  sound : s.program.Sound
  site : s.site? = some (v.lowerer, v.impl, v.entry, v.content)
  cursor : s.cursor = v.cursor
  func : ∃ g : Func, s.program.funcs[v.entry.func]? = some g ∧ g.cursor = v.cursor
  content_lt : v.content.index < s.program.width v.entry.func
  slots : ∀ r e, e.isSlot = true → s.program.HoldsAt r e → r = v.entry ∨ v.before.HoldsAt r e
  branches : ∀ r b, r.func = v.entry.func → s.program.blockAt r = some b → v.entry ∉ b.branches
  inner : ∀ k e, s.program.HoldsAt ⟨v.entry.func, k⟩ e → ∀ n ∈ e.targets, n < s.program.width v.entry.func

/-- The entry block has ended in the way told or is still open, and then code goes to another block. -/
structure State.Apart (v : Visit) (s : State) : Prop where
  opened : v.last = none → s.program.OpenAt v.entry
  ended : ∀ e, v.last = some e → ∃ b, s.program.blockAt v.entry = some b ∧ b.terminator? = some e
  place : ∀ r, s.here.block = some r → r.func = v.entry.func ∧ (r = v.entry → v.last ≠ none)

namespace State.Visits

theorem here (hs : s.Visits v) : ∃ c : Cursor, s.program.cursors[s.cursor]? = some c ∧ s.here = c ∧ c.func = v.entry.func := by
  obtain ⟨g, hg, hcursor⟩ := hs.func
  obtain ⟨c, hc, hfunc⟩ := hs.sound.cursors _ g hg
  rw [hcursor, ← hs.cursor] at hc
  exact ⟨c, hc, by rw [State.here, hc]; rfl, hfunc⟩

theorem id_lt (hs : s.Visits v) (hr : r.func = v.entry.func) : (s.program.block r).id < s.program.width v.entry.func := by
  by_cases hlt : r.index < s.program.width r.func
  · rw [hs.sound.block_id hlt, ← hr]
    exact hlt
  · obtain ⟨g, hg, -⟩ := hs.func
    rw [Program.width, hr, hg, Option.map_some, Option.getD_some] at hlt
    rw [Program.block, Program.blockAt, hr, hg, Option.bind_some, Array.getElem?_eq_none (Nat.le_of_not_lt hlt)]
    exact Nat.zero_lt_of_lt hs.content_lt

/-- An instruction that is added makes room for a variable in the entry block only and goes to blocks that there are. -/
theorem of_grown (hs : s.Visits v) (hq : q.Sound) (hgrown : s.program.Grown q)
    (hheld : ∀ r e, q.HoldsAt r e → s.program.HoldsAt r e ∨
      (e.isSlot = true → r = v.entry) ∧ ∀ n ∈ e.targets, n < s.program.width v.entry.func)
    (hbranches : ∀ r b, q.blockAt r = some b → v.entry ∈ b.branches →
      ∃ c, s.program.blockAt r = some c ∧ v.entry ∈ c.branches) : (s.withProgram q).Visits v where
  sound := hq
  site := hs.site
  cursor := hs.cursor
  func := by
    obtain ⟨g, hg, hcursor⟩ := hs.func
    obtain ⟨g', hg', hgg'⟩ := hgrown.funcs _ g hg
    exact ⟨g', hg', hgg'.cursor.trans hcursor⟩
  content_lt := Nat.lt_of_lt_of_le hs.content_lt (hgrown.width_le _)
  slots r e he h := (hheld r e h).elim (hs.slots r e he) fun hnew => .inl (hnew.1 he)
  branches r b hr hb h := by
    obtain ⟨c, hc, h⟩ := hbranches r b hb h
    exact hs.branches r c hr hc h
  inner k e h n hn := by
    refine Nat.lt_of_lt_of_le ?_ (hgrown.width_le _)
    exact (hheld _ e h).elim (fun h => hs.inner k e h n hn) fun hnew => hnew.2 n hn

/-- A block is written to, with an instruction that blocks other than the entry block follow. -/
theorem mapBlock (hs : s.Visits v) {u : Block → Block} {h : Func → Func} {f : Nat} (rs : List BlockRef)
    (hext : s.program.Extends ((s.program.mapBlock r u).mapFunc f h)) (hh : ∀ g, (h g).blocks = g.blocks)
    (hu : ∀ b, (∀ j, .instr j ∈ (u b).items → .instr j ∈ b.items ∨ j = e) ∧ (u b).branches = b.branches ++ rs.toArray)
    (hslot : e.isSlot = true → r = v.entry) (htargets : ∀ n ∈ e.targets, n < s.program.width v.entry.func)
    (hrs : v.entry ∉ rs) : (s.withProgram ((s.program.mapBlock r u).mapFunc f h)).Visits v := by
  obtain ⟨hsound, hgrown⟩ := hext hs.sound
  refine hs.of_grown hsound hgrown (fun r' j ⟨b, hb, hj⟩ => ?_) fun r' b hb hentry => ?_
  all_goals
    rw [Program.blockAt_mapFunc _ _ hh, Program.blockAt_mapBlock] at hb
    split at hb
  · next hr =>
    obtain ⟨c, hc, rfl⟩ := Option.map_eq_some_iff.1 hb
    refine ((hu c).1 j hj).imp (fun hj => ⟨c, hc, hj⟩) ?_
    rintro rfl
    exact ⟨fun h => hr ▸ hslot h, htargets⟩
  · exact .inl ⟨b, hb, hj⟩
  · obtain ⟨c, hc, rfl⟩ := Option.map_eq_some_iff.1 hb
    rw [(hu c).2] at hentry
    exact ⟨c, hc, by simpa [hrs] using hentry⟩
  · exact ⟨b, hb, hentry⟩

theorem moveTo {ref : Option BlockRef} {u : Unit} (hs : s.Visits v) (h : moveTo ref s = .ok u t) :
    t.Visits v ∧ t.here = { s.here with block := ref } := by
  obtain ⟨hsound, hgrown⟩ := Grows.extends_of_ok h hs.sound
  obtain ⟨c, hc, -⟩ := hs.here
  have hmoved := moveTo_eq_ok.1 h
  have hblockAt : ∀ r, t.program.blockAt r = s.program.blockAt r := fun r => by rw [hmoved]; rfl
  refine ⟨?_, by simp [hmoved, State.here, State.withProgram, Array.getElem?_modify, hc]⟩
  rw [show t = s.withProgram t.program by rw [hmoved]; rfl]
  refine hs.of_grown hsound hgrown (fun r e ⟨b, hb, he⟩ => .inl ⟨b, hblockAt r ▸ hb, he⟩) fun r b hb h => ?_
  exact ⟨b, hblockAt r ▸ hb, h⟩

theorem assign {mk : Nat → Instr} {a : Operand} (hs : s.Visits v) (hend : ∀ n, (mk n).isTerminator = false)
    (hslot : ∀ n r, (mk n).isSlot = true → s.here.block = some r → r = v.entry)
    (htargets : ∀ k, ∀ n ∈ (mk k).targets, n < s.program.width v.entry.func) (h : assign mk s = .ok a t) : t.Visits v := by
  have hext := (Grows.assign hend).extends_of_ok h
  obtain ⟨ref, g, href, -, -, -, rfl⟩ := assign_eq_ok.1 h
  exact hs.mapBlock [] hext (fun _ => rfl) (fun b => ⟨fun _ => Block.mem_push, by simp [Block.branches_push]⟩)
    (fun hn => hslot _ _ hn href) (htargets _) (by simp)

theorem lowerer (hs : s.Visits v) : s.lowerer = v.lowerer := by
  have hsite := hs.site
  rw [State.site?] at hsite
  cases hl : s.lowerer <;> simp_all

theorem entryBlock (hs : s.Visits v) : entryBlock s = .ok v.entry s := by
  have hsite := hs.site
  rw [State.site?] at hsite
  rw [Emit.entryBlock, get_bind_run]
  cases hl : s.lowerer <;> simp_all [pure_eq_ok]

theorem currentImpl (hs : s.Visits v) : currentImpl s = .ok v.impl s := by
  have hsite := hs.site
  rw [State.site?] at hsite
  rw [Emit.currentImpl, get_bind_run]
  cases hl : s.lowerer <;> simp_all [pure_eq_ok]

theorem entryVar {type : MachineType} {nulled : Bool} {a : Operand} (hs : s.Visits v) (h : entryVar type nulled s = .ok a t) :
    t.Visits v ∧ t = s.withProgram t.program := by
  obtain ⟨_, s1, s2, hentry, h1, hbody, h2⟩ := entryVar_eq_ok.1 h
  cases hs.entryBlock.symm.trans hentry
  have hmove : ∀ {ref : Option BlockRef} {u u' : State}, u.Visits v → u = s.withProgram u.program →
      Emit.moveTo ref u = .ok () u' → u'.Visits v ∧ u' = s.withProgram u'.program ∧ u'.here.block = ref := by
    intro ref u u' hu heq hrun
    obtain ⟨hu', hhere⟩ := hu.moveTo hrun
    exact ⟨hu', by rw [moveTo_eq_ok.1 hrun, heq]; rfl, by rw [hhere]⟩
  -- what is written meanwhile goes to the entry block
  let R : Regime := .lasting fun u => u.Visits v ∧ u = s.withProgram u.program ∧ u.here.block = some v.entry
  have : Heeds R (slotBody type nulled) := by
    refine heeds_slotBody fun mk hend htargets => heeds_lasting fun ⟨hu, heq, hhere⟩ hrun => ?_
    refine ⟨hu.assign hend (fun _ r _ hr => Option.some.inj (hr.symm.trans hhere)) (by simp [htargets]) hrun, ?_⟩
    obtain ⟨ref, g, href, -, -, -, rfl⟩ := assign_eq_ok.1 hrun
    exact ⟨by rw [heq]; rfl, hhere⟩
  obtain ⟨hs2, heq, -⟩ := holds_of_ok (R := R) (hmove hs rfl h1) hbody
  exact ⟨(hmove hs2 heq h2).1, (hmove hs2 heq h2).2.1⟩

end State.Visits

theorem State.Stays.here_eq (h : s.Stays t) (hs : s.Visits v) : t.here = s.here := by
  obtain ⟨c, hc, hhere, -⟩ := hs.here
  rw [State.here, h.cursor, h.here c hc, hhere]
  rfl

namespace State.Apart

theorem of_stays (ha : s.Apart v) (hs : s.Visits v) (h : s.Stays t) : t.Apart v where
  opened hlast := (h.opened _).2 (ha.opened hlast)
  ended e he := by
    obtain ⟨b, hb, hlast⟩ := ha.ended e he
    exact hs.sound.terminator_mono h.grown hb hlast
  place r hr := ha.place r (h.here_eq hs ▸ hr)

end State.Apart

theorem Visit.Step.extends {entry : BlockRef} (h : Visit.Step entry s t) : s.program.Extends t.program := by
  cases h with
  | value hend _ _ h => exact (Grows.assign hend).extends_of_ok h
  | slot h => exact fun hs => ⟨(Stays.stays hs h).sound, (Stays.stays hs h).grown⟩
  | block h | move _ h => exact Grows.extends_of_ok h
  | leave hend hout _ _ h => exact h.extends hend hout
  | request x h => exact Grows.extends_of_ok h
  | beside hprogram => exact fun hs => ⟨hprogram ▸ hs, hprogram ▸ .refl _⟩

theorem Visit.Reaches.extends {entry : BlockRef} (h : Visit.Reaches entry s t) : s.program.Extends t.program := by
  intro hs
  induction h with
  | refl => exact ⟨hs, .refl _⟩
  | tail _ hstep ih => exact ⟨(hstep.extends ih.1).1, ih.2.trans (hstep.extends ih.1).2⟩

/-- Every step keeps a visit to its function, away from the entry block. -/
theorem Visit.Step.visits (h : Visit.Step v.entry s t) (hs : s.Visits v) (ha : s.Apart v) : t.Visits v ∧ t.Apart v := by
  cases h with
  | value hend hslot htargets h =>
    exact ⟨hs.assign hend (fun n _ hn => by rw [hslot n] at hn; cases hn) htargets h,
      ha.of_stays hs ((stays_assign hend).stays hs.sound h)⟩
  | slot h => exact ⟨(hs.entryVar h).1, ha.of_stays hs (Stays.stays hs.sound h)⟩
  | block h =>
    obtain ⟨hsound, hgrown⟩ := Grows.extends_of_ok h hs.sound
    obtain ⟨-, rfl⟩ := createBlock_eq_ok.1 h
    refine ⟨hs.of_grown hsound hgrown (fun r e hheld => ?_) fun r b hb hentry => ?_,
      fun hlast => (ha.opened hlast).addBlock, fun e he => ?_, ha.place⟩
    · obtain ⟨b, hb, he⟩ := hheld
      rcases Program.blockAt_addBlock hb with hold | ⟨hitems, -⟩
      · exact .inl ⟨b, hold, he⟩
      · simp [hitems] at he
    · rcases Program.blockAt_addBlock hb with hold | ⟨-, hnone⟩
      · exact ⟨b, hold, hentry⟩
      · simp [hnone] at hentry
    · obtain ⟨b, hb, hlast⟩ := ha.ended e he
      exact hs.sound.terminator_mono hgrown hb hlast
  | move hr h =>
    obtain ⟨ht, hhere⟩ := hs.moveTo h
    have hmoved := moveTo_eq_ok.1 h
    refine ⟨ht, fun hlast => ?_, fun e he => ?_, fun r' hr' => ?_⟩
    · rw [hmoved]; exact ha.opened hlast
    · rw [hmoved]; exact ha.ended e he
    · rw [hhere] at hr'
      cases hr'
      exact ⟨hr.1, fun heq => absurd heq hr.2⟩
  | leave hend hout hrs htargets h =>
    have hext := h.extends hend hout
    obtain ⟨ref, href, -, rfl⟩ := h
    rw [← Program.mapFunc_id (s.program.mapBlock ..) 0] at hext ⊢
    refine ⟨hs.mapBlock _ hext (fun _ => rfl) (fun b => ⟨fun _ => Block.mem_push, by simp [Block.endBy, Block.branches_push]⟩)
      (fun hslot => ?_) htargets hrs, fun hlast => ?_, fun e he => ?_, ha.place⟩
    · rw [Instr.isSlot_of_isTerminator hend] at hslot
      cases hslot
    · rw [Program.mapFunc_id]
      exact (ha.opened hlast).mapBlock fun heq => absurd hlast ((ha.place ref href).2 heq)
    · obtain ⟨b, hb, hlast⟩ := ha.ended e he
      exact hs.sound.terminator_mono (hext hs.sound).2 hb hlast
  | request x h =>
    refine ⟨?_, ha.of_stays hs (Stays.stays hs.sound h)⟩
    obtain ⟨q, hx, rfl⟩ := build_eq_ok.1 h
    obtain ⟨hsound, hgrown⟩ := Program.Request.extends_of_ok hx hs.sound
    have hkept := Program.Request.kept hs.sound hx
    refine hs.of_grown hsound hgrown (fun r e hheld => .inl ?_) fun r b hb hentry => ⟨b, hkept.blockAt hb, hentry⟩
    obtain ⟨b, hb, he⟩ := hheld
    exact ⟨b, hkept.blockAt hb, he⟩
  | beside hprogram hcursor hsite =>
    refine ⟨?_, ha.of_stays hs (.of_same hs.sound hprogram hcursor)⟩
    obtain ⟨hsound, hsite', hc, hfunc, hlt, hslots, hbranches, hinner⟩ := hs
    rw [← hprogram] at hsound hfunc hlt hslots hbranches hinner
    exact ⟨hsound, hsite.trans hsite', hcursor.trans hc, hfunc, hlt, hslots, hbranches, hinner⟩

theorem Visit.Reaches.visits (h : Visit.Reaches v.entry s t) (hs : s.Visits v) (ha : s.Apart v) : t.Visits v ∧ t.Apart v := by
  induction h with
  | refl => exact ⟨hs, ha⟩
  | tail _ hstep ih => exact hstep.visits ih.1 ih.2

structure State.Visiting (v : Visit) (s : State) : Prop extends s.Visits v, s.Apart v where
  reached : Visit.Reaches v.entry v.start s
  code : (s.impls[v.impl]?.getD default).code = some v.entry.func
  kept : ∀ r ∈ s.kept, r.func = v.entry.func ∧ r ≠ v.entry

namespace State.Visiting

theorem step (hs : s.Visiting v) (h : Visit.Step v.entry s t) (himpls : t.impls = s.impls)
    (hkept : ∀ r ∈ t.kept, r ∈ s.kept ∨ r.func = v.entry.func ∧ r ≠ v.entry) : t.Visiting v where
  toVisits := (h.visits hs.toVisits hs.toApart).1
  toApart := (h.visits hs.toVisits hs.toApart).2
  reached := hs.reached.tail h
  code := himpls ▸ hs.code
  kept r hr := (hkept r hr).elim (hs.kept r) id

theorem written (hs : s.Visiting v) (h : Visit.Step v.entry s t) (ht : t = s.withProgram t.program) : t.Visiting v := by
  rw [ht] at h ⊢
  exact hs.step h rfl fun _ => .inl

end State.Visiting

/-- A visit goes on in its function. -/
def Visit.regime (v : Visit) : Regime := .lasting (·.Visiting v) fun r => r.func = v.entry.func ∧ r ≠ v.entry

instance : v.regime.Lax := ⟨fun _ => trivial⟩
instance : v.regime.Still := ⟨fun h => h⟩

namespace Emit

theorem heeds_step {x : Emit α} (h : ∀ {s t : State} {a : α}, s.Visiting v → x s = .ok a t →
    Visit.Step v.entry s t ∧ t = s.withProgram t.program) : Heeds v.regime x :=
  heeds_lasting fun hs hx => hs.written (h hs hx).1 (h hs hx).2

theorem heeds_value {mk : Nat → Instr} (hend : ∀ n, (mk n).isTerminator = false) (hslot : ∀ n, (mk n).isSlot = false)
    (htargets : ∀ n, (mk n).targets = []) : Heeds v.regime (assign mk) :=
  heeds_step fun _ h => by
    refine ⟨.value hend hslot (by simp [htargets]) h, ?_⟩
    obtain ⟨_, _, -, -, -, -, rfl⟩ := assign_eq_ok.1 h
    rfl

/-- A value that is joined comes from blocks of the function. -/
theorem heeds_phi {type : MachineType} {values : List Operand} {refs : List BlockRef}
    (hrefs : ∀ r ∈ refs, r.func = v.entry.func) : Heeds v.regime (phi type values refs) :=
  heeds_step fun hs h => by
    have hassign := (phi_eq_ok.1 h).2
    refine ⟨.value (fun _ => rfl) (fun _ => rfl) (fun _ n hn => ?_) hassign, ?_⟩
    · obtain ⟨r, hr, rfl⟩ := List.mem_map.1 hn
      exact hs.id_lt (hrefs r hr)
    · obtain ⟨_, _, -, -, -, -, rfl⟩ := assign_eq_ok.1 hassign
      rfl

theorem heeds_ends {x : Emit Unit} {e : State → Instr} {rs : List BlockRef} {leaves : Bool}
    (h : ∀ {s t : State}, x s = .ok () t → Ends s t (e s) rs leaves) (hend : ∀ s, (e s).isTerminator = true)
    (hout : rs ≠ [] ∨ leaves = true) (hrs : v.entry ∉ rs)
    (htargets : ∀ s : State, s.Visiting v → ∀ n ∈ (e s).targets, n < s.program.width v.entry.func) : Heeds v.regime x :=
  heeds_step fun {s _ _} hs hx => by
    have hends := h hx
    refine ⟨.leave (hend s) hout hrs (htargets s hs) hends, ?_⟩
    obtain ⟨_, -, -, rfl⟩ := hends
    rfl

theorem heeds_leave (hend : e.isTerminator = true) (htargets : e.targets = []) : Heeds v.regime (leave e) :=
  heeds_ends leave_eq_ok.1 (fun _ => hend) (.inr rfl) (by simp) (by simp [htargets])

instance : Heeds v.regime retVoid := heeds_leave rfl rfl

instance (a : Operand) : Heeds v.regime (assign (.smallInt .int32 a)) :=
  heeds_value (fun _ => rfl) (fun _ => rfl) fun _ => rfl

instance : Heeds v.regime hereBlock? := heeds_lasting fun hs h => by cases h; exact hs

instance : v.regime.Computes := by
  refine Regime.computes_of_same (fun hs hprogram hcursor hlowerer htree hstack himpls => ?_)
    (fun x => heeds_step fun _ h => ?_) (fun mk hend hmk => ?_) fun type nulled => heeds_step fun hs h => ?_
  · refine hs.step (.beside hprogram hcursor ?_) himpls fun r hr => .inl ?_
    · rw [State.site?, hlowerer, htree, hstack]; rfl
    · rwa [State.kept, hlowerer, htree, hstack] at hr
  · refine ⟨.request x h, ?_⟩
    obtain ⟨_, -, rfl⟩ := build_eq_ok.1 h
    rfl
  · exact heeds_value hend (fun n => Instr.isSlot_of_refers (hmk n)) fun n => Instr.targets_eq_nil (hend n) (hmk n)
  · exact ⟨.slot h, (hs.entryVar h).2⟩

instance : v.regime.Calls := ⟨fun _ _ => heeds_value (fun _ => rfl) (fun _ => rfl) fun _ => rfl⟩

instance (r : BlockRef) [h : Inside v.regime r] : Heeds v.regime (branch r) :=
  heeds_ends (fun h => (branch_eq_ok.1 h).2) (fun _ => rfl) (.inl (by simp)) (by simpa using h.room.2.symm) fun s hs => by
    simpa [Instr.targets] using hs.id_lt h.room.1

instance : v.regime.Branches where
  createBlock label := ⟨agree_lasting fun {s _ _} hs h => by
    have hstep : Visit.Step v.entry _ _ := .block h
    obtain ⟨rfl, rfl⟩ := createBlock_eq_ok.1 h
    obtain ⟨c, -, hhere, hfunc⟩ := hs.here
    refine ⟨hs.written hstep rfl, hhere ▸ hfunc, fun heq => ?_⟩
    have hlt := Nat.lt_of_succ_lt hs.content_lt
    rw [← heq] at hlt
    exact Nat.lt_irrefl _ hlt⟩
  setBlock r hr := heeds_step fun _ h => ⟨.move hr.room h, by rw [moveTo_eq_ok.1 h]; rfl⟩
  branch _ _ := inferInstance
  condBranch c yes no hyes hno :=
    heeds_ends condBranch_eq_ok.1 (fun _ => rfl) (.inl (by simp)) (by simp [hyes.room.2.symm, hno.room.2.symm]) fun s hs => by
      simpa [Instr.targets] using ⟨hs.id_lt hyes.room.1, hs.id_lt hno.room.1⟩
  ret _ := heeds_leave rfl rfl
  toHandler := by
    have hnull : Heeds v.regime retNull := heeds_leave rfl rfl
    refine ⟨.get_bind fun s hs => ?_⟩
    cases hl : s.lowerer with
    | tree =>
      cases hh : s.tree.handlers with
      | nil => exact Agrees.agree
      | cons handler rest =>
        cases handler with
        | none => exact Agrees.agree
        | some r =>
          have : Inside v.regime r := ⟨hs.kept r (by simp [State.kept, hl, hh])⟩
          exact Agrees.agree
    | _ => exact .throw _

end Emit

instance : Lower.Owns v.regime ⟨v.entry.func, v.cursor⟩ where
  kept := not_false
  cursor hs := State.Visits.cursor hs.toVisits
  fallen _ := trivial
  func {s} hs := by
    obtain ⟨g, hg, hcursor⟩ := State.Visits.func hs.toVisits
    exact ⟨v.impl, g, State.Visits.currentImpl hs.toVisits, State.Visiting.code hs, hg, hcursor⟩

namespace State.Visiting

theorem finish (hs : s.Visiting v) (hlast : v.last = none) (h : (do setBlock v.entry; branch v.content : Emit Unit) s = .ok () t) :
    t.Visiting (v.closing t) := by
  obtain ⟨_, s1, hset, hbranch⟩ := bind_eq_ok.1 h
  obtain ⟨hs1, hhere⟩ := hs.toVisits.moveTo hset
  have hmoved := moveTo_eq_ok.1 hset
  have hends := (branch_eq_ok.1 hbranch).2
  rw [hs1.sound.block_id hs1.content_lt] at hends
  obtain ⟨b, hb, hopen⟩ : s1.program.OpenAt v.entry := by rw [hmoved]; exact hs.opened hlast
  have hterminator := hends.terminator_here hs1.sound rfl (by rw [hhere]) hb hopen
  have hext := hends.extends rfl (.inl (by simp))
  obtain ⟨r, hr, -, heq⟩ := hends
  have ht : t.Visits v := by
    rw [heq, ← Program.mapFunc_id (s1.program.mapBlock ..) 0] at hext ⊢
    exact hs1.mapBlock [v.content] hext (fun _ => rfl) (fun b => ⟨fun _ => Block.mem_push, by simp [Block.endBy, Block.branches_push]⟩)
      (fun hslot => by cases hslot) (by simpa [Instr.targets] using hs1.content_lt) (by simpa using v.content_ne.symm)
  refine { ht with
    opened := fun h => by cases h
    ended := fun e he => by cases he; exact hterminator
    place := fun r' hr' => ⟨?_, fun _ h => by cases h⟩
    reached := .refl
    code := by rw [heq, hmoved]; exact hs.code
    kept := by rw [heq, hmoved]; exact hs.kept }
  rw [heq] at hr'
  cases hr.symm.trans hr'
  rw [hhere] at hr
  cases hr
  rfl

end State.Visiting

theorem Lower.heeds_closeBlocks_visit (hlast : v.last = some e) : Heeds v.regime Lower.closeBlocks := by
  refine Lower.heeds_closeBlocks (inferInstance : Lower.Owns v.regime ⟨v.entry.func, v.cursor⟩) fun result k => ?_
  by_cases hk : k = v.entry.index
  · subst hk
    -- the entry block has ended
    refine heeds_lasting fun {s _ _} hs h => ?_
    obtain ⟨b, hb, hterminator⟩ := hs.ended e hlast
    obtain ⟨g, hg, hblock⟩ := Option.bind_eq_some_iff.1 hb
    have hclosed : ¬s.program.OpenAt v.entry := by
      rintro ⟨b', hb', hopen⟩
      cases hb.symm.trans hb'
      rw [Block.terminator?_of_needsEnd (hs.sound.shaped hb) hopen] at hterminator
      cases hterminator
    cases (Lower.closeBlock_of_closed hg (Array.getElem?_eq_some_iff.1 hblock).1 hclosed).symm.trans h
    exact hs
  · exact Lower.heeds_closeBlock (show v.regime.Room _ from ⟨rfl, fun h => hk (congrArg BlockRef.index h)⟩) result

theorem Lower.Opened.visiting {i f : Nat} {g : Func} {l : Lowerer} (ho : Lower.Opened i f g s t) (hs : s.Rested)
    (hsite : t.site? = some (l, i, ⟨f, g.blocks.size⟩, ⟨f, g.blocks.size + 1⟩)) (hkept : t.kept = []) :
    t.Visiting ⟨l, i, ⟨f, g.blocks.size⟩, g.cursor, none, s.program, t⟩ := by
  have hcomplete := ho.complete hs
  have hwidth : t.program.width f = g.blocks.size + 2 := by
    rw [Program.width, ho.home, Option.map_some, Option.getD_some, Lower.size_entered]
  have hblocks : ∀ {k b}, t.program.blockAt ⟨f, k⟩ = some b →
      g.blocks[k]? = some b ∧ k < g.blocks.size ∨ g.blocks.size ≤ k ∧ b.items = #[] ∧ b.branches = #[] := by
    intro k b hb
    rw [Program.blockAt, ho.home, Option.bind_some] at hb
    exact Lower.blocks_entered hb
  -- an instruction was there before
  have hheld : ∀ r e, t.program.HoldsAt r e → s.program.HoldsAt r e := by
    rintro ⟨j, k⟩ e ⟨b, hb, he⟩
    by_cases hj : j = f
    · subst hj
      rcases hblocks hb with ⟨hold, hk⟩ | ⟨-, hitems, -⟩
      · rcases ho.before with hg | hnew
        · exact ⟨b, by rw [Program.blockAt, hg]; exact hold, he⟩
        · rw [hnew.declared.blocks] at hk
          cases hk
      · simp [hitems] at he
    · obtain ⟨g', hg', hblock⟩ := Option.bind_eq_some_iff.1 hb
      exact ⟨b, by rw [Program.blockAt, ho.others j g' hj hg']; exact hblock, he⟩
  obtain ⟨c, hc, hfunc, hblock⟩ := ho.stands
  have hopen : t.program.OpenAt ⟨f, g.blocks.size⟩ := by
    refine ⟨{ id := g.blockCount, label := some "Entry block" }, ?_, rfl⟩
    rw [Program.blockAt, ho.home, Option.bind_some]
    change ((g.blocks.push _).push _)[g.blocks.size]? = _
    rw [Array.getElem?_push, if_neg (by simp), Array.getElem?_push_size]
  refine
    { sound := ho.sound, site := hsite, cursor := ho.cursor, func := ⟨_, ho.home, rfl⟩
      content_lt := by rw [hwidth]; exact Nat.lt_succ_self _
      slots := fun r e _ h => .inr (hheld r e h)
      branches := fun r b hr hb h => ?_
      inner := fun k e hheld n hn => ?_
      opened := fun _ => hopen
      ended := fun e he => by cases he
      place := fun r hr => ?_
      reached := .refl
      code := ?_
      kept := by simp [hkept] }
  · obtain ⟨j, k⟩ := r
    cases hr
    rcases hblocks hb with ⟨hold, -⟩ | ⟨-, -, hnone⟩
    · exact Nat.lt_irrefl _ ((hcomplete.done k b hold).within _ h)
    · simp [hnone] at h
  · obtain ⟨b, hb, he⟩ := hheld
    rw [hwidth]
    rcases hblocks hb with ⟨hold, -⟩ | ⟨-, hitems, -⟩
    · exact Nat.lt_add_right 2 ((hcomplete.fits k b e hold he).targets n hn)
    · simp [hitems] at he
  · rw [State.here, ho.cursor, hc, Option.getD_some, hblock] at hr
    cases hr
    exact ⟨rfl, fun h => absurd (congrArg BlockRef.index h) (Nat.succ_ne_self _)⟩
  · obtain ⟨m, hm⟩ := ho.exists_impl
    simp [ho.impls, Array.getElem?_modify, hm]

/-- The visit leads from one state to another: the function is opened, code is lowered, and then the entry block goes on
at the content block and blocks are closed. -/
structure Visit.Leads (v : Visit) (s s' : State) : Prop where
  last : v.last = none
  before : v.before = s.program
  begun : v.start.Visiting v
  opened : ∃ g : Func, Lower.Opened v.impl v.entry.func g s v.start ∧ v.entry.index = g.blocks.size ∧ v.cursor = g.cursor
  lowered : ∃ t : State, t.Visiting v ∧
    (do setBlock v.entry; branch v.content; Lower.closeBlocks : Emit Unit) t = .ok () s'

theorem Visit.Leads.closed {s' : State} (h : v.Leads s s') :
    ∃ t t', t.Visiting v ∧ (do setBlock v.entry; branch v.content; Lower.closeBlocks : Emit Unit) t = .ok () s' ∧
      t.program.Grown t'.program ∧ Lower.closeBlocks t' = .ok () s' ∧ t'.Visiting (v.closing t') ∧ s'.Visiting (v.closing t') := by
  obtain ⟨t, ht, hend⟩ := h.lowered
  have hruns := hend
  rw [← bind_assoc] at hruns
  obtain ⟨_, t', hfinish, hclose⟩ := bind_eq_ok.1 hruns
  have ht' := ht.finish h.last hfinish
  have := Lower.heeds_closeBlocks_visit (v := v.closing t') rfl
  exact ⟨t, t', ht, hend, (Grows.extends_of_ok hfinish ht.sound).2, hclose, ht', holds_of_ok (R := (v.closing t').regime) ht' hclose⟩

end Lowering
