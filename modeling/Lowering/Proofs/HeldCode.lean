import Lowering.Proofs.OpenBlocks
import Lowering.Proofs.Rejection
import Lowering.Proofs.Twins.Rounds

/-!
Instructions that a function holds. They stay while a program grows, and what is written to an open block is
held from then on.
-/
namespace Lowering

open Emit

/-- An instruction stands in a block of the function that has not been discarded. -/
def Func.Holds (g : Func) (i : Instr) : Prop :=
  ∃ (k : Nat) (b : Block), g.dropped ≤ k ∧ g.blocks[k]? = some b ∧ Item.instr i ∈ b.items

theorem Func.Grown.holds {f g : Func} {i : Instr} (h : f.Grown g) (hi : f.Holds i) : g.Holds i := by
  obtain ⟨k, b, hk, hb, hi⟩ := hi
  obtain ⟨c, hc, hbc⟩ := h.blocks k b hb
  refine ⟨k, c, h.dropped ▸ hk, hc, ?_⟩
  rw [← Array.mem_toList_iff] at hi ⊢
  exact hbc.items.subset hi

variable {p q : Program} {s s' : State} {f : Nat}

namespace Program

def Holds (p : Program) (f : Nat) (i : Instr) : Prop := ∃ g : Func, p.funcs[f]? = some g ∧ g.Holds i

theorem Holds.of_grown {i : Instr} (h : p.Holds f i) (hpq : p.Grown q) : q.Holds f i := by
  obtain ⟨g, hg, hi⟩ := h
  obtain ⟨g', hg', hgg'⟩ := hpq.funcs f g hg
  exact ⟨g', hg', hgg'.holds hi⟩

theorem OpenAt.unlocked {r : BlockRef} (hr : p.OpenAt r) (hp : p.Sound) :
    ∃ (g : Func) (b : Block), p.funcs[r.func]? = some g ∧ g.blocks[r.index]? = some b ∧ b.locked = false := by
  obtain ⟨b, hb, hend⟩ := hr
  obtain ⟨g, hg, hblock⟩ := Option.bind_eq_some_iff.1 hb
  refine ⟨g, b, hg, hblock, ?_⟩
  rcases ((hp.funcs _ g hg).blocks _ b hblock).2 with ⟨body, hopen⟩ | ⟨body, last, hends⟩
  · exact hopen.unlocked
  · rw [hends.needsEnd] at hend
    cases hend

theorem holds_mapBlock {r : BlockRef} {g : Func} {b : Block} {u : Block → Block} {i : Instr} (hp : p.Sound)
    (hg : p.funcs[r.func]? = some g) (hb : g.blocks[r.index]? = some b) (hi : Item.instr i ∈ (u b).items) :
    (p.mapBlock r u).Holds r.func i := by
  refine ⟨_, getElem?_mapFunc_self hg, r.index, u b, ?_, ?_, hi⟩
  · rw [(hp.funcs _ g hg).dropped]
    exact Nat.zero_le _
  · rw [Array.getElem?_modify, if_pos rfl, hb]
    rfl

end Program

namespace State.Awaits

variable {i k : Nat}

/-- An instruction that can be written is added to the block in hand if that is open. -/
theorem holds_push {e : Instr} (hs : s.Awaits i f k ⟨f, k⟩)
    (hw : (e.write (s.program.block ⟨f, k⟩).locked).2 = none) {u : Block → Block}
    (hu : ∀ b, (b.push e).1.items = (u b).items) : (s.program.mapBlock ⟨f, k⟩ u).Holds f e := by
  obtain ⟨g, b, hg, hb, hlocked⟩ := hs.opened.unlocked hs.sound
  have hblock : s.program.block ⟨f, k⟩ = b := by
    rw [Program.block, Program.blockAt, hg, Option.bind_some, hb]
    rfl
  rw [hblock] at hw
  refine Program.holds_mapBlock hs.sound hg hb ?_
  rw [← hu, Block.push_of_unlocked hlocked hw]
  exact Array.mem_push_self

theorem assign {mk : Nat → Instr} {v : Operand} (hs : s.Awaits i f k ⟨f, k⟩)
    (h : Emit.assign mk s = .ok v s') : ∃ n : Nat, v = .id n ∧ s'.program.Holds f (mk n) := by
  obtain ⟨ref, g, href, -, hw, rfl, rfl⟩ := assign_eq_ok.1 h
  cases href.symm.trans hs.at_.here.2
  obtain ⟨g', hg', hholds⟩ := hs.holds_push hw fun _ => rfl
  refine ⟨_, rfl, ?_⟩
  rw [hs.at_.here.1]
  exact ⟨_, Program.getElem?_mapFunc_self hg', hholds⟩

end State.Awaits

end Lowering
