import Lowering.Proofs.Compiling
import Lowering.Proofs.Regime.Lowering

/-!
Which blocks stay open. Code is added to the block in hand and nothing but the end of that block closes it, so
releasing variables, which goes from block to block, comes out in a block that is open.
-/
namespace Lowering

open Emit

variable {α : Type} {p : Program} {s s' : State} {r t : BlockRef} {i f k : Nat}

namespace Program

theorem openAt_added {label : Option String} {g : Func} (hg : p.funcs[i]? = some g) :
    (p.mapFunc i (·.addBlock label)).OpenAt ⟨i, g.blocks.size⟩ := by
  refine ⟨{ id := g.blockCount, label }, ?_, rfl⟩
  rw [blockAt, getElem?_mapFunc_self hg]
  exact Array.getElem?_push_size

theorem OpenAt.exists_func (hr : p.OpenAt r) : ∃ g : Func, p.funcs[r.func]? = some g ∧ r.index < g.blocks.size := by
  obtain ⟨b, hb, -⟩ := hr
  obtain ⟨g, hg, hblock⟩ := Option.bind_eq_some_iff.1 hb
  exact ⟨g, hg, (Array.getElem?_eq_some_iff.1 hblock).1⟩

end Program

/-- Ending the block in hand leaves the others open. -/
theorem Emit.Ends.openAt {e : Instr} {targets : List BlockRef} {leaves : Bool} (h : Ends s s' e targets leaves)
    (hat : s.At i f k) (hr : s.program.OpenAt r) (hne : r ≠ ⟨f, k⟩) : s'.program.OpenAt r := by
  obtain ⟨t, ht, -, rfl⟩ := h
  cases ht.symm.trans hat.here.2
  exact hr.mapBlock fun h => absurd h.symm hne

/-- Code goes to a block of a function, while a block is open. -/
structure State.Awaits (i f k : Nat) (r : BlockRef) (s : State) : Prop where
  sound : s.program.Sound
  at_ : s.At i f k
  opened : s.program.OpenAt r

/-- Code goes to an open block of a function. -/
def State.Writing (i f : Nat) (s : State) : Prop := ∃ k, s.Awaits i f k ⟨f, k⟩

theorem State.Awaits.of_same (h : s.Awaits i f k r) (hprogram : s'.program = s.program)
    (hcursor : s'.cursor = s.cursor) : s'.Awaits i f k r :=
  ⟨hprogram ▸ h.sound, ⟨hcursor.trans h.at_.cursor, hprogram ▸ h.at_.stands⟩, hprogram ▸ h.opened⟩

namespace Emit

section Rules

/-- What keeps to the block in hand, with any block that is open, goes on where code goes to an open block. -/
instance (x : Emit α) [h : ∀ k r, Preserves (State.Awaits i f k r) x] : Preserves (State.Writing i f) x :=
  heeds_lasting <| by
    rintro s s' a ⟨k, hs⟩ hx
    have := h k ⟨f, k⟩
    exact ⟨k, Preserves.of_ok hs hx⟩

end Rules

instance (x : Emit α) [Stays x] : Preserves (State.Awaits i f k r) x :=
  heeds_lasting fun hs h => by
    have hstay := Stays.stays hs.sound h
    exact ⟨hstay.sound, (hstay.moves hs.at_).at_, (hstay.opened r).2 hs.opened⟩

end Emit

theorem Lower.Opened.awaits {g : Func} (ho : Opened i f g s s') :
    s'.Awaits g.cursor f (g.blocks.size + 1) ⟨f, g.blocks.size + 1⟩ := by
  refine ⟨ho.sound, ⟨ho.cursor, ho.stands⟩, { id := (g.addBlock (some "Entry block")).blockCount, label := none }, ?_, rfl⟩
  have hsize : g.blocks.size + 1 = (g.addBlock (some "Entry block")).blocks.size := (Array.size_push _).symm
  rw [Program.blockAt, ho.home, hsize]
  exact Array.getElem?_push_size

namespace State.Awaits

theorem createBlock {label : Option String} {j : Nat} (hs : s.Awaits i f k ⟨f, j⟩)
    (h : createBlock label s = .ok t s') :
    s'.Awaits i f k ⟨f, j⟩ ∧ ∃ n, t = ⟨f, n⟩ ∧ s'.Awaits i f k ⟨f, n⟩ ∧ n ≠ j := by
  have hsound := (Grows.extends_of_ok h hs.sound).1
  obtain ⟨g, hg, hlt⟩ := hs.opened.exists_func
  obtain ⟨rfl, hs'⟩ := createBlock_eq_ok.1 h
  rw [hs.at_.here.1] at hs' ⊢
  rw [hg]
  have hat : s'.At i f k := by
    rw [hs']
    exact ⟨hs.at_.cursor, hs.at_.stands⟩
  refine ⟨⟨hsound, hat, ?_⟩, g.blocks.size, rfl, ⟨hsound, hat, ?_⟩, fun hj => Nat.lt_irrefl _ (hj ▸ hlt)⟩
  · rw [hs']
    exact hs.opened.addBlock
  · rw [hs']
    exact Program.openAt_added hg

/-- When the block in hand has ended, another that is open still is. -/
theorem ends {e : Instr} {targets : List BlockRef} {leaves : Bool} (hs : s.Awaits i f k r)
    (h : Ends s s' e targets leaves) (hsound : s'.program.Sound) (hne : r ≠ ⟨f, k⟩) : s'.Awaits i f k r :=
  ⟨hsound, h.at_ hs.at_, h.openAt hs.at_ hs.opened hne⟩

theorem condBranch {c : Operand} {yes no : BlockRef} {u : Unit} (hs : s.Awaits i f k r)
    (h : condBranch c yes no s = .ok u s') (hne : r ≠ ⟨f, k⟩) : s'.Awaits i f k r :=
  hs.ends (condBranch_eq_ok.1 h) (Grows.extends_of_ok h hs.sound).1 hne

theorem setBlock {k' : Nat} {u : Unit} (hs : s.Awaits i f k r) (h : setBlock ⟨f, k'⟩ s = .ok u s') :
    s'.Awaits i f k' r := by
  refine ⟨(Grows.extends_of_ok h hs.sound).1, at_setBlock_of_at hs.at_ h, ?_⟩
  rw [moveTo_eq_ok.1 h]
  exact hs.opened

end State.Awaits

end Lowering
