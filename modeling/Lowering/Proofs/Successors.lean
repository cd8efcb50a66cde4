import Lowering.Proofs.Growth.Actions

/-!
Where the code of a function goes from a block, as it is written. A block has successors once it has ended, and
then keeps them.
-/
namespace Lowering

variable {p q : Program} {r : BlockRef}

namespace Item

/-- The instruction that ends a block, if the item is one. -/
def terminator? : Item → Option Instr
  | instr i => if i.isTerminator then some i else none
  | fragment _ => none

end Item

namespace Block

variable {b c : Block} {i : Instr}

/-- The instruction that is written at the end of the block. -/
def terminator? (b : Block) : Option Instr := b.items.toList.findSome? Item.terminator?

theorem terminator?_push (b : Block) (x : Item) :
    { b with items := b.items.push x }.terminator? = b.terminator?.or x.terminator? := by
  simp [terminator?, List.findSome?_append, List.findSome?_cons]
  cases x.terminator? <;> rfl

theorem terminator?_endBy_of_locked {ts : List BlockRef} {leaves : Bool} (hb : b.locked = true)
    (hw : (i.write b.locked).2 = none) : (b.endBy i ts leaves).terminator? = b.terminator? := by
  simp [endBy, push_of_locked hb hw, terminator?]

theorem terminator?_endBy_of_unlocked {ts : List BlockRef} {leaves : Bool} (hb : b.locked = false)
    (hopen : b.terminator? = none) (hi : i.isTerminator = true) (hw : (i.write b.locked).2 = none) :
    (b.endBy i ts leaves).terminator? = some i := by
  have hpush : (b.endBy i ts leaves).items = b.items.push (.instr i) := by
    simp [endBy, push_of_unlocked hb hw]
  have hlast := terminator?_push b (.instr i)
  rw [hopen, Option.none_or, Item.terminator?, if_pos hi] at hlast
  rw [← hlast, terminator?, terminator?, hpush]

theorem terminator?_of_needsEnd (hb : b.Shaped) (hend : b.needsEnd = true) : b.terminator? = none := by
  obtain ⟨body, h⟩ | ⟨body, last, h⟩ := hb
  · rw [terminator?, h.items, List.findSome?_eq_none_iff]
    intro x hx
    obtain ⟨i, hi, rfl⟩ := List.mem_map.1 hx
    rw [Item.terminator?, (h.plain i hi).follows]
    rfl
  · rw [h.needsEnd] at hend
    cases hend

theorem Shaped.locked (hb : b.Shaped) : b.locked = !b.needsEnd := by
  obtain ⟨body, h⟩ | ⟨body, last, h⟩ := hb
  · rw [h.unlocked, h.needsEnd]
    rfl
  · rw [h.locked, h.needsEnd]
    rfl

theorem Grown.terminator? (h : b.Grown c) (hb : b.Shaped) (hend : b.needsEnd = false) :
    c.terminator? = b.terminator? := by
  rw [Block.terminator?, Block.terminator?, (h.frozen (by rw [hb.locked, hend]; rfl)).1]

end Block

/-- The blocks that the written end of a block goes on at. -/
def Func.successors (f : Func) (k : Nat) : List Nat :=
  ((f.blocks[k]?.bind Block.terminator?).elim [] Instr.targets).map (f.dropped + ·)

namespace Program

/-- The blocks that the written end of a block goes on at, in the function of the block. -/
def successors (p : Program) (r : BlockRef) : List Nat := (p.funcs[r.func]?).elim [] (·.successors r.index)

def width (p : Program) (f : Nat) : Nat := (p.funcs[f]?.map (·.blocks.size)).getD 0

theorem Grown.width_le (h : p.Grown q) (f : Nat) : p.width f ≤ q.width f := by
  rw [width, width]
  cases hf : p.funcs[f]? with
  | none => exact Nat.zero_le _
  | some g =>
    obtain ⟨g', hg', hgg'⟩ := h.funcs f g hf
    rw [hg']
    exact hgg'.size_le

theorem Grown.exists_block (h : p.Grown q) {b : Block} (hb : p.blockAt r = some b) :
    ∃ c, q.blockAt r = some c ∧ b.Grown c := by
  obtain ⟨g, hg, hblock⟩ := Option.bind_eq_some_iff.1 hb
  obtain ⟨g', hg', hgg'⟩ := h.funcs _ g hg
  obtain ⟨c, hc, hbc⟩ := hgg'.blocks _ b hblock
  exact ⟨c, by rw [blockAt, hg']; exact hc, hbc⟩

theorem successors_addBlock (i : Nat) (label : Option String) (r : BlockRef) :
    (p.mapFunc i (·.addBlock label)).successors r = p.successors r := by
  rw [successors, successors, getElem?_mapFunc]
  split
  next =>
    cases p.funcs[r.func]? with
    | none => rfl
    | some f =>
      rw [Option.map_some, Option.elim_some, Option.elim_some, Func.successors, Func.successors, Func.addBlock,
        Array.getElem?_push]
      split
      next hr => rw [hr, Array.getElem?_size]; rfl
      next => rfl
  next => rfl

theorem successors_of_width_le (h : p.width r.func ≤ r.index) : p.successors r = [] := by
  rw [width] at h
  rw [successors]
  cases hf : p.funcs[r.func]? with
  | none => rfl
  | some f =>
    rw [hf] at h
    rw [Option.elim_some, Func.successors, Array.getElem?_eq_none h]
    rfl

section Sound

variable (hp : p.Sound)
include hp

theorem Sound.successors (r : BlockRef) :
    p.successors r = ((p.blockAt r).bind Block.terminator?).elim [] Instr.targets := by
  rw [Program.successors, blockAt]
  cases hf : p.funcs[r.func]? with
  | none => rfl
  | some f =>
    have hdropped : (f.dropped + ·) = (id : Nat → Nat) := by
      rw [(hp.funcs _ f hf).dropped]
      exact funext Nat.zero_add
    rw [Option.elim_some, Func.successors, hdropped, List.map_id]
    rfl

theorem Sound.shaped {b : Block} (hb : p.blockAt r = some b) : b.Shaped := by
  obtain ⟨g, hg, hblock⟩ := Option.bind_eq_some_iff.1 hb
  exact ((hp.funcs _ g hg).blocks _ b hblock).2

theorem Sound.block_id (hr : r.index < p.width r.func) : (p.block r).id = r.index := by
  rw [width] at hr
  cases hf : p.funcs[r.func]? with
  | none => rw [hf] at hr; cases hr
  | some f =>
    rw [hf] at hr
    have hb : f.blocks[r.index]? = some f.blocks[r.index] := Array.getElem?_eq_getElem hr
    rw [block, blockAt, hf, Option.bind_some, hb]
    exact ((hp.funcs _ f hf).blocks _ _ hb).1

theorem Sound.successors_of_needsEnd {b : Block} (hb : p.blockAt r = some b) (hend : b.needsEnd = true) :
    p.successors r = [] := by
  rw [hp.successors, hb, Option.bind_some, Block.terminator?_of_needsEnd (hp.shaped hb) hend]
  rfl

theorem Sound.successors_of_ended (hq : q.Sound) (h : p.Grown q) {b : Block} (hb : p.blockAt r = some b)
    (hend : b.needsEnd = false) : q.successors r = p.successors r := by
  obtain ⟨c, hc, hbc⟩ := h.exists_block hb
  rw [hq.successors, hp.successors, hb, hc, Option.bind_some, Option.bind_some, hbc.terminator? (hp.shaped hb) hend]

theorem Sound.successors_mono (hq : q.Sound) (h : p.Grown q) {ts : List Nat} (hr : p.successors r = ts)
    (hts : ts ≠ []) : q.successors r = ts := by
  subst hr
  cases hb : p.blockAt r with
  | none =>
    rw [hp.successors, hb] at hts
    exact absurd rfl hts
  | some b =>
    cases hend : b.needsEnd with
    | true => exact absurd (hp.successors_of_needsEnd hb hend) hts
    | false => exact hp.successors_of_ended hq h hb hend

theorem Sound.terminator_mono (h : p.Grown q) {b : Block} {i : Instr} (hb : p.blockAt r = some b)
    (hi : b.terminator? = some i) : ∃ c, q.blockAt r = some c ∧ c.terminator? = some i := by
  obtain ⟨c, hc, hbc⟩ := h.exists_block hb
  have hend : b.needsEnd = false := by
    refine Bool.eq_false_iff.2 fun hopen => ?_
    rw [Block.terminator?_of_needsEnd (hp.shaped hb) hopen] at hi
    cases hi
  exact ⟨c, hc, (hbc.terminator? (hp.shaped hb) hend).trans hi⟩

/-- The successors are the same if no block has ended in the meantime. -/
theorem Sound.successors_eq (hq : q.Sound) (h : p.Grown q)
    (hopen : p.successors r = [] → q.successors r = []) : q.successors r = p.successors r := by
  by_cases hr : p.successors r = []
  · rw [hr, hopen hr]
  · exact hp.successors_mono hq h rfl hr

end Sound

/-- What has ended in the meantime goes on at blocks of the function that are new. -/
def Onward (f : Nat) (p q : Program) : Prop :=
  ∀ r, q.successors r = p.successors r ∨ ∀ k ∈ q.successors r, p.width f ≤ k

theorem Onward.refl (f : Nat) (p : Program) : Onward f p p := fun _ => .inl rfl

theorem Onward.step {f : Nat} {p1 p2 p3 : Program} (h : Onward f p1 p2)
    (h' : ∀ r, p3.successors r = p2.successors r ∨ ∀ k ∈ p3.successors r, p1.width f ≤ k) : Onward f p1 p3 := by
  intro r
  obtain h' | h' := h' r
  · rw [h']
    exact h r
  · exact .inr h'

theorem Onward.trans {f : Nat} {p1 p2 p3 : Program} (h : Onward f p1 p2) (h' : Onward f p2 p3)
    (hgrown : p1.Grown p2) : Onward f p1 p3 :=
  h.step fun r => (h' r).imp_right fun h' k hk => Nat.le_trans (hgrown.width_le f) (h' k hk)

end Program

namespace Emit.Ends

variable {s s' : State} {i : Instr} {ts : List BlockRef} {leaves : Bool}

theorem blockAt (h : Ends s s' i ts leaves) : ∃ ref, s.here.block = some ref ∧
    (i.write (s.program.block ref).locked).2 = none ∧ ∀ r, s'.program.blockAt r =
      if ref = r then (s.program.blockAt r).map (·.endBy i ts leaves) else s.program.blockAt r := by
  obtain ⟨ref, href, hw, rfl⟩ := h
  exact ⟨ref, href, hw, fun r => Program.blockAt_mapBlock _ _ _ _⟩

theorem terminator_here (h : Ends s s' i ts leaves) (hs : s.program.Sound) (hi : i.isTerminator = true)
    (href : s.here.block = some r) {b : Block} (hb : s.program.blockAt r = some b) (hend : b.needsEnd = true) :
    ∃ c, s'.program.blockAt r = some c ∧ c.terminator? = some i := by
  obtain ⟨ref, href', hw, hafter⟩ := h.blockAt
  cases href'.symm.trans href
  have hunlocked : b.locked = false := by rw [(hs.shaped hb).locked, hend]; rfl
  rw [Program.block, hb] at hw
  refine ⟨b.endBy i ts leaves, by rw [hafter, if_pos rfl, hb]; rfl, ?_⟩
  exact Block.terminator?_endBy_of_unlocked hunlocked (Block.terminator?_of_needsEnd (hs.shaped hb) hend) hi hw

theorem successors_here (h : Ends s s' i ts leaves) (hs : s.program.Sound) (hs' : s'.program.Sound)
    (hi : i.isTerminator = true) (href : s.here.block = some r) {b : Block} (hb : s.program.blockAt r = some b)
    (hend : b.needsEnd = true) : s'.program.successors r = i.targets := by
  obtain ⟨c, hc, hlast⟩ := h.terminator_here hs hi href hb hend
  rw [hs'.successors, hc, Option.bind_some, hlast]
  rfl

theorem successors_or (h : Ends s s' i ts leaves) (hs : s.program.Sound) (hs' : s'.program.Sound)
    (hi : i.isTerminator = true) (r : BlockRef) :
    s'.program.successors r = s.program.successors r ∨ s.here.block = some r ∧
      (∃ b, s.program.blockAt r = some b ∧ b.needsEnd = true) ∧ s'.program.successors r = i.targets := by
  obtain ⟨ref, href, hw, hafter⟩ := h.blockAt
  by_cases hr : ref = r
  · subst hr
    cases hb : s.program.blockAt ref with
    | none =>
      left
      rw [hs'.successors, hs.successors, hafter, if_pos rfl, hb, Option.map_none]
    | some b =>
      cases hend : b.needsEnd with
      | true => exact .inr ⟨href, ⟨b, rfl, hend⟩, h.successors_here hs hs' hi href hb hend⟩
      | false =>
        left
        have hlocked : b.locked = true := by rw [(hs.shaped hb).locked, hend]; rfl
        rw [Program.block, hb] at hw
        rw [hs'.successors, hs.successors, hafter, if_pos rfl, hb, Option.map_some, Option.bind_some, Option.bind_some,
          Block.terminator?_endBy_of_locked hlocked hw]
  · left
    rw [hs'.successors, hs.successors, hafter, if_neg hr]

end Emit.Ends
end Lowering
