import Lowering.Proofs.Growth.Actions
import Mathlib.Data.List.Perm.Subperm

/-!
The numbers of values. A function numbers its parameters first and every value after them by a counter,
so no number is given twice, whatever blocks the instructions go to and whether they are kept there.
-/
namespace Lowering

namespace Item

/-- The number of the value that an item computes. -/
def result? : Item → Option Nat
  | instr i => i.result?
  | fragment _ => none

end Item

namespace Block

/-- The number of the value that is computed at a place of a block. -/
def resultAt (b : Block) (j : Nat) : Option Nat := b.items[j]?.bind Item.result?

theorem resultAt_push {b : Block} {i : Instr} (hw : (i.write b.locked).2 = none) {j n : Nat}
    (h : (b.push i).1.resultAt j = some n) : b.resultAt j = some n ∨ j = b.items.size ∧ i.result? = some n := by
  cases hb : b.locked with
  | true =>
    rw [push_of_locked hb hw] at h
    exact .inl h
  | false =>
    rw [push_of_unlocked hb hw, resultAt, Array.getElem?_push] at h
    split at h
    next hj => exact .inr ⟨hj, h⟩
    next => exact .inl h

theorem resultAt_endBy {b : Block} {i : Instr} {targets : List BlockRef} {leaves : Bool}
    (hi : i.isTerminator = true) (hw : (i.write b.locked).2 = none) {j n : Nat}
    (h : (b.endBy i targets leaves).resultAt j = some n) : b.resultAt j = some n := by
  rcases resultAt_push hw h with h | ⟨-, h⟩
  · exact h
  · rw [Instr.isTerminator_of_result? h] at hi
    cases hi

end Block

namespace Func

def resultAt (f : Func) (k j : Nat) : Option Nat := f.blocks[k]?.bind (·.resultAt j)

/-- Values have numbers of their own, between those of the parameters and the next one. -/
structure Numbered (f : Func) : Prop where
  params_le : f.params.size ≤ f.nextValue
  range : ∀ k j n, f.resultAt k j = some n → f.params.size ≤ n ∧ n < f.nextValue
  distinct : ∀ k j k' j' n, f.resultAt k j = some n → f.resultAt k' j' = some n → k' = k ∧ j' = j

variable {f g : Func}

theorem Numbered.of_empty (hblocks : f.blocks = #[]) (hparams : f.params.size ≤ f.nextValue) : f.Numbered := by
  have hnone : ∀ k j, f.resultAt k j = none := fun k j => by simp [resultAt, hblocks]
  exact ⟨hparams, by simp [hnone], by simp [hnone]⟩

theorem Numbered.of_resultAt (h : f.Numbered) (hparams : g.params = f.params) (hnext : g.nextValue = f.nextValue)
    (hresult : ∀ k j n, g.resultAt k j = some n → f.resultAt k j = some n) : g.Numbered where
  params_le := by rw [hparams, hnext]; exact h.params_le
  range k j n hn := by rw [hparams, hnext]; exact h.range k j n (hresult k j n hn)
  distinct k j k' j' n hn hn' := h.distinct k j k' j' n (hresult _ _ _ hn) (hresult _ _ _ hn')

theorem resultAt_modify {k k' j n : Nat} {u : Block → Block} {next : Nat}
    (h : resultAt { f with blocks := f.blocks.modify k u, nextValue := next } k' j = some n) :
    f.resultAt k' j = some n ∨ k' = k ∧ ∃ b : Block, f.blocks[k]? = some b ∧ (u b).resultAt j = some n := by
  simp only [resultAt, Array.getElem?_modify] at h
  split at h
  next hk =>
    subst hk
    obtain ⟨c, hc, hn⟩ := Option.bind_eq_some_iff.1 h
    obtain ⟨b, hb, rfl⟩ := Option.map_eq_some_iff.1 hc
    exact .inr ⟨rfl, b, hb, hn⟩
  next => exact .inl h

theorem Numbered.modifyBlock (h : f.Numbered) {k : Nat} {u : Block → Block}
    (hu : ∀ (b : Block) j n, f.blocks[k]? = some b → (u b).resultAt j = some n → b.resultAt j = some n) :
    Numbered { f with blocks := f.blocks.modify k u } := by
  refine h.of_resultAt rfl rfl fun k' j n hn => ?_
  rcases resultAt_modify hn with hn | ⟨rfl, b, hb, hn⟩
  · exact hn
  · rw [resultAt, hb]
    exact hu b j n hb hn

theorem Numbered.addBlock (h : f.Numbered) (label : Option String) : (f.addBlock label).Numbered := by
  refine h.of_resultAt rfl rfl fun k j n hn => ?_
  simp only [resultAt, Func.addBlock, Array.getElem?_push] at hn
  split at hn
  next => simp [Block.resultAt] at hn
  next => exact hn

theorem Numbered.pushValue (h : f.Numbered) {k : Nat} {i : Instr} (hi : i.result? = some f.nextValue)
    (hw : ∀ b : Block, f.blocks[k]? = some b → (i.write b.locked).2 = none) :
    Numbered { f with blocks := f.blocks.modify k fun b => (b.push i).1
                      nextValue := f.nextValue + 1 } := by
  have hresult : ∀ k' j n, resultAt { f with blocks := f.blocks.modify k fun b => (b.push i).1
                                             nextValue := f.nextValue + 1 } k' j = some n →
      f.resultAt k' j = some n ∨
        n = f.nextValue ∧ k' = k ∧ ∃ b : Block, f.blocks[k]? = some b ∧ j = b.items.size := by
    intro k' j n hn
    rcases resultAt_modify hn with hn | ⟨rfl, b, hb, hn⟩
    · exact .inl hn
    · rcases Block.resultAt_push (hw b hb) hn with hn | ⟨hj, hn⟩
      · left
        rw [resultAt, hb]
        exact hn
      · exact .inr ⟨Option.some.inj (hn.symm.trans hi), rfl, b, hb, hj⟩
  have hle := h.params_le
  refine ⟨Nat.le_succ_of_le hle, fun k' j n hn => ?_, fun k1 j1 k2 j2 n hn1 hn2 => ?_⟩
  · rcases hresult k' j n hn with hn | ⟨rfl, -, -⟩
    · have := h.range k' j n hn
      exact ⟨this.1, Nat.lt_succ_of_lt this.2⟩
    · exact ⟨hle, Nat.lt_succ_self _⟩
  · rcases hresult k1 j1 n hn1 with hn1 | ⟨rfl, rfl, b, hb, rfl⟩
    · rcases hresult k2 j2 n hn2 with hn2 | ⟨rfl, -, -⟩
      · exact h.distinct k1 j1 k2 j2 n hn1 hn2
      · exact absurd (h.range _ _ _ hn1).2 (Nat.lt_irrefl _)
    · rcases hresult k2 j2 _ hn2 with hn2 | ⟨-, rfl, b', hb', rfl⟩
      · exact absurd (h.range _ _ _ hn2).2 (Nat.lt_irrefl _)
      · cases hb.symm.trans hb'
        exact ⟨rfl, rfl⟩

def places (f : Func) : List (Nat × Nat) :=
  (List.range f.blocks.size).flatMap fun k =>
    (List.range (f.blocks[k]?.getD default).items.size).map fun j => (k, j)

theorem nodup_places (f : Func) : f.places.Nodup := by
  refine List.nodup_flatMap.2 ⟨fun k _ => ?_, ?_⟩
  · exact List.nodup_range.map fun j j' h => congrArg Prod.snd h
  · refine List.nodup_range.imp fun {k k'} hne => ?_
    simp only [Function.onFun, List.disjoint_left, List.mem_map, not_exists, not_and]
    rintro _ ⟨j, -, rfl⟩ j' - h
    exact hne (congrArg Prod.fst h).symm

/-- The numbers of the values that the instructions of a function compute. -/
def results (f : Func) : List Nat := f.places.filterMap fun p => f.resultAt p.1 p.2

theorem Numbered.nodup_results (h : f.Numbered) : f.results.Nodup := by
  refine f.nodup_places.filterMap fun p p' n hn hn' => ?_
  obtain ⟨hk, hj⟩ := h.distinct _ _ _ _ n hn hn'
  exact Prod.ext hk.symm hj.symm

theorem exists_resultAt {n : Nat} (h : n ∈ f.results) : ∃ k j, f.resultAt k j = some n := by
  obtain ⟨p, -, hn⟩ := List.mem_filterMap.1 h
  exact ⟨p.1, p.2, hn⟩

/-- If as many values are computed as were numbered, every number is that of a parameter or of an
instruction. -/
theorem Numbered.mem_results (h : f.Numbered) (hfull : f.params.size + f.results.length = f.nextValue)
    {n : Nat} (hle : f.params.size ≤ n) (hlt : n < f.nextValue) : n ∈ f.results := by
  have hsub : f.results ⊆ List.range' f.params.size f.results.length := by
    intro m hm
    obtain ⟨k, j, hkj⟩ := exists_resultAt hm
    have := h.range k j m hkj
    rw [List.mem_range'_1]
    omega
  have hperm : f.results.Perm (List.range' f.params.size f.results.length) :=
    (List.subperm_of_subset h.nodup_results hsub).perm_of_length_le (by simp)
  rw [hperm.mem_iff, List.mem_range'_1]
  omega

end Func
end Lowering
