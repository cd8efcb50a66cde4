import Lowering.Proofs.StackLowered

/-!
The blocks of a function that has been lowered. Each is a row of whole instructions, of which the last
one and no other leaves the block, and no instruction leads out of the function.
-/
namespace Lowering

open Emit

/-- A block of a function is a row of whole instructions with one terminator, at the end; the blocks that
instructions name are there. -/
structure Block.WholeIn (f : Func) (b : Block) (body : List Instr) (last : Instr) : Prop where
  bytes : b.bytes = (body ++ [last]).flatMap Instr.bytes
  whole : ∀ i ∈ body ++ [last], i.Whole
  plain : ∀ i ∈ body, i.isTerminator = false
  final : last.isTerminator = true
  targets : ∀ i ∈ body ++ [last], ∀ n ∈ i.targets, ∃ c ∈ f.blocks, c.id = n

/-- The instructions of a function lead to blocks that it has. -/
def Func.Inner (g : Func) : Prop :=
  ∀ (k : Nat) (b : Block) (j : Instr), g.blocks[k]? = some b → .instr j ∈ b.items → ∀ n ∈ j.targets, n < g.blocks.size

/-- The blocks of a sound function that have ended, where instructions lead to blocks that there are. -/
theorem Func.Inner.wholeIn {f : Func} {k : Nat} {b : Block} (hinner : f.Inner) (hf : f.Sound) (hended : b.needsEnd = false)
    (hb : f.blocks[k]? = some b) : ∃ body last, b.WholeIn f body last := by
  rcases (hf.blocks k b hb).2 with ⟨body, hopen⟩ | ⟨body, last, hends⟩
  · rw [hopen.needsEnd] at hended
    cases hended
  refine ⟨body, last, ?_, fun i hi => ?_, fun i hi => (hends.plain i hi).follows, hends.final.ends,
    fun i hi n hn => ?_⟩
  · rw [Block.bytes, hends.items, List.flatMap_map]
    rfl
  · rcases List.mem_append.1 hi with hi | hi
    · exact (hends.plain i hi).whole
    · rw [List.mem_singleton.1 hi]
      exact hends.final.whole
  · have hmem : Item.instr i ∈ b.items := by
      rw [← Array.mem_toList_iff, hends.items]
      exact List.mem_map_of_mem hi
    have hlt := hinner k b i hb hmem n hn
    exact ⟨f.blocks[n], Array.getElem_mem hlt, (hf.blocks n _ (Array.getElem?_eq_getElem hlt)).1⟩

/-- The ways to lower an implementation: from its tree, or from stack code. -/
inductive LoweringOf (i : Nat) : Emit Unit → Prop
  | tree : LoweringOf i (Lower.lowerImpl i)
  | stack (code : Stack.Code) : LoweringOf i (Stack.lowerImpl i code)

/-- When the lowering of an implementation has completed, the walk over the growing list of blocks has
ended, and every block of the function is whole. -/
theorem lowered_blocks_whole {s s' : State} {i : Nat} {x : Emit Unit} (hs : s.Rested)
    (hcode : (s.impls[i]?.getD default).code = none) (hx : LoweringOf i x) (h : x s = .ok () s') :
    ∃ (f : Nat) (g : Func), (s'.impls[i]?.getD default).code = some f ∧ s'.program.funcs[f]? = some g ∧
      (∃ (t : State) (g₀ : Func), t.program.funcs[f]? = some g₀ ∧ Lower.closeBlocks t = .ok () s' ∧
        Lower.Sweep f (Lower.closeBlock g₀.cursor g₀.result) 0 t s') ∧
      ∀ (k : Nat) (b : Block), g.blocks[k]? = some b → b.id = k ∧ ∃ body last, b.WholeIn g body last := by
  cases hx with
  | tree =>
    obtain ⟨f, hlowered⟩ := Lower.lowerImpl_lowered hs hcode h
    obtain ⟨g, hg, ending, n, d, base, hsigned, -⟩ := hlowered.named
    have hsound := hlowered.rested.sound.funcs f g hg
    have hcomplete := hlowered.rested.complete f g hg
    have hinner : g.Inner := fun k b j hb hj => (hcomplete.fits k b j hb hj).targets
    refine ⟨f, g, ?_, hg, hlowered.swept, fun k b hb =>
      ⟨(hsound.blocks k b hb).1, hinner.wholeIn hsound (hcomplete.done k b hb).ended hb⟩⟩
    cases hm : s.impls[i]? with
    | none =>
      rw [hm] at hsigned
      cases hsigned
    | some m => simp [hlowered.impls, Array.getElem?_modify, hm]
  | stack code =>
    obtain ⟨v, rfl, hleads⟩ := Stack.lowerImpl_visited hs h
    obtain ⟨-, t, -, -, -, hclose, ht, hs'⟩ := hleads.closed
    obtain ⟨g, hg, hcursor⟩ := ht.func
    obtain ⟨hclosed, hsweep, -⟩ :=
      Lower.closeBlocks_closed ht.sound ht.currentImpl ht.code hg (ht.cursor.trans hcursor.symm) hclose
    obtain ⟨g', hg', -⟩ := hs'.func
    have hsound := hs'.sound.funcs _ g' hg'
    have hinner : g'.Inner := fun k b j hb hj n hn => by
      simpa [Program.width, hg'] using hs'.inner k j ⟨b, by rw [Program.blockAt, hg']; exact hb, hj⟩ n hn
    refine ⟨_, g', hs'.code, hg', ⟨t, g, hg, hclose, hsweep⟩, fun k b hb =>
      ⟨(hsound.blocks k b hb).1, hinner.wholeIn hsound ?_ hb⟩⟩
    refine Bool.eq_false_iff.2 fun hopen => hclosed k ⟨b, ?_, hopen⟩
    rw [Program.blockAt, hg', Option.bind_some, hb]

/-- A function without parameters. -/
def answerNode : Node :=
  .mk {} (.functionDef "answer" (.mk {} (.arguments (.group []) (.group []) .absent (.group []) (.group [])
    .absent (.group []))) (.group []) (.group []) .absent)

/-- Stack code that gives a number back. -/
def answerCode : Stack.Code where
  instrs := [⟨"LOAD_CONST", some 0, 0, false, none⟩, ⟨"RETURN_VALUE", none, 2, false, none⟩]
  constants := [.int 42]
  names := []
  localNames := []
  exceptions := []

/-- Whether a run has completed. -/
def completes {α : Type} : EStateM.Result Fault State α → Bool
  | .ok .. => true
  | .error .. => false

theorem exists_of_completes {α : Type} {r : EStateM.Result Fault State α} (h : completes r = true) :
    ∃ a s', r = .ok a s' := by
  cases r with
  | ok a s' => exact ⟨a, s', rfl⟩
  | error => cases h

/-- Stack code in the implementation of a function that is called by vector. -/
theorem lowered_answer_whole :
    ∃ s s' : State, s.Rested ∧ (s.impls[1]?.getD default).code = none ∧
      Stack.lowerImpl 1 answerCode s = .ok () s' ∧
      ∃ (f : Nat) (g : Func), (s'.impls[1]?.getD default).code = some f ∧ s'.program.funcs[f]? = some g ∧
        (∃ (t : State) (g₀ : Func), t.program.funcs[f]? = some g₀ ∧ Lower.closeBlocks t = .ok () s' ∧
          Lower.Sweep f (Lower.closeBlock g₀.cursor g₀.result) 0 t s') ∧
        ∀ (k : Nat) (b : Block), g.blocks[k]? = some b → b.id = k ∧ ∃ body last, b.WholeIn g body last := by
  obtain ⟨_, s', h⟩ := exists_of_completes
    (r := (Compile.newDefinition answerNode >>= fun _ => Stack.lowerImpl 1 answerCode)
      { Compile.ready with output := "answer.o" })
    (by decide +kernel)
  obtain ⟨d, s, hdefinition, hlower⟩ := bind_eq_ok.1 h
  have hs : s.Rested := (Preserves.of_ok (Compile.waiting_ready "answer.o") hdefinition).rested
  have hcode : (s.impls[1]?.getD default).code = none := by
    obtain ⟨-, rfl⟩ := Compile.newDefinition_eq_ok hdefinition
    simp [Compile.impls_ready]
  exact ⟨s, s', hs, hcode, hlower, lowered_blocks_whole hs hcode (.stack answerCode) hlower⟩

end Lowering
