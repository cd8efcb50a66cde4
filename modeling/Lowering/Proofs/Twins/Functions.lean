import Lowering.Proofs.Lowered

/-!
The functions of definitions. A lowering declares its own function and those of the library; the functions
of other definitions stay as they are.
-/
namespace Lowering.Lower

open Emit

variable {s s' : State} {i f n : Nat} {name : String}

/-- The law of the library, and that a name takes no arguments. -/
def Arities.withName (name : String) (hhead : name.toList.head? = some '@') : Arities where
  takes x k := (x, k) ∈ Library.arities ∨ x = name ∧ k = 0
  library _ _ := .inl
  unique x k k' hk hk' := by
    rcases hk with hk | ⟨rfl, rfl⟩
    · rcases hk' with hk' | ⟨rfl, rfl⟩
      · exact Library.arities_inj hk hk'
      · exact absurd hhead (Arity.head_of_library hk).1
    · rcases hk' with hk' | ⟨-, rfl⟩
      · exact absurd hhead (Arity.head_of_library hk').1
      · rfl

theorem lowerImpl_paired (hs : s.Rested) (hcode : (s.impls[i]?.getD default).code = none)
    (h : lowerImpl i s = .ok () s') (a : Arities)
    (hlawful : ∀ f g t, Opened i f g s t → t.program.Lawful a.takes s.program.HasStruct) :
    ∃ (r : Replay) (g : Func) (t' : State), r.arities = a ∧ Opened i r.home g s r.start ∧
      r.pairing.Paired s' t' ∧ s'.program = r.final := by
  obtain ⟨r, g, s4, t4, harities, ho, -, -, -, -, hst, hclose, hfinal⟩ := lowerImpl_replayed hs hcode h a hlawful
  obtain ⟨_, t', -, hst', -⟩ := (inferInstance : Follows r.likeness closeBlocks closeBlocks Eq).run
    r.pairing hst hclose (hfinal ▸ .refl _)
  exact ⟨r, g, t', harities, ho, hst', hfinal⟩

/-- No function is declared under the name of another definition. -/
theorem lowerImpl_unlisted (hs : s.Rested) (hcode : (s.impls[i]?.getD default).code = none)
    (h : lowerImpl i s = .ok () s') (hhead : name.toList.head? = some '@') (harity : Arity name n) (hn : n ≠ 0)
    (hother : ¬ Named s (s.impls[i]?.getD default) name)
    (hnone : ∀ (f : Nat) (g : Func), s.program.funcs[f]? = some g → g.name ≠ name) :
    ∀ (f : Nat) (g : Func), s'.program.funcs[f]? = some g → g.name ≠ name := by
  -- under a law that the name takes no arguments
  have hlawful : ∀ f g t, Opened i f g s t →
      t.program.Lawful (Arities.withName name hhead).takes s.program.HasStruct := by
    intro f g t ho
    have hp := ho.lawful hs.lawful
    refine ⟨fun j g' k hg' hk => ?_, hp.result, hp.params, hp.globals, hp.structs⟩
    rcases hk with hk | ⟨hname, -⟩
    · exact hp.arity j g' k hg' (.library hk)
    · by_cases hj : j = f
      · subst hj
        cases ho.home.symm.trans hg'
        exact absurd (hname ▸ ho.named) hother
      · exact absurd hname (hnone j g' (ho.others j g' hj hg'))
  intro f g hg hname
  obtain ⟨r, -, t', harities, -, hst, hfinal⟩ := lowerImpl_paired hs hcode h _ hlawful
  obtain ⟨f0, hlowered⟩ := lowerImpl_lowered hs hcode h
  have hzero : g.params.size = 0 := (hst.program.lawful trivial).arity f g 0 hg (by
    change r.arities.takes g.name 0
    rw [harities]
    exact .inr ⟨hname, rfl⟩)
  have := hlowered.rested.lawful.arity f g n hg (hname ▸ harity)
  omega

/-- The function has been left as it was. -/
structure Kept (g g' : Func) : Prop extends g.Grown g' where
  blocks_eq : g'.blocks = g.blocks
  next_eq : g'.nextValue = g.nextValue

theorem Kept.trans {g h k : Func} (hgh : Kept g h) (hhk : Kept h k) : Kept g k :=
  ⟨hgh.toGrown.trans hhk.toGrown, hhk.blocks_eq.trans hgh.blocks_eq, hhk.next_eq.trans hgh.next_eq⟩

/-- The functions of other definitions are those that were there, and have been left as they were. -/
theorem lowerImpl_kept (hs : s.Rested) (hcode : (s.impls[i]?.getD default).code = none)
    (h : lowerImpl i s = .ok () s') (hhead : name.toList.head? = some '@') (harity : Arity name n) (hn : n ≠ 0)
    (hother : ¬ Named s (s.impls[i]?.getD default) name) {g' : Func} (hg' : s'.program.funcs[f]? = some g')
    (hname : g'.name = name) : ∃ g : Func, s.program.funcs[f]? = some g ∧ Kept g g' := by
  obtain ⟨f0, hlowered⟩ := lowerImpl_lowered hs hcode h
  have hlisted : ∃ (j : Nat) (g : Func), s.program.funcs[j]? = some g ∧ g.name = name := by
    by_contra hnone
    exact lowerImpl_unlisted hs hcode h hhead harity hn hother (fun j g hg hname => hnone ⟨j, g, hg, hname⟩) f g' hg' hname
  obtain ⟨j, g, hg, hgname⟩ := hlisted
  obtain ⟨g1, hg1, hgrown⟩ := hlowered.grown.funcs j g hg
  obtain rfl : j = f := by
    have hj := hlowered.rested.sound.found j g1 hg1
    rw [hgrown.name, hgname, ← hname, hlowered.rested.sound.found f g' hg'] at hj
    exact (Option.some.inj hj).symm
  cases hg1.symm.trans hg'
  obtain ⟨r, g0, t', -, ho, hst, hfinal⟩ := lowerImpl_paired hs hcode h .ofProgram fun _ _ _ ho => ho.lawful hs.lawful
  have hj : j ≠ r.home := by
    rintro rfl
    obtain ⟨g2, hg2, hgrown2⟩ := r.grown.funcs _ _ ho.home
    rw [← hfinal] at hg2
    cases hg2.symm.trans hg'
    exact hother (hname ▸ hgrown2.name ▸ ho.named)
  suffices hsame : g'.blocks = g.blocks ∧ g'.nextValue = g.nextValue from ⟨g, hg, hgrown, hsame.1, hsame.2⟩
  rcases hst.program.others j g' hj hg' with hdeclared | ⟨g2, hg2, hblocks, hnext⟩
  · have hsize : g.blocks.size = 0 := by simpa [hdeclared.blocks] using hgrown.size_le
    have hle := (hs.complete j g hg).numbered.params_le
    have hnext := hdeclared.nextValue
    rw [hgrown.params] at hnext
    exact ⟨hdeclared.blocks.trans (Array.eq_empty_of_size_eq_zero hsize).symm,
      Nat.le_antisymm (hnext ▸ hle) hgrown.nextValue⟩
  · cases hg.symm.trans (ho.others j g2 hj hg2)
    exact ⟨hblocks, hnext⟩

end Lowering.Lower
