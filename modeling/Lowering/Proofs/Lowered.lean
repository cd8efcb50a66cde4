import Lowering.Proofs.Follows.Statement
import Lowering.Proofs.Rest

/-!
What a completed lowering of a tree leaves: the function of the implementation has all its blocks ended,
its code fits the program, and everything beside it is as it was.
-/
namespace Lowering.Lower

open Emit

variable {s t s' t' s₁ t₁ : State} {i f : Nat} {g : Func}

/-- An implementation has been lowered to a function. -/
structure Lowered (i f : Nat) (s s' : State) : Prop where
  rested : s'.Rested
  grown : s.program.Grown s'.program
  impls : s'.impls = s.impls.modify i fun m => { m with code := some f }
  named : ∃ g : Func, s'.program.funcs[f]? = some g ∧ Named s (s.impls[i]?.getD default) g.name
  /-- The walk over the blocks of the function, which closes them, has ended. -/
  swept : ∃ (t : State) (g : Func), t.program.funcs[f]? = some g ∧ closeBlocks t = .ok () s' ∧
    Sweep f (closeBlock g.cursor g.result) 0 t s'
  definitions : s'.definitions = s.definitions
  files : s'.files = s.files ∧ s'.fileTable = s.fileTable

theorem Opened.lowered {r : Replay} (ho : Opened i r.home g s r.start) (hs : s.Rested)
    (hcode : (s.impls[i]?.getD default).code = none) (hbegun : r.begun = entered g) (hfirst : r.first = g.blocks.size)
    (hscope : r.scope = i) (harities : r.arities = .ofProgram) (hready : r.Ready) (hst : r.pairing.Paired s₁ t₁)
    (hclose : closeBlocks s₁ = .ok () s') (hfinal : s'.program = r.final) : Lowered i r.home s s' := by
  have hgrown1 : s₁.program.Grown r.final := hfinal ▸ (Grows.extends_of_ok hclose hst.program.sound).2
  obtain ⟨_, t', -, hst', -⟩ := (inferInstance : Follows r.likeness closeBlocks closeBlocks Eq).run
    r.pairing hst hclose (hfinal ▸ .refl _)
  -- the implementation in hand is the one that was opened, and its cursor is in use
  obtain ⟨m, s2, hm, -⟩ := bind_eq_ok.1 hclose
  obtain rfl := state_of_currentImpl hm
  obtain ⟨m', t2, -, -, hbare, rfl, -⟩ := (follows_currentImpl (θ := r.likeness)).run r.pairing hst hm
    hgrown1
  obtain ⟨hhome, -⟩ := hready.impl hbare
  obtain ⟨g1, g1', hg1, -, hlike⟩ := hst.program.home
  have hcursor : s2.cursor = g1.cursor := (hst.own _ _ (hlike.cursor _ _ ⟨hbare, rfl, rfl⟩)).1
  obtain ⟨hclosed, hsweep, -⟩ := closeBlocks_closed hst.program.sound hm (hst.impls ▸ hhome) hg1 hcursor hclose
  refine ⟨ho.rested hs hcode hbegun hfirst hscope harities hst' hfinal hclosed, ?_, hst'.impls.trans ho.impls, ?_,
    ⟨s2, g1, hg1, hclose, hsweep⟩, hst'.definitions.1.trans ho.definitions, ?_⟩
  · rw [hfinal]
    exact ho.grown.trans r.grown
  · refine ⟨r.last, hfinal ▸ r.last_eq, ?_⟩
    rw [r.begun_grown.name, hbegun]
    exact ho.named
  · exact ⟨hst'.sources.1.trans ho.files.1, hst'.sources.2.trans ho.files.2⟩

/-- What every lowering ends with: the entry block leads on to the code, then the blocks are closed. -/
theorem paired_of_ends {r : Replay} {entry entry' content content' : BlockRef} {s2 s3 s4 t2 : State}
    (hst : r.pairing.Paired s2 t2) (hentry : r.likeness.block entry entry')
    (hcontent : r.likeness.block content content') (hset : setBlock entry s2 = .ok () s3)
    (hbranch : branch content s3 = .ok () s4) (hgrown : s4.program.Grown r.final) : ∃ t4, r.pairing.Paired s4 t4 := by
  have hsound3 := (Grows.extends_of_ok hset hst.program.sound).1
  have hgrown4 := (Grows.extends_of_ok hbranch hsound3).2
  have : RefLike r.likeness entry entry := ⟨Replay.block_self hentry⟩
  have : RefLike r.likeness content content := ⟨Replay.block_self hcontent⟩
  obtain ⟨t3, hst3⟩ := paired_of_ok (d := r.pairing) hst hset (hgrown4.trans hgrown)
  exact paired_of_ok (d := r.pairing) hst3 hbranch hgrown

/-- What is known when the lowering of a tree has been started: the function has been opened, and the
arguments are still to be bound. -/
theorem start_opened {entry content : BlockRef} (hs : s.program.Sound)
    (h : openFunction i { s with lowerer := .tree, tree := { impl := i, scope := (s.impls[i]?.getD default).scope } } =
      .ok (entry, content) s') :
    ∃ f g t, Opened i f g s t ∧ t.lowerer = .tree ∧
      t.tree = { impl := i, scope := (s.impls[i]?.getD default).scope, cursor := g.cursor,
                 entry := ⟨f, g.blocks.size⟩, content := ⟨f, g.blocks.size + 1⟩ } ∧
      start i s = bindParameters i t := by
  obtain ⟨f, g, ho, rfl, rfl, hlowerer, htree, -⟩ := openFunction_opened (by exact hs) h
  have hstart : start i s = bindParameters i { s' with
      tree := { s'.tree with
        entry := ⟨f, g.blocks.size⟩
        content := ⟨f, g.blocks.size + 1⟩
        cursor := s'.cursor } } := bind_run_of_ok h
  refine ⟨f, g, _, ?_, ?_, ?_, hstart⟩
  · exact { ho with }
  · exact hlowerer
  · simp only [htree, ho.cursor]

theorem start_eq_ok (hs : s.program.Sound) (h : start i s = .ok () s') : ∃ f g t, Opened i f g s t ∧ t.lowerer = .tree ∧
      t.tree = { impl := i, scope := (s.impls[i]?.getD default).scope, cursor := g.cursor,
                 entry := ⟨f, g.blocks.size⟩, content := ⟨f, g.blocks.size + 1⟩ } ∧
      bindParameters i t = .ok () s' := by
  have hopen : ∃ (blocks : BlockRef × BlockRef) (t : State),
      openFunction i { s with lowerer := .tree, tree := { impl := i, scope := (s.impls[i]?.getD default).scope } } =
        .ok blocks t := by
    unfold start at h
    obtain ⟨m, s₁, hm, h⟩ := bind_eq_ok.1 h
    obtain ⟨rfl, rfl⟩ := pure_eq_ok.1 hm
    obtain ⟨_, s2, h2, h⟩ := bind_eq_ok.1 h
    cases h2
    obtain ⟨blocks, s3, hopen, -⟩ := bind_eq_ok.1 h
    exact ⟨blocks, s3, hopen⟩
  obtain ⟨⟨entry, content⟩, s3, hopen⟩ := hopen
  obtain ⟨f, g, t, ho, hlowerer, htree, hstart⟩ := start_opened hs hopen
  exact ⟨f, g, t, ho, hlowerer, htree, hstart ▸ h⟩

/-- Binding the arguments of a call follows itself: the values of the parameters are there. -/
theorem Opened.bindParameters_paired {r : Replay} (ho : Opened i r.home g s r.start) (hs : s.Rested)
    (hready : r.Ready) (hparams : g.params.size ≤ r.last.nextValue)
    (h : bindParameters i r.start = .ok () s') (hgrown : s'.program.Grown r.final) : ∃ t', r.pairing.Paired s' t' := by
  obtain ⟨ending, hsigned⟩ := ho.params hs
  obtain ⟨-, -, d, -, -, hparent, -⟩ := ho.named
  unfold bindParameters at h
  obtain ⟨m, s₁, hm, h⟩ := bind_eq_ok.1 h
  obtain ⟨rfl, hs1⟩ := pure_eq_ok.1 hm
  rw [hs1, ho.parent, hparent, ho.convention] at h
  simp only [expect, pure_bind] at h
  have hlike : ∀ k : Nat, k < g.params.size → OperandLike r.likeness (.id k) (.id k) := fun k hk =>
    .id ⟨rfl, by omega, by omega⟩
  generalize (s.impls[i]?.getD default).convention = c at h hsigned
  generalize g.params.size = n at hlike hsigned
  cases hsigned with
  | tuple =>
    have : OperandLike r.likeness 2 2 := hlike 2 (by decide)
    exact paired_of_ok hready.paired h hgrown
  | vector =>
    have : OperandLike r.likeness 3 3 := hlike 3 (by decide)
    exact paired_of_ok hready.paired h hgrown

instance (i : Nat) : Grows (bindParameters i) := by
  unfold bindParameters
  infer_instance

theorem lowerImpl_eq_ok : lowerImpl i s = .ok () s' ↔
    ∃ s₁ s2 s3 s4 d, start i s = .ok () s₁ ∧ (s₁.impls[i]?.getD default).parent = some d ∧
      visit (s₁.definitions[d]?.getD default).node s₁ = .ok () s2 ∧
      setBlock s2.tree.entry s2 = .ok () s3 ∧ branch s2.tree.content s3 = .ok () s4 ∧ closeBlocks s4 = .ok () s' := by
  unfold lowerImpl
  constructor
  · intro h
    obtain ⟨_, _, hstart, h⟩ := bind_eq_ok.1 h
    obtain ⟨m, s₁, hm, h⟩ := bind_eq_ok.1 h
    obtain ⟨rfl, rfl⟩ := pure_eq_ok.1 hm
    cases hd : (s₁.impls[i]?.getD default).parent with
    | none =>
      rw [hd] at h
      obtain ⟨_, _, hthrow, -⟩ := bind_eq_ok.1 h
      exact absurd hthrow throw_ne_ok
    | some d =>
      rw [hd] at h
      dsimp only at h
      rw [get_bind_run] at h
      obtain ⟨_, s2, hvisit, h⟩ := bind_eq_ok.1 h
      rw [get_bind_run] at h
      obtain ⟨_, s3, hset, h⟩ := bind_eq_ok.1 h
      obtain ⟨_, s4, hbranch, hclose⟩ := bind_eq_ok.1 h
      exact ⟨s₁, s2, s3, s4, d, hstart, hd, hvisit, hset, hbranch, hclose⟩
  · rintro ⟨s₁, s2, s3, s4, d, hstart, hd, hvisit, hset, hbranch, hclose⟩
    refine bind_eq_ok.2 ⟨(), s₁, hstart, bind_eq_ok.2 ⟨_, s₁, rfl, ?_⟩⟩
    rw [hd]
    dsimp only
    rw [get_bind_run]
    refine bind_eq_ok.2 ⟨(), s2, hvisit, ?_⟩
    rw [get_bind_run]
    exact bind_eq_ok.2 ⟨(), s3, hset, bind_eq_ok.2 ⟨(), s4, hbranch, hclose⟩⟩

/-- A lowering that has been started can be run beside itself, to any program that its own may become, whatever
law the functions that are there keep to. -/
theorem start_replayed (hs : s.Rested) (hcode : (s.impls[i]?.getD default).code = none)
    (hstart : start i s = .ok () s₁) {p : Program} (hp : p.Sound) (hgrown : s₁.program.Grown p) (a : Arities)
    (hlawful : ∀ f g t, Opened i f g s t → t.program.Lawful a.takes s.program.HasStruct) :
    ∃ (r : Replay) (g : Func) (t₁ : State), r.arities = a ∧ r.final = p ∧ Opened i r.home g s r.start ∧
      r.begun = entered g ∧ r.first = g.blocks.size ∧ r.scope = i ∧ r.Ready ∧ r.start.lowerer = .tree ∧
      r.pairing.Paired s₁ t₁ := by
  obtain ⟨f, g, t, ho, hlowerer, htree, hbind⟩ := start_eq_ok hs.sound hstart
  have hgrown1 := (Grows.extends_of_ok hbind ho.sound).2
  obtain ⟨r, harities, rfl, hfinal, rfl, hbegun, hfirst, himpl, hscope, hparams, hready⟩ :=
    ho.exists_replay hs hcode hp (hgrown1.trans hgrown) a (hlawful f g t ho)
  have hbare : r.start.lowerer ≠ .bare := by rw [hlowerer]; decide
  have hsize : r.first + 2 ≤ r.last.blocks.size := by
    rw [hfirst, ← size_entered, ← hbegun]
    exact r.begun_grown.size_le
  have hentry : r.likeness.block r.start.tree.entry r.start.tree.entry := by
    rw [htree]
    exact r.ref_like (Nat.le_of_eq hfirst) (by omega)
  have hcontent : r.likeness.block r.start.tree.content r.start.tree.content := by
    rw [htree]
    exact r.ref_like (by omega) (by omega)
  replace hready : r.Ready := by
    refine hready (fun _ => ?_) (by rw [hlowerer]; decide)
    refine ⟨?_, ?_, hentry, hcontent, ?_, ?_, ?_, ?_, rfl⟩ <;> rw [htree]
    · exact ⟨hbare, himpl.symm, himpl.symm⟩
    · exact ⟨hbare, hscope ▸ ho.scope hs, hscope ▸ ho.scope hs⟩
    · exact ⟨none, inferInstance⟩
    · exact ⟨none, inferInstance⟩
    · exact .nil
    · exact .nil
  obtain ⟨t₁, hst1⟩ := ho.bindParameters_paired hs hready hparams hbind (hfinal ▸ hgrown)
  exact ⟨r, g, t₁, harities, hfinal, ho, hbegun, hfirst, hscope, hready, hlowerer, hst1⟩

theorem start_keeps (hs : s.Rested) (hcode : (s.impls[i]?.getD default).code = none) (hstart : start i s = .ok () s₁) :
    (∃ f, s₁.impls = s.impls.modify i fun m => { m with code := some f }) ∧ s₁.definitions = s.definitions := by
  obtain ⟨f, g, t, ho, -, -, hbind⟩ := start_eq_ok hs.sound hstart
  obtain ⟨r, g, t₁, -, -, ho, -, -, -, -, -, hst⟩ := start_replayed hs hcode hstart
    (Grows.extends_of_ok hbind ho.sound).1 (.refl _) .ofProgram fun _ _ _ ho => ho.lawful hs.lawful
  exact ⟨⟨r.home, hst.impls.trans ho.impls⟩, hst.definitions.1.trans ho.definitions⟩

/-- A completed lowering of a tree can be run beside itself up to the closing of the blocks, whatever law
the functions that are there keep to. -/
theorem lowerImpl_replayed (hs : s.Rested) (hcode : (s.impls[i]?.getD default).code = none)
    (h : lowerImpl i s = .ok () s') (a : Arities)
    (hlawful : ∀ f g t, Opened i f g s t → t.program.Lawful a.takes s.program.HasStruct) :
    ∃ (r : Replay) (g : Func) (s4 t4 : State), r.arities = a ∧ Opened i r.home g s r.start ∧
      r.begun = entered g ∧ r.first = g.blocks.size ∧ r.scope = i ∧ r.Ready ∧ r.pairing.Paired s4 t4 ∧
      closeBlocks s4 = .ok () s' ∧ s'.program = r.final := by
  obtain ⟨s₁, s2, s3, s4, d, hstart, -, hvisit, hset, hbranch, hclose⟩ := lowerImpl_eq_ok.1 h
  obtain ⟨f, g, t, ho, -, -, hbind⟩ := start_eq_ok hs.sound hstart
  have hsound1 := (Grows.extends_of_ok hbind ho.sound).1
  obtain ⟨hsound2, hgrown2⟩ := Grows.extends_of_ok hvisit hsound1
  obtain ⟨hsound3, hgrown3⟩ := Grows.extends_of_ok hset hsound2
  obtain ⟨hsound4, hgrown4⟩ := Grows.extends_of_ok hbranch hsound3
  obtain ⟨hsound', hgrown'⟩ := Grows.extends_of_ok hclose hsound4
  have hafter2 := hgrown3.trans (hgrown4.trans hgrown')
  obtain ⟨r, g, t₁, harities, hfinal, ho, hbegun, hfirst, hscope, hready, hlowerer, hst1⟩ :=
    start_replayed hs hcode hstart hsound' (hgrown2.trans hafter2) a hlawful
  have : OfTree r.likeness := ⟨hlowerer⟩
  rw [← hfinal] at hgrown' hafter2
  obtain ⟨t2, hst2⟩ := paired_of_ok (d := r.pairing) hst1 hvisit hafter2
  have htree2 := hst2.tree hlowerer
  obtain ⟨t4, hst4⟩ := paired_of_ends hst2 htree2.entry htree2.content hset hbranch hgrown'
  exact ⟨r, g, s4, t4, harities, ho, hbegun, hfirst, hscope, hready, hst4, hclose, hfinal.symm⟩

theorem lowerImpl_lowered (hs : s.Rested) (hcode : (s.impls[i]?.getD default).code = none)
    (h : lowerImpl i s = .ok () s') : ∃ f, Lowered i f s s' := by
  obtain ⟨r, g, s4, t4, harities, ho, hbegun, hfirst, hscope, hready, hst, hclose, hfinal⟩ :=
    lowerImpl_replayed hs hcode h .ofProgram fun _ _ _ ho => ho.lawful hs.lawful
  exact ⟨r.home, ho.lowered hs hcode hbegun hfirst hscope harities hready hst hclose hfinal⟩

end Lowering.Lower
