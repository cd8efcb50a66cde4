import Lowering.Proofs.Closing
import Lowering.Proofs.Opening
import Lowering.Proofs.Replay

/-!
The compiler at rest, with no function in hand: every function is complete, and implementations that are
still to be lowered have no variables yet. From rest a function is opened, and when its blocks have been
closed the compiler is at rest again.
-/
namespace Lowering

/-- What a program lists can be linked: references are in range, and calls fit the functions called. -/
structure Program.Linked (p : Program) : Prop where
  sound : p.Sound
  lawful : p.Lawful Arity p.HasStruct
  laid : p.Laid
  funcs : ∀ (i : Nat) (f : Func), p.funcs[i]? = some f → f.Linked p

/-- The functions of a program are complete. -/
structure Program.Finished (p : Program) : Prop where
  sound : p.Sound
  lawful : p.Lawful Arity p.HasStruct
  laid : p.Laid
  complete : ∀ (i : Nat) (f : Func), p.funcs[i]? = some f → f.Complete p

structure State.Rested (s : State) : Prop extends s.program.Finished where
  /-- Every implementation has a scope of its own. -/
  scope : ∀ (i : Nat) (m : Impl), s.impls[i]? = some m → m.scope = i
  scopes : s.scopes.size = s.impls.size
  fresh : ∀ (i : Nat) (m : Impl), s.impls[i]? = some m → m.code = none → s.scopes[i]? = some #[]
  /-- An implementation that has been lowered is the function of its name, which has code. -/
  coded : ∀ (i : Nat) (m : Impl) (f : Nat), s.impls[i]? = some m → m.code = some f →
    ∃ g : Func, s.program.funcs[f]? = some g ∧ Lower.Named s m g.name ∧ g.blocks.size ≠ 0
  /-- All code comes from implementations. -/
  owned : ∀ (f : Nat) (g : Func), s.program.funcs[f]? = some g → g.blocks.size ≠ 0 →
    ∃ (i : Nat) (m : Impl), s.impls[i]? = some m ∧ m.code = some f

theorem Func.Complete.fits_of_grown {p q : Program} {f g : Func} (h : f.Complete p)
    (hf : ∀ (k : Nat) (b : Block), f.blocks[k]? = some b → b.Shaped) (hpq : p.Grown q) (hfg : f.Grown g) {k : Nat} {c : Block} {i : Instr} (hk : k < f.blocks.size)
    (hc : g.blocks[k]? = some c) (hi : .instr i ∈ c.items) : i.Fits q g := by
  have hb := Array.getElem?_eq_getElem hk
  obtain ⟨c', hc', hgrown⟩ := hfg.blocks k _ hb
  cases hc.symm.trans hc'
  have hlocked : f.blocks[k].locked = true := by
    rcases hf k _ hb with ⟨body, hopen⟩ | ⟨body, last, hended⟩
    · have hended := (h.done k _ hb).ended
      rw [hopen.needsEnd] at hended
      cases hended
    · exact hended.locked
  rw [(hgrown.frozen hlocked).1] at hi
  exact (h.fits k _ i hb hi).mono hpq hfg.nextValue hfg.size_le

/-- A function whose code is as it was stays complete. -/
theorem Func.Complete.of_same {p q : Program} {f g : Func} (h : f.Complete p) (hpq : p.Grown q)
    (hfg : f.Grown g) (hblocks : g.blocks = f.blocks) (hnext : g.nextValue = f.nextValue) : g.Complete q where
  numbered := h.numbered.of_resultAt hfg.params hnext fun k j n hn => by
    rwa [Func.resultAt, hblocks] at hn
  done k b hb := hblocks ▸ h.done k b (hblocks ▸ hb)
  fits k b i hb hi := (h.fits k b i (hblocks ▸ hb) hi).mono hpq hfg.nextValue hfg.size_le

section Runs

variable {r : Replay} {s s' t' : State}

/-- The function in hand is linked at the end of a run: its old blocks are as they were, and what the
new ones refer to is there. -/
theorem Func.Complete.linked_last {p : Program} {g : Func} (h : g.Complete p)
    (hg : ∀ (k : Nat) (b : Block), g.blocks[k]? = some b → b.Shaped) (hgrown : p.Grown r.start.program)
    (hbegun : g.Grown r.begun) (hfirst : r.first = g.blocks.size) (hst : r.pairing.Paired s' t')
    (hfinal : s'.program = r.final) : r.last.Linked r.final where
  numbered := Replay.numbered_of_paired hst hfinal
  fits k b j hb hj := by
    rcases Nat.lt_or_ge k g.blocks.size with hk | hk
    · exact h.fits_of_grown hg (hgrown.trans r.grown) (hbegun.trans r.begun_grown) hk hb hj
    · exact Replay.fits_of_paired hst hfinal (hfirst ▸ hk) hb hj

theorem State.Rested.complete_other (hs : s.Rested) (hgrown : s.program.Grown r.start.program)
    (hothers : ∀ (j : Nat) (g : Func), j ≠ r.home → r.start.program.funcs[j]? = some g →
      s.program.funcs[j]? = some g ∨ g.Declared)
    (hst : r.pairing.Paired s' t') (hfinal : s'.program = r.final) {j : Nat} {h : Func}
    (hj : j ≠ r.home) (hh : r.final.funcs[j]? = some h) : h.Complete r.final := by
  rcases hst.program.others j h hj (hfinal ▸ hh) with hdeclared | ⟨h0, hh0, hblocks, hnext⟩
  · exact hdeclared.complete _
  obtain ⟨h', hh', hgrown'⟩ := r.grown.funcs j h0 hh0
  cases hh.symm.trans hh'
  rcases hothers j h0 hj hh0 with hold | hdeclared
  · exact (hs.complete j h0 hold).of_same (hgrown.trans r.grown) hgrown' hblocks hnext
  · exact (hdeclared.complete r.start.program).of_same r.grown hgrown' hblocks hnext

end Runs

theorem State.Rested.linked {s : State} (hs : s.Rested) : s.program.Linked :=
  ⟨hs.sound, hs.lawful, hs.laid, fun i f hf => (hs.complete i f hf).toLinked⟩

namespace Lower

variable {s t s' t' : State} {i f : Nat} {g : Func}

theorem blocks_entered {k : Nat} {b : Block} (h : (entered g).blocks[k]? = some b) :
    g.blocks[k]? = some b ∧ k < g.blocks.size ∨ g.blocks.size ≤ k ∧ b.items = #[] ∧ b.branches = #[] := by
  simp only [entered, Func.addBlock, Array.getElem?_push, Array.size_push] at h
  split at h
  next hk =>
    cases h
    exact .inr ⟨by omega, rfl, rfl⟩
  next =>
    split at h
    next hk =>
      cases h
      exact .inr ⟨by omega, rfl, rfl⟩
    next => exact .inl ⟨h, (Array.getElem?_eq_some_iff.1 h).1⟩

theorem size_entered (g : Func) : (entered g).blocks.size = g.blocks.size + 2 := by
  simp [entered, Func.addBlock]

theorem Opened.complete (ho : Opened i f g s t) (hs : s.Rested) : g.Complete s.program :=
  ho.before.elim (hs.complete f g) fun h => h.declared.complete _

theorem Opened.params (ho : Opened i f g s t) (hs : s.Rested) :
    ∃ ending, Signed (s.impls[i]?.getD default).convention ending g.params.size := by
  obtain ⟨ending, n, d, base, hsigned, -, -, hname⟩ := ho.named
  have harity := (ho.lawful hs.lawful).arity f (entered g) n ho.home (hname ▸ hsigned.arity base)
  exact ⟨ending, (show g.params.size = n from harity) ▸ hsigned⟩

theorem Opened.convention (ho : Opened i f g s t) :
    (t.impls[i]?.getD default).convention = (s.impls[i]?.getD default).convention := by
  rw [ho.impls, Array.getElem?_modify, if_pos rfl]
  cases s.impls[i]? <;> rfl

theorem Opened.parent (ho : Opened i f g s t) :
    (t.impls[i]?.getD default).parent = (s.impls[i]?.getD default).parent := by
  rw [ho.impls, Array.getElem?_modify, if_pos rfl]
  cases s.impls[i]? <;> rfl

theorem Opened.exists_impl (ho : Opened i f g s t) : ∃ m, s.impls[i]? = some m := by
  obtain ⟨ending, n, -, -, hsigned, -⟩ := ho.named
  cases hm : s.impls[i]? with
  | some m => exact ⟨m, rfl⟩
  | none =>
    rw [hm] at hsigned
    cases hsigned

theorem Opened.scope (ho : Opened i f g s t) (hs : s.Rested) : (s.impls[i]?.getD default).scope = i := by
  obtain ⟨m, hm⟩ := ho.exists_impl
  rw [hm]
  exact hs.scope i m hm

theorem Opened.exists_replay (ho : Opened i f g s t) (hs : s.Rested)
    (hcode : (s.impls[i]?.getD default).code = none) {p : Program} (hp : p.Sound)
    (hgrown : t.program.Grown p) (a : Arities) (hlawful : t.program.Lawful a.takes s.program.HasStruct) :
    ∃ r : Replay, r.arities = a ∧ r.start = t ∧ r.final = p ∧ r.home = f ∧ r.begun = entered g ∧
      r.first = g.blocks.size ∧ r.impl = i ∧ r.scope = i ∧ g.params.size ≤ r.last.nextValue ∧
      ((t.lowerer = .tree → TreeLike r.likeness t.tree t.tree) →
        t.lowerer ≠ .stack → r.Ready) := by
  have hcomplete := ho.complete hs
  obtain ⟨ending, hsigned⟩ := ho.params hs
  obtain ⟨last, hlast, hgl⟩ := hgrown.funcs f _ ho.home
  have hparams : g.params.size ≤ last.nextValue :=
    Nat.le_trans hcomplete.numbered.params_le hgl.nextValue
  have hstructs : p.HasStruct = s.program.HasStruct := (ho.grown.trans hgrown).hasStruct
  obtain ⟨m, hm⟩ := ho.exists_impl
  have hthree := hsigned.three_le
  have htwo : 2 ≤ last.nextValue := by omega
  let r : Replay := {
    arities := a, start := t, final := p, sound := hp, grown := hgrown, home := f, begun := entered g
    begun_eq := ho.home, last := last, last_eq := hlast, two_le := htwo
    struct_zero := hstructs ▸ hs.laid.zero
    struct_of := by
      rw [(ho.grown.trans hgrown).structs, hstructs]
      exact hs.lawful.structs
    first := g.blocks.size, impl := i, scope := i }
  refine ⟨r, rfl, rfl, rfl, rfl, rfl, rfl, rfl, rfl, hparams, fun htree hunstacked => ?_⟩
  have hsize := hgl.size_le
  rw [size_entered] at hsize
  obtain ⟨c, hc, hfunc, hblock⟩ := ho.stands
  refine {
    sound := ho.sound
    lawful := hstructs ▸ hlawful
    numbered := (hcomplete.numbered.addBlock _).addBlock _
    first_le := by
      simp only [r, size_entered]
      omega
    done := fun k b hk hb => ?_
    fresh := fun k b hk hb => ?_
    cursor := ⟨c, ho.cursor ▸ hc, hfunc, ?_⟩
    own := fun _ => ho.cursor.symm
    scope := fun xs hxs => ?_
    impl := fun _ => ?_
    tree := htree
    unstacked := hunstacked }
  · rcases blocks_entered hb with ⟨hb, -⟩ | ⟨hle, -⟩
    · exact hcomplete.done k b hb
    · exact absurd hk (Nat.not_lt.2 hle)
  · rcases blocks_entered hb with ⟨-, hlt⟩ | ⟨-, hempty⟩
    · exact absurd hk (Nat.not_le.2 hlt)
    · exact hempty
  · rw [hblock]
    exact .some (r.ref_like (Nat.le_succ _) (by simp only [r]; omega))
  · have hfresh := hs.fresh i m hm (by rw [hm] at hcode; exact hcode)
    rw [← ho.scopes] at hfresh
    exact Option.some.inj (hxs.symm.trans hfresh)
  · simp only [r, ho.impls, Array.getElem?_modify, if_true, hm, Option.map_some, Option.getD_some]
    exact ⟨trivial, hs.scope i m hm⟩

theorem grown_entered (g : Func) : g.Grown (entered g) :=
  (g.grown_addBlock _).trans (Func.grown_addBlock _ _)

/-- The function that was opened is complete again when its blocks have been closed. -/
theorem Opened.complete_last {r : Replay} (ho : Opened i r.home g s r.start) (hs : s.Rested)
    (hbegun : r.begun = entered g) (hfirst : r.first = g.blocks.size)
    (hst : r.pairing.Paired s' t') (hfinal : s'.program = r.final)
    (hclosed : ∀ k, ¬ s'.program.OpenAt ⟨r.home, k⟩) : r.last.Complete r.final where
  toLinked := by
    refine (ho.complete hs).linked_last (fun k b hb => ?_) ho.grown ?_ hfirst hst hfinal
    · have hlt := (Array.getElem?_eq_some_iff.1 hb).1
      refine ((ho.sound.funcs _ _ ho.home).blocks k b ?_).2
      simp only [entered, Func.addBlock, Array.getElem?_push, Array.size_push]
      rw [if_neg (by omega), if_neg (by omega), hb]
    · rw [hbegun]
      exact grown_entered g
  done k b hb := by
    refine ⟨Bool.eq_false_iff.2 fun hend => hclosed k ⟨b, ?_, hend⟩, Replay.within_of_paired hst hfinal hb⟩
    rw [hfinal, Program.blockAt, r.last_eq]
    exact hb

theorem Opened.coded {r : Replay} (ho : Opened i r.home g s r.start) (hs : s.Rested)
    (hbegun : r.begun = entered g) (hst : r.pairing.Paired s' t') (hfinal : s'.program = r.final)
    {j f : Nat} {m : Impl} (hm : s'.impls[j]? = some m) (hf : m.code = some f) :
    ∃ h : Func, s'.program.funcs[f]? = some h ∧ Named s' m h.name ∧ h.blocks.size ≠ 0 := by
  have hdefinitions : s'.definitions = s.definitions := hst.definitions.1.trans ho.definitions
  rw [hst.impls, show r.pairing.start.impls = _ from ho.impls, Array.getElem?_modify] at hm
  split at hm
  next hij =>
    obtain ⟨m', hm', rfl⟩ := Option.map_eq_some_iff.1 hm
    cases hf
    have hgrown : (entered g).Grown r.last := hbegun ▸ r.begun_grown
    refine ⟨r.last, hfinal ▸ r.last_eq, ?_, ?_⟩
    · have hnamed := ho.named
      rw [hij, hm', show g.name = r.last.name from hgrown.name.symm] at hnamed
      simpa only [Named, hdefinitions, Option.getD_some] using hnamed
    · have hsize := hgrown.size_le
      rw [size_entered] at hsize
      omega
  next =>
    obtain ⟨h, hh, hnamed, hsize⟩ := hs.coded j m f hm hf
    obtain ⟨h', hh', hgrown⟩ := (ho.grown.trans r.grown).funcs f h hh
    refine ⟨h', hfinal ▸ hh', ?_, ?_⟩
    · simpa only [Named, hdefinitions, hgrown.name] using hnamed
    · have := hgrown.size_le
      omega

theorem Opened.owned {r : Replay} (ho : Opened i r.home g s r.start) (hs : s.Rested)
    (hcode : (s.impls[i]?.getD default).code = none) (hst : r.pairing.Paired s' t')
    {f : Nat} {h : Func} (hh : s'.program.funcs[f]? = some h)
    (hblocks : h.blocks.size ≠ 0) : ∃ (j : Nat) (m : Impl), s'.impls[j]? = some m ∧ m.code = some f := by
  rw [hst.impls, show r.pairing.start.impls = _ from ho.impls]
  simp only [Array.getElem?_modify]
  by_cases hf : f = r.home
  · obtain ⟨m, hm⟩ := ho.exists_impl
    exact ⟨i, { m with code := some r.home }, by simp [hm], by rw [hf]⟩
  · have hold : ∃ h0 : Func, s.program.funcs[f]? = some h0 ∧ h0.blocks.size ≠ 0 := by
      rcases hst.program.others f h hf hh with hdeclared | ⟨h0, hh0, heq, -⟩
      · simp [hdeclared.blocks] at hblocks
      exact ⟨h0, ho.others f h0 hf hh0, heq ▸ hblocks⟩
    obtain ⟨h0, hh0, hsize⟩ := hold
    obtain ⟨j, m, hm, hmf⟩ := hs.owned f h0 hh0 hsize
    refine ⟨j, m, ?_, hmf⟩
    rw [if_neg, hm]
    rintro rfl
    rw [hm] at hcode
    cases hmf.symm.trans hcode

/-- When the blocks of the function in hand have been closed, the compiler is at rest again. -/
theorem Opened.rested {r : Replay} (ho : Opened i r.home g s r.start) (hs : s.Rested)
    (hcode : (s.impls[i]?.getD default).code = none) (hbegun : r.begun = entered g) (hfirst : r.first = g.blocks.size) (hscope : r.scope = i)
    (harities : r.arities = .ofProgram) (hst : r.pairing.Paired s' t') (hfinal : s'.program = r.final)
    (hclosed : ∀ k, ¬ s'.program.OpenAt ⟨r.home, k⟩) : s'.Rested := by
  have hgrown : s.program.Grown s'.program := hfinal ▸ ho.grown.trans r.grown
  have himpls : s'.impls = s.impls.modify i fun m => { m with code := some r.home } :=
    hst.impls.trans ho.impls
  refine ⟨⟨hst.program.sound, ?_, hs.laid.of_grown hgrown, fun j h hh => ?_⟩, fun j m hm => ?_, ?_,
    fun j m hm hnone => ?_, fun j m f hm hf => ?_, fun f h hh hblocks => ?_⟩
  · have hlawful := hst.program.lawful trivial
    rwa [show r.likeness.arity = Arity from congrArg Arities.takes harities,
      show r.likeness.struct = s'.program.HasStruct from congrArg Program.HasStruct hfinal.symm] at hlawful
  · rw [hfinal] at hh ⊢
    by_cases hj : j = r.home
    · subst hj
      cases hh.symm.trans r.last_eq
      exact ho.complete_last hs hbegun hfirst hst hfinal hclosed
    · exact hs.complete_other ho.grown (fun k g hk hg => .inl (ho.others k g hk hg)) hst hfinal hj hh
  · rw [himpls, Array.getElem?_modify] at hm
    split at hm
    · obtain ⟨m', hm', rfl⟩ := Option.map_eq_some_iff.1 hm
      exact hs.scope j m' hm'
    · exact hs.scope j m hm
  · rw [himpls, Array.size_modify, ← hs.scopes, ← ho.scopes]
    exact hst.vars.count
  · rw [himpls, Array.getElem?_modify] at hm
    split at hm
    next =>
      obtain ⟨m', -, rfl⟩ := Option.map_eq_some_iff.1 hm
      cases hnone
    next hij =>
      rw [hst.vars.others j (fun h => hij (hscope.symm.trans h.symm)), show r.pairing.start.scopes = _ from ho.scopes]
      exact hs.fresh j m hm hnone
  · exact ho.coded hs hbegun hst hfinal hm hf
  · exact ho.owned hs hcode hst hh hblocks

end Lower
end Lowering
