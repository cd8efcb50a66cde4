import Lowering.Proofs.Follows

/-!
The actions that change a program follow their likes.
-/
namespace Lowering

open Emit

variable {θ : Likeness} {d : Pairing θ} {p q : Program} {s t s' : State}

theorem Program.mapFunc_mapFunc (p : Program) (i : Nat) (g h : Func → Func) :
    (p.mapFunc i g).mapFunc i h = p.mapFunc i fun f => h (g f) := by
  simp only [mapFunc]
  congr 1
  apply Array.ext_getElem?
  intro j
  simp only [Array.getElem?_modify]
  split <;> simp [Function.comp_def]

theorem Program.Lawful.of_grown {arity : String → Nat → Prop} {struct : Int → Prop}
    (h : p.Lawful arity struct) (hgrown : p.Grown q) (hsize : q.funcs.size = p.funcs.size)
    (hglobals : q.globals = p.globals) : q.Lawful arity struct := by
  have hback : ∀ (i : Nat) (g : Func), q.funcs[i]? = some g →
      ∃ f : Func, p.funcs[i]? = some f ∧ f.Grown g := by
    intro i g hg
    have hlt := (Array.getElem?_eq_some_iff.1 hg).1
    have hf := Array.getElem?_eq_getElem (hsize ▸ hlt)
    obtain ⟨g', hg', hfg⟩ := hgrown.funcs i _ hf
    cases hg.symm.trans hg'
    exact ⟨_, hf, hfg⟩
  refine ⟨fun i g n hg hn => ?_, fun i g hg => ?_, fun i g hg => ?_, hglobals ▸ h.globals,
    hgrown.structs ▸ h.structs⟩
  · obtain ⟨f, hf, hfg⟩ := hback i g hg
    rw [hfg.params]
    exact h.arity i f n hf (hfg.name ▸ hn)
  · obtain ⟨f, hf, hfg⟩ := hback i g hg
    rw [hfg.result]
    exact h.result i f hf
  · obtain ⟨f, hf, hfg⟩ := hback i g hg
    rw [hfg.params]
    exact h.params i f hf

namespace Pairing.ProgramLike

theorem mapFunc (h : d.ProgramLike p q) {g g' : Func → Func}
    (hp : p.Extends (p.mapFunc d.home g)) (hq : q.Extends (q.mapFunc d.home' g')) (hid : ∀ f, (g' f).id = f.id)
    (hg : ∀ f f', p.funcs[d.home]? = some f → q.funcs[d.home']? = some f' → d.HomeLike f f' →
      d.HomeLike (g f) (g' f')) : d.ProgramLike (p.mapFunc d.home g) (q.mapFunc d.home' g') := by
  obtain ⟨hp, hgrown⟩ := hp h.sound
  refine ⟨hp, (hq h.sound').1, fun hθ => (h.lawful hθ).of_grown hgrown (by simp [Program.mapFunc]) rfl,
    ⟨h.ahead.structs, h.ahead.known, h.ahead.globals, h.ahead.globalTable,
    h.ahead.funcTable, h.ahead.constants, fun i f hf => ?_⟩, ?_, fun j g1 hj hg1 => ?_⟩
  · obtain ⟨k, hk, hkid⟩ := h.ahead.funcs i f hf
    rw [Program.getElem?_mapFunc, hk]
    split
    · exact ⟨g' k, rfl, (hid k).trans hkid⟩
    · exact ⟨k, rfl, hkid⟩
  · obtain ⟨f, f', hf, hf', hlike⟩ := h.home
    exact ⟨g f, g' f', Program.getElem?_mapFunc_self hf, Program.getElem?_mapFunc_self hf',
      hg f f' hf hf' hlike⟩
  · rw [Program.getElem?_mapFunc, if_neg (Ne.symm hj)] at hg1
    exact h.others j g1 hj hg1

variable {r r' : BlockRef}

theorem blockAt (h : d.ProgramLike p q) (hr : θ.block r r') :
    p.blockAt r = none ∧ q.blockAt r' = none ∨ ∃ b b', p.blockAt r = some b ∧
      q.blockAt r' = some b' ∧ BlockLike θ d.count (d.lead r.index) b b' := by
  obtain ⟨hfunc, hfunc', hindex, hfirst, -⟩ := (d.block_iff r r').1 hr
  obtain ⟨f, f', hf, hf', hlike⟩ := h.home
  rw [Program.blockAt, Program.blockAt, hfunc, hfunc', hf, hf', hindex]
  simp only [Option.bind_some]
  by_cases hlt : r.index < f.blocks.size
  · have hlt' : r.index < f'.blocks.size := by rwa [hlike.size]
    refine .inr ⟨f.blocks[r.index], f'.blocks[r.index], Array.getElem?_eq_getElem hlt,
      Array.getElem?_eq_getElem hlt', ?_⟩
    exact hlike.blocks _ _ _ hfirst (Array.getElem?_eq_getElem hlt) (Array.getElem?_eq_getElem hlt')
  · refine .inl ⟨Array.getElem?_eq_none (by omega), Array.getElem?_eq_none ?_⟩
    rw [hlike.size]
    omega

theorem locked (h : d.ProgramLike p q) (hr : θ.block r r') : (q.block r').locked = (p.block r).locked := by
  rcases h.blockAt hr with ⟨hb, hb'⟩ | ⟨b, b', hb, hb', hlike⟩
  · rw [Program.block, Program.block, hb, hb']
  · rw [Program.block, Program.block, hb, hb']
    exact hlike.locked

theorem needsEnd (h : d.ProgramLike p q) (hr : θ.block r r') : (q.block r').needsEnd = (p.block r).needsEnd := by
  rcases h.blockAt hr with ⟨hb, hb'⟩ | ⟨b, b', hb, hb', hlike⟩
  · rw [Program.block, Program.block, hb, hb']
  · rw [Program.block, Program.block, hb, hb']
    exact hlike.needsEnd

/-- Blocks that had ended before need no end. -/
theorem needsEnd_of_ended (h : d.ProgramLike p q) (hr : θ.ended r r') :
    (p.block r).needsEnd = false ∧ (q.block r').needsEnd = false := by
  obtain ⟨hfunc, hfunc', hindex, hlt⟩ := (d.ended_iff r r').1 hr
  obtain ⟨f, f', hf, hf', hlike⟩ := h.home
  have hsize := hlike.size
  have hfirst := hlike.first_le
  have hb : f.blocks[r.index]? = some (f.blocks[r.index]) := Array.getElem?_eq_getElem (by omega)
  have hb' : f'.blocks[r.index]? = some (f'.blocks[r.index]) := Array.getElem?_eq_getElem (by omega)
  rw [Program.block, Program.block, Program.blockAt, Program.blockAt, hfunc, hfunc', hf, hf', hindex]
  simp only [Option.bind_some, hb, hb', Option.getD_some]
  obtain ⟨hdone, hdone'⟩ := hlike.done _ _ _ hlt hb hb'
  exact ⟨hdone.ended, hdone'.ended⟩

theorem blockId (h : d.ProgramLike p q) (hr : θ.block r r') :
    (q.block r').id = (p.block r).id ∧ (p.block r).id < d.count := by
  obtain ⟨hfunc, hfunc', hindex, -, hlt⟩ := (d.block_iff r r').1 hr
  obtain ⟨f, f', hf, hf', -⟩ := h.home
  rcases h.blockAt hr with ⟨hb, hb'⟩ | ⟨b, b', hb, hb', hlike⟩
  · rw [Program.block, Program.block, hb, hb']
    exact ⟨rfl, Nat.zero_lt_of_lt hlt⟩
  · rw [Program.block, Program.block, hb, hb']
    rw [Program.blockAt, hfunc, hf] at hb
    rw [Program.blockAt, hfunc', hf'] at hb'
    have hid := ((h.sound.funcs _ f hf).blocks _ b hb).1
    have hid' := ((h.sound'.funcs _ f' hf').blocks _ b' hb').1
    simp only [Option.getD_some]
    exact ⟨by rw [hid', hid, hindex], by rwa [hid]⟩

end Pairing.ProgramLike

namespace Pairing.Paired

theorem withProgram (h : d.Paired s t) (hp : d.ProgramLike p q)
    (hc : d.CursorLike p.cursors s.cursor q.cursors t.cursor) : d.Paired (s.withProgram p) (t.withProgram q) :=
  { h with program := hp, cursor := hc }

theorem here (h : d.Paired s t) : s.here.func = d.home ∧ t.here.func = d.home' ∧
    Option.Rel θ.block s.here.block t.here.block := by
  obtain ⟨c, c', hc, hc', hfunc, hfunc', hblock⟩ := h.cursor.here
  rw [State.here, State.here, hc, hc']
  exact ⟨hfunc, hfunc', hblock⟩

theorem hereBlock (h : d.Paired s t) {r : BlockRef} (hr : s.here.block = some r) :
    ∃ r', t.here.block = some r' ∧ θ.block r r' := by
  have hrel := h.here.2.2
  rw [hr] at hrel
  cases hb : t.here.block with
  | none =>
    rw [hb] at hrel
    cases hrel
  | some r' =>
    rw [hb] at hrel
    cases hrel with
    | some hr => exact ⟨r', rfl, hr⟩

end Pairing.Paired

/-- The next value of the function in hand is numbered before its end. -/
theorem Pairing.value_next {f f' : Func} (hlike : d.HomeLike f f') {p : Program} (hp : p.Grown d.final)
    (hg : ∃ g : Func, p.funcs[d.home]? = some g ∧ f.nextValue < g.nextValue) : θ.value f.nextValue f'.nextValue := by
  obtain ⟨g, hg, hlt⟩ := hg
  obtain ⟨last, hlast, hgrown⟩ := hp.funcs d.home g hg
  cases hlast.symm.trans d.last_eq
  have hle := hgrown.nextValue
  rw [hlike.next]
  exact d.value_fresh _ hlike.base_le (by omega)

theorem Pairing.Paired.mapFunc (h : d.Paired s t) {g g' : Func → Func}
    (hp : s.program.Extends (s.program.mapFunc d.home g))
    (hq : t.program.Extends (t.program.mapFunc d.home' g')) (hid : ∀ f, (g' f).id = f.id)
    (hg : ∀ f f', s.program.funcs[d.home]? = some f → t.program.funcs[d.home']? = some f' →
      d.HomeLike f f' → d.HomeLike (g f) (g' f')) : d.Paired (s.withProgram (s.program.mapFunc d.home g))
      (t.withProgram (t.program.mapFunc d.home' g')) :=
  h.withProgram (h.program.mapFunc hp hq hid hg) h.cursor

variable {r : BlockRef} {vs : List Operand}

theorem pushValue_eq_mapFunc (p : Program) {i : Nat} (k : Instr) (hr : r.func = i) :
    pushValue p i r k = p.mapFunc i fun f =>
      { f with blocks := f.blocks.modify r.index fun b => (b.push k).1
               nextValue := f.nextValue + 1 } := by
  subst hr
  exact Program.mapFunc_mapFunc ..

/-- Instructions that compute a value are added alike. -/
theorem Pairing.Paired.assign (hst : d.Paired s t) {mk mk' : Nat → Instr} {v : Operand}
    (hmk : ∀ n, (mk n).result? = some n) (h : ∀ n m : Nat, θ.value n m → InstrLike θ d.count (mk n) (mk' m))
    (hrun : Emit.assign mk s = .ok v s') (hfinal : s'.program.Grown d.final) :
    ∃ v' t', Emit.assign mk' t = .ok v' t' ∧ d.Paired s' t' ∧ OperandLike θ v v' := by
  have hterm : ∀ n, (mk n).isTerminator = false := fun n => Instr.isTerminator_of_result? (hmk n)
  obtain ⟨hfunc, hfunc', -⟩ := hst.here
  obtain ⟨r, f, hr, hf, hw, rfl, rfl⟩ := assign_eq_ok.1 hrun
  obtain ⟨r', hr', hrr⟩ := hst.hereBlock hr
  obtain ⟨f1, f', hf1, hf', hlike⟩ := hst.program.home
  rw [hfunc] at hf
  cases hf.symm.trans hf1
  obtain ⟨hrf, hrf', hindex, hfirst, -⟩ := (d.block_iff r r').1 hrr
  have hvalue : θ.value f.nextValue f'.nextValue := by
    rw [hfunc, pushValue_eq_mapFunc _ _ hrf] at hfinal
    exact d.value_next hlike hfinal ⟨_, Program.getElem?_mapFunc_self hf, Nat.lt_succ_self _⟩
  have hlikeInstr := h _ _ hvalue
  have hw' : ((mk' f'.nextValue).write (t.program.block r').locked).2 = none := by
    rw [hst.program.locked hrr]
    exact hlikeInstr.write_eq_none d.value_fits hw
  have hrun' : Emit.assign mk' t = .ok (.id f'.nextValue)
      (t.withProgram (pushValue t.program t.here.func r' (mk' f'.nextValue))) :=
    assign_eq_ok.2 ⟨r', f', hr', by rw [hfunc']; exact hf', hw', rfl, rfl⟩
  refine ⟨_, _, hrun', ?_, .id hvalue⟩
  have hext := extends_pushValue (i := d.home) (hterm f.nextValue) hw
  have hext' := extends_pushValue (i := d.home') (hlikeInstr.isTerminator.trans (hterm _)) hw'
  rw [hfunc, hfunc']
  rw [pushValue_eq_mapFunc _ _ hrf] at hext ⊢
  rw [pushValue_eq_mapFunc _ _ hrf'] at hext' ⊢
  refine hst.mapFunc hext hext' (fun _ => rfl) fun g g' hg hg' hgg => ?_
  cases hf.symm.trans hg
  cases hf'.symm.trans hg'
  have hat : ∀ b : Block, f.blocks[r.index]? = some b → s.program.blockAt r = some b := by
    intro b hb
    rw [Program.blockAt, hrf, hf]
    exact hb
  have hat' : ∀ b : Block, f'.blocks[r.index]? = some b → t.program.blockAt r' = some b := by
    intro b hb
    rw [Program.blockAt, hrf', hf', hindex]
    exact hb
  have hwrite : ∀ b : Block, f.blocks[r.index]? = some b →
      ((mk f.nextValue).write b.locked).2 = none := by
    intro b hb
    rwa [Program.block, hat b hb] at hw
  rw [hindex]
  refine hgg.update hfirst (Nat.le_succ _) ?_ (hgg.numbered.pushValue (hmk _) hwrite)
    fun b b' hb hb' => (hgg.blocks _ b b' hfirst hb hb').push hlikeInstr (hwrite b hb) ?_
  · have := hgg.next
    push_cast
    omega
  · rwa [Program.block, hat' b' hb'] at hw'

theorem Follows.assign {mk mk' : Nat → Instr} (hmk : ∀ n, (mk n).result? = some n)
    (h : ∀ (count n m : Nat), θ.value n m → InstrLike θ count (mk n) (mk' m)) :
    Follows θ (assign mk) (assign mk') (OperandLike θ) where
  grows := .assign fun n => Instr.isTerminator_of_result? (hmk n)
  run d _ _ _ _ hst hrun hfinal := hst.assign hmk (h d.count) hrun hfinal

theorem Pairing.Paired.ends (h : d.Paired s t) {i i' : Instr} {targets targets' : List BlockRef}
    {leaves : Bool} (he : Ends s s' i targets leaves) (hi : InstrLike θ d.count i i')
    (hterm : i.isTerminator = true) (ht : List.Forall₂ θ.block targets targets') (hend : targets ≠ [] ∨ leaves = true) :
    ∃ t', Ends t t' i' targets' leaves ∧ d.Paired s' t' := by
  have hext := he.extends hterm hend
  obtain ⟨r, hr, hw, rfl⟩ := he
  obtain ⟨r', hr', hrr⟩ := h.hereBlock hr
  have hw' : (i'.write (t.program.block r').locked).2 = none := by
    rw [h.program.locked hrr]
    exact hi.write_eq_none d.value_fits hw
  have hend' : targets' ≠ [] ∨ leaves = true :=
    hend.imp_left fun hne => by
      rintro rfl
      exact hne (List.forall₂_nil_right_iff.1 ht)
  have he' : Ends t _ i' targets' leaves := ⟨r', hr', hw', rfl⟩
  have hext' := he'.extends (hi.isTerminator.trans hterm) hend'
  refine ⟨_, he', ?_⟩
  obtain ⟨hrf, hrf', hindex, hfirst, -⟩ := (d.block_iff r r').1 hrr
  simp only [State.withProgram, Program.mapBlock, hrf, hrf', hindex] at hext hext' ⊢
  refine h.mapFunc hext hext' (fun _ => rfl) fun f f' hf hf' hlike => ?_
  have hwrite : ∀ b : Block, f.blocks[r.index]? = some b → (i.write b.locked).2 = none := by
    intro b hb
    have hat : s.program.blockAt r = some b := by rw [Program.blockAt, hrf, hf]; exact hb
    rwa [Program.block, hat] at hw
  refine hlike.update hfirst (Nat.le_refl _) hlike.next ?_ fun b b' hb hb' => ?_
  · exact hlike.numbered.modifyBlock fun b j n hb hn => Block.resultAt_endBy hterm (hwrite b hb) hn
  · have hat' : t.program.blockAt r' = some b' := by rw [Program.blockAt, hrf', hf', hindex]; exact hb'
    rw [Program.block, hat'] at hw'
    exact (hlike.blocks _ b b' hfirst hb hb').endBy hi (hwrite b hb) hw' ht leaves

instance (r' : BlockRef) [hr : RefLike θ r r'] : Alike θ (branch r) (branch r') Eq where
  follows := {
    grows := inferInstance
    run := fun d s t s' u hst hrun _ => by
      obtain ⟨-, he⟩ := branch_eq_ok.1 hrun
      obtain ⟨hid, hlt⟩ := hst.program.blockId hr.like
      obtain ⟨f, f', -, hf', -⟩ := hst.program.home
      obtain ⟨t', he', hst'⟩ := hst.ends he (.branch hlt) rfl (.cons hr.like .nil) (.inl (by simp))
      rw [← hid] at he'
      refine ⟨(), t', branch_eq_ok.2 ⟨⟨f', ?_⟩, he'⟩, hst', rfl⟩
      rw [((d.block_iff r r').1 hr.like).2.1, hf'] }

instance (c c' : Operand) (r' k k' : BlockRef) [hc : OperandLike θ c c'] [hr : RefLike θ r r']
    [hk : RefLike θ k k'] : Alike θ (condBranch c r k) (condBranch c' r' k') Eq where
  follows := {
    grows := inferInstance
    run := fun d s t s' u hst hrun _ => by
      have he := condBranch_eq_ok.1 hrun
      obtain ⟨hid, hlt⟩ := hst.program.blockId hr.like
      obtain ⟨hid', hlt'⟩ := hst.program.blockId hk.like
      obtain ⟨t', he', hst'⟩ := hst.ends he (.condBranch hc hlt hlt') rfl
        (.cons hr.like (.cons hk.like .nil)) (.inl (by simp))
      rw [← hid, ← hid'] at he'
      exact ⟨(), t', condBranch_eq_ok.2 he', hst', rfl⟩ }

theorem Follows.leave {i i' : Instr} (hi : ∀ count, InstrLike θ count i i')
    (hterm : i.isTerminator = true) : Follows θ (leave i) (leave i') Eq where
  grows := ⟨fun h => (leave_eq_ok.1 h).extends hterm (.inr rfl)⟩
  run d s t s' u hst hrun _ := by
    obtain ⟨t', he', hst'⟩ := hst.ends (leave_eq_ok.1 hrun) (hi _) hterm .nil (.inr rfl)
    exact ⟨(), t', leave_eq_ok.2 he', hst', rfl⟩

instance (v v' : Operand) [hv : OperandLike θ v v'] : Alike θ (ret v) (ret v') Eq :=
  ⟨.leave (fun _ => .ret hv) rfl⟩
instance : Alike θ retVoid retVoid Eq := ⟨.leave (fun _ => .retVoid) rfl⟩
instance : Alike θ retNull retNull Eq := ⟨.leave (fun _ => .retNull) rfl⟩

instance (label : Option String) : Alike θ (createBlock label) (createBlock label) (RefLike θ) where
  follows := {
    grows := inferInstance
    run := fun d s t s' r hst hrun hfinal => by
      obtain ⟨hfunc, hfunc', -⟩ := hst.here
      obtain ⟨f, f', hf, hf', hlike⟩ := hst.program.home
      obtain ⟨hr, rfl⟩ := createBlock_eq_ok.1 hrun
      refine ⟨_, _, createBlock_eq_ok.2 ⟨rfl, rfl⟩, ?_, ⟨?_⟩⟩
      · rw [hfunc, hfunc']
        refine hst.mapFunc ?_ ?_ (fun _ => rfl) fun f f' _ _ hlike => hlike.addBlock label label
        · exact Program.extends_mapFunc fun f _ => ⟨f.grown_addBlock label, fun hs => hs.addBlock label⟩
        · exact Program.extends_mapFunc fun f _ => ⟨f.grown_addBlock label, fun hs => hs.addBlock label⟩
      · rw [hfunc] at hfinal hr
        obtain ⟨last, hlast, hgrown⟩ := hfinal.funcs d.home _ (Program.getElem?_mapFunc_self hf)
        cases hlast.symm.trans d.last_eq
        have hsize := hgrown.size_le
        simp only [Func.addBlock, Array.size_push] at hsize
        rw [hr, hfunc', hf, hf']
        exact (d.block_iff _ _).2 ⟨rfl, rfl, hlike.size, hlike.first_le, Nat.le_trans hsize d.size_le⟩ }

theorem Pairing.Paired.moveTo (h : d.Paired s t) {r r' : Option BlockRef}
    (hr : Option.Rel θ.block r r') (hs : Emit.moveTo r s = .ok () s') :
    ∃ t', Emit.moveTo r' t = .ok () t' ∧ d.Paired s' t' := by
  have hext := Emit.Grows.extends_of_ok hs
  rw [moveTo_eq_ok.1 hs] at hext ⊢
  have ht : Emit.moveTo r' t = .ok () _ := moveTo_eq_ok.2 rfl
  have hext' := Emit.Grows.extends_of_ok ht
  refine ⟨_, ht, h.withProgram ⟨(hext h.program.sound).1, (hext' h.program.sound').1,
    fun hθ => (h.program.lawful hθ).of_grown (hext h.program.sound).2 rfl rfl, ?_, h.program.home,
    h.program.others⟩ ⟨?_⟩⟩
  · exact ⟨h.program.ahead.structs, h.program.ahead.known, h.program.ahead.globals,
      h.program.ahead.globalTable, h.program.ahead.funcTable, h.program.ahead.constants,
      h.program.ahead.funcs⟩
  · obtain ⟨c, c', hc, hc', hfunc, hfunc', -⟩ := h.cursor.here
    refine ⟨{ c with block := r }, { c' with block := r' }, ?_, ?_, hfunc, hfunc', hr⟩
    · simp [Array.getElem?_modify, hc]
    · simp [Array.getElem?_modify, hc']

instance (r r' : Option BlockRef) [hr : BackLike θ r r'] : Alike θ (moveTo r) (moveTo r') Eq where
  follows := {
    grows := inferInstance
    run := fun d s t s' u hst hrun _ => by
      obtain ⟨t', ht, hst'⟩ := hst.moveTo hr.like hrun
      exact ⟨(), t', ht, hst', rfl⟩ }

instance (r' : BlockRef) [hr : RefLike θ r r'] : Alike θ (setBlock r) (setBlock r') Eq :=
  have : BackLike θ (some r) (some r') := ⟨.some hr.like⟩
  ⟨by unfold setBlock; infer_instance⟩

/-- A request that keeps to the law of the tables. -/
class Keeps {α : Type} (θ : Likeness) (x : Build α) : Prop where
  lawful : θ.strict → ∀ {p q : Program} {a : α}, p.Sound →
    p.Lawful θ.arity θ.struct → x p = .ok a q → q.Lawful θ.arity θ.struct

/-- What the left side asks of its tables, the right side finds in its own. -/
theorem Follows.build {α : Type} (x : Build α) [Program.Request x] [Keeps θ x] {Q : α → α → Prop}
    (hQ : ∀ (d : Pairing θ) {p q : Program} {a : α}, p.Sound → x p = .ok a q → q.Grown d.final → Q a a) :
    Follows θ (build x) (build x) Q where
  grows := inferInstance
  run d s t s' a hst hrun hfinal := by
    obtain ⟨p, hx, rfl⟩ := build_eq_ok.1 hrun
    have hprog := hst.program
    have hkept := Program.Request.kept hprog.sound hx
    have hx' := Program.Request.granted hprog.sound hx (hfinal.ahead hprog.ahead)
    refine ⟨a, t, build_eq_ok.2 ⟨t.program, hx', rfl⟩, hst.withProgram ?_ ⟨?_⟩,
      hQ d hprog.sound hx hfinal⟩
    · refine ⟨(Program.Request.extends_of_ok hx hprog.sound).1, hprog.sound', fun hθ => ?_,
        hprog.ahead, ?_, ?_⟩
      · exact Keeps.lawful hθ hprog.sound (hprog.lawful hθ) hx
      · obtain ⟨f, f', hf, hf', hlike⟩ := hprog.home
        exact ⟨f, f', hkept.funcs _ f hf, hf', hlike⟩
      · intro j g hj hg
        rcases hkept.added j g hg with hold | hempty
        · exact hprog.others j g hj hold
        · exact .inl hempty
    · obtain ⟨c, c', hc, hrest⟩ := hst.cursor.here
      exact ⟨c, c', hkept.cursors _ c hc, hrest⟩

instance {α : Type} (x : Build α) [Program.Request x] [Keeps θ x] : Follows θ (build x) (build x) Eq :=
  .build x fun _ _ _ _ _ _ _ => rfl

section Requests

open Program

instance {α : Type} (x : Build α) [Settled x] : Keeps θ x where
  lawful _ _ _ _ _ hp h := by
    obtain ⟨rfl, -⟩ := Settled.ok_of_ok rfl rfl h
    exact hp

theorem Program.Lawful.withGlobal {arity : String → Nat → Prop} {struct : Int → Prop}
    (h : p.Lawful arity struct) {g : GlobalVar} (hg : g.type.Within struct) : (p.withGlobal g).Lawful arity struct := by
  refine ⟨h.arity, h.result, h.params, fun i g' hi => ?_, h.structs⟩
  simp only [Program.withGlobal, Array.getElem?_push] at hi
  split at hi
  next =>
    cases hi
    exact hg
  next => exact h.globals i g' hi

variable {name : String} {linkage : Int}

instance (type : MachineType) [ht : TypeFits θ type] :
    Keeps θ (global name type linkage) where
  lawful _ _ _ _ _ hp h := by
    rcases global_eq_ok.1 h with ⟨-, rfl⟩ | ⟨-, -, rfl⟩
    · exact hp
    · exact hp.withGlobal ht.within

theorem Program.Lawful.func {arity : String → Nat → Prop} {struct : Int → Prop}
    (hp : p.Lawful arity struct) {result : MachineType} {params : List MachineType}
    {i : Nat} (hinj : ∀ k, arity name k → params.length = k)
    (hr : result.Within struct) (hps : ∀ t ∈ params, t.Within struct)
    (h : func name result params linkage p = .ok i q) : q.Lawful arity struct := by
  rcases func_eq_ok.1 h with ⟨-, rfl⟩ | ⟨-, -, rfl⟩
  · exact hp
  · refine ⟨fun i f k hf hk => ?_, fun i f hf => ?_, fun i f hf => ?_, hp.globals, hp.structs⟩
    all_goals rcases funcs_withFunc hf with hf | ⟨-, rfl⟩
    · exact hp.arity i f k hf hk
    · exact List.size_toArray.trans (hinj k hk)
    · exact hp.result i f hf
    · exact hr
    · exact hp.params i f hf
    · simpa [declared] using hps

instance (result : MachineType) (params : List MachineType)
    (n : Nat) [hn : Length params n] [hname : Takes θ name n] [hr : TypeFits θ result]
    [hps : TypesFit θ params] : Keeps θ (func name result params linkage) where
  lawful hθ _ _ _ _ hp h :=
    hp.func (fun k hk => hn.length_eq.trans (θ.arity_inj hθ name n k hname.takes hk)) hr.within
      hps.within h

instance (result : MachineType) (params : List MachineType)
    (n : Nat) [Length params n] [hname : Takes θ name n] [TypeFits θ result] [TypesFit θ params] :
    Follows θ (build (func name result params linkage)) (build (func name result params linkage)) (CalleeLike θ n) := by
  refine .build _ fun d p q i hp h hq => ⟨rfl, ?_⟩
  obtain ⟨f, hf, rfl⟩ := func_named hp h
  obtain ⟨last, hlast, hgrown⟩ := hq.funcs i f hf
  exact d.callee_of i last n hlast (hgrown.name ▸ hname.takes)

instance (x : Build MachineType) [Settled x] [Yields x] : Follows θ (build x) (build x) (TypeLike θ) := by
  refine .build _ fun d p q t hp h hq => ⟨rfl, ⟨?_⟩⟩
  obtain ⟨rfl, -⟩ := Settled.ok_of_ok rfl rfl h
  exact Yields.within (hq.structs ▸ d.struct_of) h

instance (c : Constant) : Keeps θ (constantVar c) where
  lawful _ _ _ _ hs hp h := by
    have hc := constantVar_entered c hs h
    refine ⟨hc.funcs ▸ hp.arity, hc.funcs ▸ hp.result, hc.funcs ▸ hp.params, fun k g hg => ?_,
      hc.grown.structs ▸ hp.structs⟩
    rcases hc.typed k g hg with hg | hg
    · exact hp.globals k g hg
    · exact Yields.within hp.structs hg

instance (i : Nat) : Keeps θ (globalId i) where
  lawful _ _ _ _ _ hp h := by
    obtain ⟨-, rfl⟩ := globalId_eq_ok.1 h
    exact hp

end Requests

theorem follows_funcId (i : Nat) : Follows θ (funcId i) (funcId i) fun id id' => id' = id ∧ id = i ∧ θ.listed i where
  grows := .of_program_eq fun _ _ _ h => by rw [(funcId_eq_ok.1 h).2]
  run d s t s' n hst hrun hfinal := by
    obtain ⟨⟨f, hf, rfl⟩, rfl⟩ := funcId_eq_ok.1 hrun
    obtain ⟨g, hg, hid⟩ := (hfinal.ahead hst.program.ahead).funcs i f hf
    obtain ⟨last, hlast, -⟩ := hfinal.funcs i f hf
    refine ⟨f.id, t, funcId_eq_ok.2 ⟨⟨g, hg, hid⟩, rfl⟩, hst, rfl, ?_, d.listed_of i last hlast⟩
    exact (hst.program.sound.listed i f hf).1

section Instructions

variable (a a' b b' c c' : Operand) [ha : OperandLike θ a a'] [hb : OperandLike θ b b']
  [hc : OperandLike θ c c']

instance (op : Binary) : Alike θ (binary op a b) (binary op a' b') (OperandLike θ) :=
  ⟨.assign (fun _ => rfl) fun _ _ _ hr => .binary op ha hb hr⟩
instance : Alike θ (add a b) (add a' b') (OperandLike θ) := ⟨by unfold add; infer_instance⟩
instance : Alike θ (eq a b) (eq a' b') (OperandLike θ) := ⟨by unfold eq; infer_instance⟩
instance (op : Unary) : Alike θ (unary op a) (unary op a') (OperandLike θ) :=
  ⟨.assign (fun _ => rfl) fun _ _ _ hr => .unary op ha hr⟩
instance : Alike θ (store a b) (store a' b') (OperandLike θ) :=
  ⟨.assign (fun _ => rfl) fun _ _ _ hr => .store ha hb hr⟩
instance : Alike θ (load a) (load a') (OperandLike θ) :=
  ⟨.assign (fun _ => rfl) fun _ _ _ hr => .load ha hr⟩
instance : Alike θ (member a b c) (member a' b' c') (OperandLike θ) :=
  ⟨.assign (fun _ => rfl) fun _ _ _ hr => .member ha hb hc hr⟩
instance (sort : Cast) (type : MachineType) [ht : TypeFits θ type] :
    Alike θ (cast sort a type) (cast sort a' type) (OperandLike θ) :=
  ⟨.assign (fun _ => rfl) fun _ _ _ hr => .cast sort type ht ha hr⟩

end Instructions

instance (n : Operand) : Alike θ (assign (.int64 n)) (assign (.int64 n)) (OperandLike θ) :=
  ⟨.assign (fun _ => rfl) fun _ _ _ hr => .int64 n hr⟩
instance (sort : SmallInt) (n : Operand) :
    Alike θ (assign (.smallInt sort n)) (assign (.smallInt sort n)) (OperandLike θ) :=
  ⟨.assign (fun _ => rfl) fun _ _ _ hr => .smallInt sort n hr⟩
instance (x : Option Binary64) : Alike θ (assign (.float64 x)) (assign (.float64 x)) (OperandLike θ) :=
  ⟨.assign (fun _ => rfl) fun _ _ _ hr => .float64 x hr⟩
instance (n : Int) : Alike θ (int64 n) (int64 n) (OperandLike θ) := ⟨by unfold int64; infer_instance⟩
instance (n : Int) : Alike θ (int32 n) (int32 n) (OperandLike θ) := ⟨by unfold int32; infer_instance⟩
instance (type : MachineType) [ht : TypeFits θ type] : Alike θ (null type) (null type) (OperandLike θ) :=
  ⟨.assign (fun _ => rfl) fun _ _ _ hr => .null type ht hr⟩
instance (type : MachineType) [ht : TypeFits θ type] : Alike θ (alloca type) (alloca type) (OperandLike θ) :=
  ⟨.assign (fun _ => rfl) fun _ _ _ hr => .alloca type ht hr⟩

/-- Lists of operands that stand for one another. -/
class OperandsLike (θ : Likeness) (vs vs' : List Operand) : Prop where
  like : List.Forall₂ (OperandLike θ) vs vs'

instance : OperandsLike θ [] [] := ⟨.nil⟩

instance (v v' : Operand) (vs' : List Operand) [h : OperandLike θ v v'] [hs : OperandsLike θ vs vs'] :
    OperandsLike θ (v :: vs) (v' :: vs') :=
  ⟨.cons h hs.like⟩

instance (vs' ws ws' : List Operand) [h : OperandsLike θ vs vs'] [h' : OperandsLike θ ws ws'] :
    OperandsLike θ (vs ++ ws) (vs' ++ ws') :=
  ⟨List.rel_append h.like h'.like⟩

instance : OperandsLike .equal vs vs :=
  ⟨List.forall₂_same.2 fun _ _ => inferInstance⟩

section Instructions

variable (a a' : Operand) (vs vs' : List Operand) [ha : OperandLike θ a a'] [hs : OperandsLike θ vs vs']

instance (type : MachineType) [ht : TypeFits θ type] :
    Alike θ (element a type vs) (element a' type vs') (OperandLike θ) :=
  ⟨.assign (fun _ => rfl) fun _ _ _ hr => .element type ht ha hs.like hr⟩
instance : Alike θ (callPtr a vs) (callPtr a' vs') (OperandLike θ) :=
  ⟨.assign (fun _ => rfl) fun _ _ _ hr => .callPtr 1 ha hs.like hr⟩

instance (f f' n : Nat) [hn : Length vs n] [hf : CalleeLike θ n f f'] :
    Alike θ (call f vs) (call f' vs') (OperandLike θ) := ⟨by
  obtain ⟨rfl, hcallee⟩ := hf
  refine .bind (follows_funcId _) (fun id => .assign fun _ => rfl) ?_
  rintro _ _ ⟨rfl, rfl, -⟩
  exact .assign (fun _ => rfl) fun _ _ _ hr => .call (hn.length_eq.symm ▸ hcallee) hs.like hr⟩

end Instructions

instance (s : Option String) : Alike θ (assign (.globalText s)) (assign (.globalText s)) (OperandLike θ) :=
  ⟨.assign (fun _ => rfl) fun _ _ _ hr => .globalText s hr⟩

instance (i : Nat) : Alike θ (globalVar i) (globalVar i) (OperandLike θ) := ⟨by
  refine .bind (Q := fun id id' => id' = id ∧ θ.global id) (.build _ fun d p q id hp h hq => ?_)
    (fun id => .assign fun _ => rfl) ?_
  · obtain ⟨⟨g, hg, rfl⟩, rfl⟩ := Program.globalId_eq_ok.1 h
    exact ⟨rfl, d.global_of i g (Program.getElem?_mono hq.globals hg)⟩
  · rintro id _ ⟨rfl, hid⟩
    exact .assign (fun _ => rfl) fun _ _ _ hr => .globalVar hid hr⟩

instance (i : Nat) : Alike θ (funcPtr i) (funcPtr i) (OperandLike θ) := ⟨by
  refine .bind (follows_funcId i) (fun id => .assign fun _ => rfl) ?_
  rintro _ _ ⟨rfl, rfl, hi⟩
  exact .assign (fun _ => rfl) fun _ _ _ hr => .funcPtr hi hr⟩

instance (l : Label) : Alike θ (globalText l) (globalText l) (OperandLike θ) where
  follows :=
    have hassign : Follows θ (assign (.globalText l.text?)) (assign (.globalText l.text?))
        (OperandLike θ) := inferInstance
    { grows := ⟨fun h => hassign.grows.extends_of_ok (globalText_eq_ok.1 h).2⟩
      run := fun d s t s' v hst hrun hfinal => by
        obtain ⟨hnone, hrun⟩ := globalText_eq_ok.1 hrun
        obtain ⟨v', t', hrun', hst', hv⟩ := hassign.run d hst hrun hfinal
        refine ⟨v', t', globalText_eq_ok.2 ⟨fun hl => ?_, hrun'⟩, hst', hv⟩
        obtain ⟨r, hr, hlocked, hw⟩ := hnone hl
        obtain ⟨r', hr', hrr⟩ := hst.hereBlock hr
        exact ⟨r', hr', (hst.program.locked hrr).trans hlocked, hw⟩ }

instance : Alike θ objectPtr objectPtr (TypeLike θ) := ⟨by unfold objectPtr; infer_instance⟩
instance (name : String) (result : MachineType) (params : List MachineType) (n : Nat)
    [Length params n] [Takes θ name n] [TypeFits θ result] [TypesFit θ params] :
    Alike θ (external name result params) (external name result params) (CalleeLike θ n) :=
  ⟨by unfold external; infer_instance⟩

instance (name : String) (vs' : List Operand) [hs : OperandsLike θ vs vs'] (n : Nat) [Length vs n] [Takes θ name n] :
    Alike θ (callObjects name vs) (callObjects name vs') (OperandLike θ) := by
  have hmap : ∀ object : MachineType, vs'.map (fun _ => object) = vs.map fun _ => object := by
    simp [hs.like.length_eq]
  refine ⟨?_⟩
  unfold callObjects
  simp only [hmap]
  infer_instance

instance (t : Option ValueType) : Alike θ (known t) (known t) Eq := ⟨by
  cases t with
  | none => exact .throw
  | some t => exact .pure rfl⟩

instance (l : Label) : Alike θ (loadText l) (loadText l) (OperandLike θ) :=
  ⟨by unfold loadText; infer_instance⟩

end Lowering
