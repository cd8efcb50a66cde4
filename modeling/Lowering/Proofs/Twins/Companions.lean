import Lowering.Proofs.Twins.Begins

/-!
The two implementations of a definition, one lowered after the other. When the first lowering has been
completed the second can be run beside it to its end, and the two functions are twins again.
-/
namespace Lowering.Twins

open Emit Lower

variable {s s' q t t' : State} {i j f f' : Nat} {g g' : Func} {base : String}

/-- An implementation that is called with a tuple has been lowered, and one of the same definition that is
called with a vector is to be lowered next. -/
structure Companions (i j : Nat) (s s' q : State) : Prop where
  rested : s.Rested
  rested' : q.Rested
  code : (s.impls[i]?.getD default).code = none
  code' : (q.impls[j]?.getD default).code = none
  convention : (s.impls[i]?.getD default).convention = .tuple
  convention' : (q.impls[j]?.getD default).convention = .vector
  parent : (q.impls[j]?.getD default).parent = (s.impls[i]?.getD default).parent
  program : q.program = s'.program
  definitions : q.definitions = s.definitions
  files : q.files = s.files ∧ q.fileTable = s.fileTable
  even : Even s.program
  lowered : lowerImpl i s = .ok () s'

theorem eq_tupleName {m : Impl} {name : String} (h : Lower.Named s m name) (hm : m.convention = .tuple) :
    ∃ d base, m.parent = some d ∧ definedName (s.definitions[d]?.getD default) = some base ∧ name = tupleName base := by
  obtain ⟨ending, n, d, base, hsigned, hparent, hbase, rfl⟩ := h
  rw [hm] at hsigned
  cases hsigned
  exact ⟨d, base, hparent, hbase, rfl⟩

theorem eq_vectorName {m : Impl} {name : String} (h : Lower.Named s m name) (hm : m.convention = .vector) :
    ∃ d base, m.parent = some d ∧ definedName (s.definitions[d]?.getD default) = some base ∧
      name = vectorName base := by
  obtain ⟨ending, n, d, base, hsigned, hparent, hbase, rfl⟩ := h
  rw [hm] at hsigned
  cases hsigned
  exact ⟨d, base, hparent, hbase, rfl⟩

theorem eq_of_name {p : Program} (hp : p.Sound) (hg : p.funcs[f]? = some g) (hg' : p.funcs[f']? = some g')
    (hname : g'.name = g.name) : f' = f ∧ g' = g := by
  have hfound := hp.found f' g' hg'
  rw [hname, hp.found f g hg] at hfound
  obtain rfl := Option.some.inj hfound
  exact ⟨rfl, Option.some.inj (hg'.symm.trans hg)⟩

theorem unlisted_ne {p : Program} (hp : p.Sound) {name : String} (h : Program.lookup p.funcTable name = none)
    (hg : p.funcs[f]? = some g) : g.name ≠ name := by
  rintro rfl
  rw [hp.found f g hg] at h
  cases h

namespace Companions

theorem names (h : Companions i j s s' q) (ho : Opened i f g s t) (ho' : Opened j f' g' q t') :
    ∃ base, g.name = tupleName base ∧ g'.name = vectorName base := by
  obtain ⟨d, base, hparent, hbase, hname⟩ := eq_tupleName ho.named h.convention
  obtain ⟨d', base', hparent', hbase', hname'⟩ := eq_vectorName ho'.named h.convention'
  rw [h.parent, hparent] at hparent'
  cases hparent'
  rw [h.definitions, hbase] at hbase'
  cases hbase'
  exact ⟨base, hname, hname'⟩

theorem not_named (h : Companions i j s s' q) (base : String) :
    ¬ Lower.Named s (s.impls[i]?.getD default) (vectorName base) := by
  intro hnamed
  obtain ⟨_, base', -, -, hname⟩ := eq_tupleName hnamed h.convention
  exact Arity.endings_ne base' base hname.symm

/-- What the two functions were when they were opened. -/
theorem twin (h : Companions i j s s' q) (ho : Opened i f g s t) (ho' : Opened j f' g' q t') : Twin g g' := by
  obtain ⟨base, hname, hname'⟩ := h.names ho ho'
  have hhead : (vectorName base).toList.head? = some '@' := Arity.head_of_definition ..
  have hgrown : s.program.Grown q.program := by
    obtain ⟨f0, hlowered⟩ := lowerImpl_lowered h.rested h.code h.lowered
    exact h.program ▸ hlowered.grown
  rcases ho.before with hg | hnew
  · -- both were there before
    obtain ⟨k, g1, hg1, hname1, htwin⟩ := h.even.twin base f g hg hname
    obtain ⟨g2, hg2, hgrown2⟩ := hgrown.funcs k g1 hg1
    have hq : q.program.funcs[f']? = some g' := by
      refine ho'.before.resolve_right fun hnew' => ?_
      refine unlisted_ne h.rested'.sound hnew'.unlisted hg2 ?_
      rw [hgrown2.name, hname1, hname']
    obtain ⟨g3, hg3, hkept⟩ := lowerImpl_kept h.rested h.code h.lowered hhead (.byVector base) (by decide)
      (h.not_named base) (h.program ▸ hq) hname'
    obtain ⟨-, rfl⟩ := eq_of_name h.rested.sound hg1 hg3 (hkept.name.symm.trans (hname'.trans hname1.symm))
    exact .of_kept ⟨.refl g, rfl, rfl⟩ hkept htwin
  · -- neither was
    have hnone : ∀ (k : Nat) (g1 : Func), s.program.funcs[k]? = some g1 → g1.name ≠ vectorName base := by
      intro k g1 hg1 hname1
      obtain ⟨k', g2, hg2, hname2⟩ := h.even.back base k g1 hg1 hname1
      exact unlisted_ne h.rested.sound hnew.unlisted hg2 (hname2.trans hname.symm)
    have hnew' : New q.program g' := by
      refine ho'.before.resolve_left fun hg' => ?_
      exact lowerImpl_unlisted h.rested h.code h.lowered hhead (.byVector base) (by decide) (h.not_named base) hnone
        f' g' (h.program ▸ hg') hname'
    obtain ⟨ending, hsigned⟩ := ho.params h.rested
    obtain ⟨ending', hsigned'⟩ := ho'.params h.rested'
    rw [h.convention] at hsigned
    rw [h.convention'] at hsigned'
    have hresult := (Program.Settled.ok_of_ok hgrown.known hgrown.structs hnew.result).2
    have hsame : g'.result = g.result := by
      injection hnew'.result.symm.trans hresult
    refine .of_declared hnew.declared hnew'.declared ?_ ?_ hsame
    · generalize g.params.size = n at hsigned
      cases hsigned
      rfl
    · generalize g'.params.size = n at hsigned'
      cases hsigned'
      rfl

theorem exists_opened (h : Companions i j s s' q) (ho : Opened i f g s t) :
    ∃ f' g' t', Opened j f' g' q t' ∧ t'.lowerer = .tree ∧
      t'.tree = { impl := j, scope := (q.impls[j]?.getD default).scope, cursor := g'.cursor,
                  entry := ⟨f', g'.blocks.size⟩, content := ⟨f', g'.blocks.size + 1⟩ } ∧
      start j q = bindParameters j t' := by
  obtain ⟨d, base, hparent, hbase, -⟩ := eq_tupleName ho.named h.convention
  obtain ⟨f0, hlowered⟩ := lowerImpl_lowered h.rested h.code h.lowered
  obtain ⟨type, hobject⟩ := ho.object
  have hgrown : s.program.Grown q.program := h.program ▸ hlowered.grown
  have hnamed : Lower.Named q (q.impls[j]?.getD default) (vectorName base) :=
    ⟨_, _, d, base, h.convention' ▸ Signed.vector, h.parent.trans hparent, h.definitions ▸ hbase, rfl⟩
  have hopen := openFunction_of_named (i := j)
    (s := { q with lowerer := .tree, tree := { impl := j, scope := (q.impls[j]?.getD default).scope } })
    (Program.Settled.ok_of_ok hgrown.known hgrown.structs hobject).2 hnamed
  obtain ⟨⟨entry, content⟩, t0, hopen⟩ := hopen
  exact start_opened h.rested'.sound hopen

/-- Both functions have been opened, with what is known of the first lowering: how its function has ended up
and where the arguments have been bound. -/
theorem exists_begins (h : Companions i j s s' q) (ho : Opened i f g s t) (hlowerer : t.lowerer = .tree)
    (htree : t.tree = { impl := i, scope := (s.impls[i]?.getD default).scope, cursor := g.cursor,
                        entry := ⟨f, g.blocks.size⟩, content := ⟨f, g.blocks.size + 1⟩ })
    (hgrown : t.program.Grown s'.program) {last : Func} (hlast : s'.program.funcs[f]? = some last) {cs : List Nat}
    (hmarked : Marked g.nextValue last.nextValue cs) (hroom : cs = [] → last.nextValue < 2 ^ 31) :
    ∃ (m : Mirror) (g' : Func) (t' : State), m.Begins i j g g' s q t' ∧ m.start = t ∧ m.home = f ∧ m.last = last ∧
      m.marks = cs ∧ start j q = bindParameters j t' ∧ ∀ (k : Nat) (b b' : Block), g.blocks[k]? = some b →
        g'.blocks[k]? = some b' → ∃ n, m.old.Blocks g.blocks.size n b b' := by
  obtain ⟨f', g', t', ho', hlowerer', htree', hstart⟩ := h.exists_opened ho
  have htwin := h.twin ho ho'
  obtain ⟨old, hold⟩ := htwin.alike
  have hle := hmarked.le
  let m : Mirror := {
    start := t
    final := s'.program
    home := f
    home' := f'
    last
    last_eq := hlast
    first := g.blocks.size
    lo := g.nextValue
    lo' := g'.nextValue
    lo_le := htwin.next_le
    old
    marks := cs
    marked := hmarked
    room := hroom
    next' := last.nextValue + g'.nextValue - g.nextValue - 3 * cs.length
    next_eq := by omega
    vars' := t'.vars.size
    reports' := t'.reports
    impl := i
    impl' := j
    cursor := g.cursor
    cursor' := g'.cursor }
  have hbegins : m.Begins i j g g' s q t' := ⟨ho, ho', h.rested, h.rested', htwin, h.code, h.code', h.parent,
    h.program.symm, hgrown, h.definitions, h.files, rfl, rfl, rfl, rfl, rfl, rfl, rfl, rfl, rfl, hlowerer, hlowerer',
    htree, htree'⟩
  exact ⟨m, g', t', hbegins, rfl, rfl, rfl, rfl, hstart, hold⟩

end Companions

/-- The plain parameters of a definition in the source. -/
def parametersOf (n : Node) : Option (List Node) :=
  match n.form with
  | .functionDef _ args .. =>
    match args.form with
    | .arguments _ args .. => args.items?
    | _ => none
  | _ => none

theorem parameters_eq_ok {d : Nat} {params : List Node} :
    parameters d s = .ok params s' ↔ parametersOf (s.definitions[d]?.getD default).node = some params ∧ s' = s := by
  unfold parameters parametersOf
  rw [get_bind_run]
  generalize (s.definitions[d]?.getD default).node.form = form
  cases form with
  | functionDef name args =>
    dsimp only
    generalize args.form = form
    cases form with
    | arguments posOnly args =>
      dsimp only
      cases hitems : args.items? with
      | none => simp [each, hitems, throw_ne_ok]
      | some items =>
        simp only [each, hitems, pure_eq_ok, Option.some.injEq]
        exact and_congr_left' eq_comm
    | _ => simp [throw_ne_ok]
  | _ => simp [throw_ne_ok]

/-- The operand for the keyword arguments. -/
def keywordsOf : Convention → Operand
  | .tuple => 2
  | _ => 3

theorem bindParameters_eq_ok {d : Nat} {c : Convention} (hparent : (s.impls[i]?.getD default).parent = some d)
    (hc : (s.impls[i]?.getD default).convention = c) :
    bindParameters i s = .ok () s' ↔ ∃ params s1, parametersOf (s.definitions[d]?.getD default).node = some params ∧
      bindArguments c params s = .ok () s1 ∧ matchKeywords (keywordsOf c) params s1 = .ok () s' := by
  have himpl : implOf i s = .ok (s.impls[i]?.getD default) s := rfl
  rw [bindParameters, bind_run_of_ok himpl, hparent, hc]
  simp only [expect, pure_bind]
  constructor
  · intro h
    obtain ⟨params, s0, hparams, hrest⟩ := bind_eq_ok.1 h
    obtain ⟨hparams, rfl⟩ := parameters_eq_ok.1 hparams
    obtain ⟨_, s1, hbind, hmatch⟩ := bind_eq_ok.1 hrest
    exact ⟨params, s1, hparams, hbind, hmatch⟩
  · rintro ⟨params, s1, hparams, hbind, hmatch⟩
    exact bind_eq_ok.2 ⟨params, s, parameters_eq_ok.2 ⟨hparams, rfl⟩, bind_eq_ok.2 ⟨(), s1, hbind, hmatch⟩⟩

theorem Opened.binds (ho : Opened i f g s t) (hlowerer : t.lowerer = .tree)
    (hentry : t.tree.entry = ⟨f, g.blocks.size⟩) : Binds t f g.blocks.size (g.blocks.size + 1) g.nextValue [] := by
  obtain ⟨c, hc, rfl, hblock⟩ := ho.stands
  have hlt : g.blocks.size + 1 < (entered g).blocks.size := by
    rw [size_entered]
    exact Nat.lt_succ_self _
  have hb := Array.getElem?_eq_getElem hlt
  obtain ⟨hitems, -, hlocked, -⟩ := fresh_of_entered (Nat.le_succ _) hb
  refine ⟨⟨?_, entered g, ho.home, rfl, _, hb, by simp [hitems], hlocked⟩, hlowerer, hentry⟩
  rw [State.here, ho.cursor, hc, Option.getD_some, ← hblock]

namespace Mirror.Abreast

variable {m : Mirror} {base : Nat} {shift : Int} {lead lead' : List Instr}

theorem tree (h : m.Abreast base shift lead lead' s t) : TreeLike m.likeness s.tree t.tree := by
  obtain ⟨-, -, a, -, -, -, -, hst⟩ := h
  exact hst.tree trivial

theorem definitions (h : m.Abreast base shift lead lead' s t) : t.definitions = s.definitions := by
  obtain ⟨-, -, a, -, -, -, -, hst⟩ := h
  exact hst.definitions.2

theorem parent (h : m.Abreast base shift lead lead' s t) :
    (t.impls[m.impl']?.getD default).parent = (s.impls[m.impl]?.getD default).parent := by
  obtain ⟨-, -, a, -, -, -, -, hst⟩ := h
  exact (hst.impl _ _ ⟨rfl, rfl⟩).parent

/-- When the arguments have been bound the shift stays, so what follows the left lowering goes on to its
end. -/
theorem follow_bound {α α' : Type} {x : Emit α} {y : Emit α'} {Q : α → α' → Prop} {a : α}
    (h : m.Abreast (ending m.lo m.marks) (m.lo' - m.lo - 3 * m.marks.length) lead lead' s t)
    (hxy : Follows m.likeness x y Q) (hy : y.Grows) (hx : x s = .ok a s') (hgrown : s'.program.Grown m.final) :
    ∃ b t', y t = .ok b t' ∧
      m.Abreast (ending m.lo m.marks) (m.lo' - m.lo - 3 * m.marks.length) lead lead' s' t' ∧ Q a b := by
  refine h.follow hxy hy hx hgrown fun g hg n hn hlt => ⟨?_, .inr (.of_ending (by exact_mod_cast hn))⟩
  obtain ⟨last, hlast, hle⟩ := hgrown.funcs _ _ hg
  cases hlast.symm.trans m.last_eq
  have := hle.nextValue
  omega

end Mirror.Abreast

/-- The second lowering has been run beside the first to its end. -/
structure Mirror.Ends (m : Mirror) (i j : Nat) (g g' : Func) (params : List Node) (s s' q q' t' : State) : Prop where
  begins : m.Begins i j g g' s q t'
  source : ∃ d, (s.impls[i]?.getD default).parent = some d ∧
    parametersOf (s.definitions[d]?.getD default).node = some params
  length : m.marks.length = params.length
  old : ∀ (k : Nat) (b b' : Block), g.blocks[k]? = some b → g'.blocks[k]? = some b' →
    ∃ n, m.old.Blocks g.blocks.size n b b'
  completed : lowerImpl j q = .ok () q'
  grown' : t'.program.Grown q'.program
  abreast : ∃ (type : MachineType) (cs' : List Nat), cs'.length = params.length ∧
    m.Abreast (ending m.lo m.marks) (m.lo' - m.lo - 3 * m.marks.length) (prologue tupleCode type 0 m.marks)
      (prologue vectorCode type 0 cs') s' q'

theorem Mirror.Abreast.follow_code {m : Mirror} {lead lead' : List Instr} {s1 s2 s3 s4 t1 : State} {d : Nat}
    (h : m.Abreast (ending m.lo m.marks) (m.lo' - m.lo - 3 * m.marks.length) lead lead' s1 t1)
    (hparent : (s1.impls[m.impl]?.getD default).parent = some d) (hstart : Lower.start m.impl' q = .ok () t1)
    (hvisit : visit (s1.definitions[d]?.getD default).node s1 = .ok () s2)
    (hset : setBlock s2.tree.entry s2 = .ok () s3) (hbranch : branch s2.tree.content s3 = .ok () s4)
    (hclose : closeBlocks s4 = .ok () s') (hgrown : s'.program.Grown m.final) :
    ∃ q', lowerImpl m.impl' q = .ok () q' ∧ t1.program.Grown q'.program ∧
      m.Abreast (ending m.lo m.marks) (m.lo' - m.lo - 3 * m.marks.length) lead lead' s' q' := by
  obtain ⟨hsound2, hgrown2⟩ := Grows.extends_of_ok hvisit h.sound.1
  obtain ⟨hsound3, hgrown3⟩ := Grows.extends_of_ok hset hsound2
  obtain ⟨hsound4, hgrown4⟩ := Grows.extends_of_ok hbranch hsound3
  have hafter4 := (Grows.extends_of_ok hclose hsound4).2.trans hgrown
  have hafter3 := hgrown4.trans hafter4
  obtain ⟨_, t2, hvisit', h2, -⟩ := h.follow_bound
    (inferInstance : Follows m.likeness (visit (s1.definitions[d]?.getD default).node)
      (visit (s1.definitions[d]?.getD default).node) _) inferInstance hvisit (hgrown3.trans hafter3)
  have : RefLike m.likeness s2.tree.entry t2.tree.entry := ⟨h2.tree.entry⟩
  have : RefLike m.likeness s2.tree.content t2.tree.content := ⟨h2.tree.content⟩
  obtain ⟨_, t3, hset', h3, -⟩ := h2.follow_bound
    (inferInstance : Follows m.likeness (setBlock s2.tree.entry) (setBlock t2.tree.entry) _) inferInstance hset hafter3
  obtain ⟨_, t4, hbranch', h4, -⟩ := h3.follow_bound
    (inferInstance : Follows m.likeness (branch s2.tree.content) (branch t2.tree.content) _) inferInstance hbranch
    hafter4
  obtain ⟨_, q', hclose', h', -⟩ := h4.follow_bound
    (inferInstance : Follows m.likeness closeBlocks closeBlocks _) inferInstance hclose hgrown
  have hext := (((Grows.extends_of_ok hvisit').trans (Grows.extends_of_ok hset')).trans
    (Grows.extends_of_ok hbranch')).trans (Grows.extends_of_ok hclose')
  refine ⟨q', lowerImpl_eq_ok.2 ⟨t1, t2, t3, t4, d, hstart, h.parent.trans hparent, ?_, hset', hbranch', hclose'⟩,
    (hext h.sound.2).2, h'⟩
  rw [h.definitions]
  exact hvisit'

theorem Companions.code_eq (h : Companions i j s s' q) (ho : Opened i f g s t) {last : Func}
    (hlast : s'.program.funcs[f]? = some last) (hname : last.name = g.name) :
    (s'.impls[i]?.getD default).code = some f := by
  obtain ⟨f0, hlowered⟩ := lowerImpl_lowered h.rested h.code h.lowered
  obtain ⟨g0, hg0, hnamed⟩ := hlowered.named
  obtain ⟨d, base, hparent, hbase, hname0⟩ := eq_tupleName hnamed h.convention
  obtain ⟨d', base', hparent', hbase', hname'⟩ := eq_tupleName ho.named h.convention
  cases hparent.symm.trans hparent'
  cases hbase.symm.trans hbase'
  obtain ⟨rfl, -⟩ := eq_of_name hlowered.rested.sound hlast hg0 (hname0.trans (hname'.symm.trans hname.symm))
  obtain ⟨mi, hmi⟩ := ho.exists_impl
  simp [hlowered.impls, Array.getElem?_modify, hmi]

theorem Companions.exists_ends (h : Companions i j s s' q)
    (hroom : ∀ (f : Nat) (last : Func) (d : Nat), (s'.impls[i]?.getD default).code = some f →
      s'.program.funcs[f]? = some last → (s.impls[i]?.getD default).parent = some d →
      parametersOf (s.definitions[d]?.getD default).node = some [] → last.nextValue < 2 ^ 31) :
    ∃ (m : Mirror) (g g' : Func) (params : List Node) (q' t' : State), m.Ends i j g g' params s s' q q' t' := by
  obtain ⟨s1, s2, s3, s4, d1, hstart, hparent1, hvisit, hset, hbranch, hclose⟩ := lowerImpl_eq_ok.1 h.lowered
  obtain ⟨f, g, t, ho, hlowerer, htree, hbind⟩ := start_eq_ok h.rested.sound hstart
  obtain ⟨d, -, hparent, -, -⟩ := eq_tupleName ho.named h.convention
  obtain ⟨params, s0, hparams, hargs, hmatch⟩ :=
    (bindParameters_eq_ok (ho.parent.trans hparent) (ho.convention.trans h.convention)).1 hbind
  rw [ho.definitions] at hparams
  -- how the program grows after the arguments have been bound
  have hsound0 := (Grows.extends_of_ok hargs ho.sound).1
  obtain ⟨hsound1, hgrown1⟩ := Grows.extends_of_ok hmatch hsound0
  obtain ⟨hsound2, hgrown2⟩ := Grows.extends_of_ok hvisit hsound1
  obtain ⟨hsound3, hgrown3⟩ := Grows.extends_of_ok hset hsound2
  obtain ⟨hsound4, hgrown4⟩ := Grows.extends_of_ok hbranch hsound3
  have hgrown' := (Grows.extends_of_ok hclose hsound4).2
  have hafter1 := hgrown2.trans (hgrown3.trans (hgrown4.trans hgrown'))
  have hafter0 := hgrown1.trans hafter1
  -- where the arguments are bound
  obtain ⟨type, hobject0⟩ := ho.object
  have hobject := (Program.Settled.ok_of_ok ho.grown.known ho.grown.structs hobject0).2
  have hbinds := Opened.binds ho hlowerer (by rw [htree])
  rw [bindArguments_tuple] at hargs
  obtain ⟨cs, hall⟩ := hbinds.exists_boundAll (Nat.ne_of_lt (Nat.lt_succ_self _)) hobject ho.sound hargs
  obtain ⟨hmarked, hbound⟩ := hall.binds hbinds
  obtain ⟨g0, hg0, hnext0, -⟩ := hbound.func
  have hname0 : g0.name = g.name := by
    obtain ⟨g1, hg1, hgrown1⟩ := (hall.grows ho.sound).2.funcs f _ ho.home
    cases hg1.symm.trans hg0
    exact hgrown1.name
  obtain ⟨last, hlast, hlastGrown⟩ := hafter0.funcs f g0 hg0
  have hgrown : t.program.Grown s'.program := (hall.grows ho.sound).2.trans hafter0
  have hcode := h.code_eq ho hlast (hlastGrown.name.trans hname0)
  obtain ⟨m, g', t', hbegins, rfl, rfl, rfl, rfl, hstart', hold⟩ := h.exists_begins ho hlowerer htree hgrown hlast
    (hmarked.mono (hnext0 ▸ hlastGrown.nextValue)) fun hnil => by
      refine hroom f last d hcode hlast hparent ?_
      have hlength := hall.length
      rw [hnil] at hlength
      rw [hparams, List.length_eq_zero_iff.1 hlength.symm]
  have hfinal : m.final = s'.program := hbegins.final.trans h.program
  rw [← hfinal] at hafter0 hafter1
  have hobjectFinal := (Program.Settled.ok_of_ok hbegins.grown.known hbegins.grown.structs hobject).2
  have hlength := hall.length
  rw [← hbegins.lo, ← hbegins.first] at hall
  have hshift := m.lo_le
  obtain ⟨cs', t0, hlength', hargs', hst0⟩ := hall.follow hbegins.abreast hafter0 m.marked
    (fun x y hxy hx => ⟨hx, .inr hxy⟩) (by omega) hobjectFinal
  obtain ⟨_, t1, hmatch', hst1, -⟩ := hst0.follow_bound
    (inferInstance : Follows m.likeness (matchKeywords 2 params) (matchKeywords 3 params) _) inferInstance hmatch hafter1
  have hbind' : bindParameters j t' = .ok () t1 := by
    have ho' := hbegins.opened'
    refine (bindParameters_eq_ok (ho'.parent.trans (h.parent.trans hparent)) (ho'.convention.trans h.convention')).2
      ⟨params, t0, ?_, bindArguments_vector params ▸ hargs', hmatch'⟩
    rwa [ho'.definitions, h.definitions]
  rw [← hbegins.impl] at hparent1
  rw [hbind', ← hbegins.impl'] at hstart'
  have hgrown'' := (Grows.extends_of_ok hbind' hbegins.opened'.sound).2
  obtain ⟨q', hcompleted, hrest, hst'⟩ := hst1.follow_code hparent1 hstart' hvisit hset hbranch hclose (hfinal ▸ .refl _)
  rw [hbegins.impl'] at hcompleted
  exact ⟨m, g, g', params, q', t', hbegins, ⟨d, hparent, hparams⟩, hlength, hold, hcompleted,
    hgrown''.trans hrest, type, cs', hlength'.trans hlength, hst'⟩

end Lowering.Twins
