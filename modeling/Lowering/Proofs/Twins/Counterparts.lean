import Lowering.Proofs.Twins.Companions

/-!
What the two lowerings of a definition leave behind: functions with the same code up to the numbers of values,
but for the code that binds the arguments.
-/
namespace Lowering.Twins

open Emit Lower

variable {s s' q q' t t' : State} {i j f : Nat} {g g' : Func} {m : Mirror} {params : List Node}

theorem items_of_opened (ho : Opened i f g s t) (hs : s.Rested) {p : Program} (hgrown : s.program.Grown p)
    {last : Func} (hlast : p.funcs[f]? = some last) {k : Nat} (hk : k < g.blocks.size) {b : Block}
    (hb : last.blocks[k]? = some b) : ∃ c : Block, g.blocks[k]? = some c ∧ b.items = c.items := by
  have hc := Array.getElem?_eq_getElem hk
  refine ⟨_, hc, ?_⟩
  rcases ho.before with hg | hnew
  · obtain ⟨last', hlast', hle⟩ := hgrown.funcs f g hg
    cases hlast.symm.trans hlast'
    obtain ⟨b', hb', hblock⟩ := hle.blocks k _ hc
    cases hb.symm.trans hb'
    have hended := ((hs.complete f g hg).done k _ hc).ended
    rcases ((hs.sound.funcs f g hg).blocks k _ hc).2 with ⟨body, hopen⟩ | ⟨body, last, hends⟩
    · rw [hopen.needsEnd] at hended
      cases hended
    · exact (hblock.frozen hends.locked).1
  · simp [hnew.declared.blocks] at hk

def blockCount (p : Program) (f : Nat) : Nat := (p.funcs[f]?.map (·.blocks.size)).getD 0

theorem blockCount_of_opened (ho : Opened i f g s t) (hs : s.Rested) : blockCount s.program f = g.blocks.size := by
  rw [blockCount]
  rcases ho.before with hg | hnew
  · rw [hg]
    rfl
  · cases hf : s.program.funcs[f]? with
    | none =>
      rw [hnew.declared.blocks]
      rfl
    | some g0 =>
      obtain ⟨g1, hg1, hgrown⟩ := ho.grown.funcs f g0 hf
      cases ho.home.symm.trans hg1
      exact absurd hgrown.name.symm (unlisted_ne hs.sound hnew.unlisted hf)

theorem Matching.Blocks.of_items {lo lo' : Nat} {v : Matching lo lo'} {count n : Nat} {b b' c c' : Block}
    (h : v.Blocks count n c c') (hb : b.items = c.items) (hb' : b'.items = c'.items) : v.Blocks count n b b' := by
  obtain ⟨type, cs, cs', body, body', hcs, hcs', hitems, hitems', hlike⟩ := h
  exact ⟨type, cs, cs', body, body', hcs, hcs', hb ▸ hitems, hb' ▸ hitems', hlike⟩

namespace Mirror.Ends

/-- How many arguments the code of a block binds first. -/
def bound (m : Mirror) (params : List Node) (k : Nat) : Nat := if k = m.first + 1 then params.length else 0

theorem grown (h : m.Ends i j g g' params s s' q q' t') : s.program.Grown m.final ∧ q.program.Grown q'.program := by
  obtain ⟨f, hlowered⟩ := lowerImpl_lowered h.begins.rested' h.begins.code' h.completed
  exact ⟨h.begins.opened.grown.trans h.begins.grown, hlowered.grown⟩

theorem exists_last (h : m.Ends i j g g' params s s' q q' t') (hfinal : s'.program = m.final) :
    ∃ last' : Func, q'.program.funcs[m.home']? = some last' ∧ last'.blocks.size = m.last.blocks.size ∧
      last'.result = m.last.result ∧ last'.nextValue = m.next' ∧
      ∀ (k : Nat) (b b' : Block), m.last.blocks[k]? = some b → last'.blocks[k]? = some b' →
        ∃ n, (m.first ≤ k → n = bound m params k) ∧ m.numbers.Blocks m.last.blocks.size n b b' := by
  obtain ⟨type, cs', hlength, -, -, a, -, hshift, hlead, hlead', hst⟩ := h.abreast
  obtain ⟨last, last', hlast, hlast', hlike⟩ := hst.program.home
  rw [hfinal] at hlast
  cases hlast.symm.trans m.last_eq
  have hnext : (last'.nextValue : Int) = m.last.nextValue + a.shift := hlike.next
  have hnext' := m.next_eq
  refine ⟨last', hlast', hlike.size, hlike.result, by omega, fun k b b' hb hb' => ?_⟩
  rcases Nat.lt_or_ge k m.first with hk | hk
  · -- a block from before
    have hfirst := h.begins.first
    obtain ⟨c, hc, hitems⟩ := items_of_opened h.begins.opened h.begins.rested h.grown.1 m.last_eq (hfirst ▸ hk) hb
    obtain ⟨c', hc', hitems'⟩ := items_of_opened h.begins.opened' h.begins.rested' h.grown.2 hlast'
      (h.begins.twin.size ▸ hfirst ▸ hk) hb'
    obtain ⟨n, hblocks⟩ := h.old k c c' hc hc'
    have hsize := h.begins.size_last
    refine ⟨n, fun hle => absurd hk (Nat.not_lt.2 hle), (hblocks.widen (fun x y hxy => ?_) (by omega)).of_items hitems hitems'⟩
    have hrange := m.old.range x y hxy
    have hle := m.marked.le
    exact ⟨by omega, .inl hxy⟩
  · obtain ⟨body, body', hbody, hbody', hinstrs⟩ := (hlike.blocks k b b' hk hb hb').items
    have hlike' : List.Forall₂ (InstrLike m.numbers.likeness m.last.blocks.size) body body' :=
      hinstrs.imp fun _ _ => instrLike_widen (fun _ _ hv => hv) (Nat.le_refl _)
    refine ⟨bound m params k, fun _ => rfl, ?_⟩
    by_cases hcontent : k = m.first + 1
    · rw [bound, if_pos hcontent]
      refine ⟨type, m.marks, cs', body, body', h.length, hlength, ?_, ?_, hlike'⟩
      · rw [hbody, List.map_append, ← hlead]
        simp [Stage.pairing, hcontent]
      · rw [hbody', List.map_append, ← hlead']
        simp [Stage.pairing, hcontent]
    · rw [bound, if_neg hcontent]
      refine ⟨type, [], [], body, body', rfl, rfl, ?_, ?_, hlike'⟩
      · simp [hbody, Stage.pairing, hcontent, prologue]
      · simp [hbody', Stage.pairing, hcontent, prologue]

theorem exists_twin (h : m.Ends i j g g' params s s' q q' t') (hfinal : s'.program = m.final) :
    ∃ last' : Func, q'.program.funcs[m.home']? = some last' ∧ Twin m.last last' := by
  obtain ⟨last', hlast', hsize, hresult, hnext, hblocks⟩ := h.exists_last hfinal
  have hnext' := m.next_eq
  have hlo := m.lo_le
  refine ⟨last', hlast', hsize, hresult, by omega, ?_⟩
  rw [hnext]
  refine ⟨m.numbers, fun k b b' hb hb' => ?_⟩
  obtain ⟨n, -, hn⟩ := hblocks k b b' hb hb'
  exact ⟨n, hn⟩

end Mirror.Ends

theorem tupleName_inj {a b : String} (h : tupleName a = tupleName b) : a = b := by
  have hlist := congrArg String.toList h
  exact String.toList_inj.1 (by simpa [tupleName] using hlist)

theorem vectorName_inj {a b : String} (h : vectorName a = vectorName b) : a = b := by
  have hlist := congrArg String.toList h
  exact String.toList_inj.1 (by simpa [vectorName] using hlist)

/-- A function that neither of the two lowerings is for. -/
structure Aside (i j : Nat) (s q : State) (name : String) : Prop where
  marked : name.toList.head? = some '@'
  arity : ∃ n, Arity name n ∧ n ≠ 0
  other : ¬ Lower.Named s (s.impls[i]?.getD default) name
  other' : ¬ Lower.Named q (q.impls[j]?.getD default) name

namespace Companions

variable {name base base' : String}

theorem aside_tuple (h : Companions i j s s' q) (ho : Opened i f g s t) (hname : g.name = tupleName base)
    (hne : base' ≠ base) : Aside i j s q (tupleName base') := by
  refine ⟨Arity.head_of_definition .., ⟨3, .byTuple base', by decide⟩, fun hnamed => ?_, fun hnamed => ?_⟩
  · obtain ⟨d, a, hparent, ha, heq⟩ := eq_tupleName hnamed h.convention
    obtain ⟨d', b, hparent', hb, heq'⟩ := eq_tupleName ho.named h.convention
    cases hparent.symm.trans hparent'
    cases ha.symm.trans hb
    exact hne (tupleName_inj (heq.trans (heq'.symm.trans hname)))
  · obtain ⟨_, a, -, -, heq⟩ := eq_vectorName hnamed h.convention'
    exact Arity.endings_ne _ _ heq

theorem aside_vector (h : Companions i j s s' q) {f' : Nat} (ho : Opened j f' g' q t') (hname : g'.name = vectorName base)
    (hne : base' ≠ base) : Aside i j s q (vectorName base') := by
  refine ⟨Arity.head_of_definition .., ⟨4, .byVector base', by decide⟩, h.not_named base', fun hnamed => ?_⟩
  obtain ⟨d, a, hparent, ha, heq⟩ := eq_vectorName hnamed h.convention'
  obtain ⟨d', b, hparent', hb, heq'⟩ := eq_vectorName ho.named h.convention'
  cases hparent.symm.trans hparent'
  cases ha.symm.trans hb
  exact hne (vectorName_inj (heq.trans (heq'.symm.trans hname)))

theorem kept (h : Companions i j s s' q) (hcompleted : lowerImpl j q = .ok () q') (ha : Aside i j s q name)
    (hg : q'.program.funcs[f]? = some g) (hname : g.name = name) : ∃ g0 : Func, s.program.funcs[f]? = some g0 ∧ Kept g0 g := by
  obtain ⟨n, harity, hn⟩ := ha.arity
  obtain ⟨g1, hg1, hkept1⟩ := lowerImpl_kept h.rested' h.code' hcompleted ha.marked harity hn ha.other' hg hname
  rw [h.program] at hg1
  obtain ⟨g0, hg0, hkept0⟩ := lowerImpl_kept h.rested h.code h.lowered ha.marked harity hn ha.other hg1
    (hkept1.name.symm.trans hname)
  exact ⟨g0, hg0, hkept0.trans hkept1⟩

theorem grown (h : Companions i j s s' q) (hcompleted : lowerImpl j q = .ok () q') : s.program.Grown q'.program := by
  obtain ⟨_, hlowered⟩ := lowerImpl_lowered h.rested h.code h.lowered
  obtain ⟨_, hlowered'⟩ := lowerImpl_lowered h.rested' h.code' hcompleted
  exact hlowered.grown.trans (h.program ▸ hlowered'.grown)

theorem exists_kept (h : Companions i j s s' q) (hcompleted : lowerImpl j q = .ok () q') (ha : Aside i j s q name)
    (hg : s.program.funcs[f]? = some g) (hname : g.name = name) : ∃ g1 : Func, q'.program.funcs[f]? = some g1 ∧ Kept g g1 := by
  obtain ⟨g1, hg1, hgrown⟩ := (h.grown hcompleted).funcs f g hg
  obtain ⟨g0, hg0, hkept⟩ := h.kept hcompleted ha hg1 (hgrown.name.trans hname)
  cases hg.symm.trans hg0
  exact ⟨g1, hg1, hkept⟩

end Companions

theorem Mirror.Ends.exists_funcs (h : m.Ends i j g g' params s s' q q' t') (hc : Companions i j s s' q) :
    ∃ base last1, g.name = tupleName base ∧ g'.name = vectorName base ∧ q'.program.funcs[m.home]? = some last1 ∧
      Kept m.last last1 := by
  obtain ⟨base, hname, hname'⟩ := hc.names h.begins.opened h.begins.opened'
  have hfinal : q.program = m.final := h.begins.final.symm
  have hlast : q.program.funcs[m.home]? = some m.last := hfinal ▸ m.last_eq
  obtain ⟨last, hlast', hgrown⟩ := h.begins.grown.funcs _ _ h.begins.opened.home
  cases hlast'.symm.trans m.last_eq
  obtain ⟨last1, hlast1, hgrown1⟩ := h.grown.2.funcs _ _ hlast
  have hname1 : last1.name = tupleName base := hgrown1.name.trans (hgrown.name.trans hname)
  have hother : ¬ Lower.Named q (q.impls[j]?.getD default) (tupleName base) := by
    intro hnamed
    obtain ⟨_, a, -, -, heq⟩ := eq_vectorName hnamed hc.convention'
    exact Arity.endings_ne _ _ heq
  obtain ⟨last2, hlast2, hkept⟩ := lowerImpl_kept hc.rested' hc.code' h.completed (Arity.head_of_definition ..)
    (.byTuple base) (by decide) hother hlast1 hname1
  cases hlast.symm.trans hlast2
  exact ⟨base, last1, hname, hname', hlast1, hkept⟩

theorem Mirror.Ends.even (h : m.Ends i j g g' params s s' q q' t') (hc : Companions i j s s' q) : Even q'.program := by
  obtain ⟨base, last1, hname, hname', hlast1, hkept1⟩ := h.exists_funcs hc
  obtain ⟨last', hlast', htwin⟩ := h.exists_twin (hc.program.symm.trans h.begins.final.symm)
  obtain ⟨_, hlowered⟩ := lowerImpl_lowered hc.rested' hc.code' h.completed
  have hsound := hlowered.rested.sound
  have hlastName : last'.name = vectorName base := by
    obtain ⟨x, hx, hgrown⟩ := h.grown'.funcs _ _ h.begins.opened'.home
    cases hx.symm.trans hlast'
    exact hgrown.name.trans hname'
  have hfirstName : last1.name = tupleName base := by
    obtain ⟨x, hx, hgrown⟩ := h.begins.grown.funcs _ _ h.begins.opened.home
    cases hx.symm.trans m.last_eq
    exact hkept1.name.trans (hgrown.name.trans hname)
  refine ⟨fun base' f x hx hxname => ?_, fun base' f x hx hxname => ?_⟩ <;> by_cases hbase : base' = base
  · subst hbase
    obtain ⟨rfl, rfl⟩ := eq_of_name hsound hlast1 hx (hxname.trans hfirstName.symm)
    exact ⟨_, last', hlast', hlastName, .of_kept hkept1 ⟨.refl _, rfl, rfl⟩ htwin⟩
  · obtain ⟨x0, hx0, hkept⟩ := hc.kept h.completed (hc.aside_tuple h.begins.opened hname hbase) hx hxname
    obtain ⟨k, y0, hy0, hyname, htwin0⟩ := hc.even.twin base' f x0 hx0 (hkept.name.symm.trans hxname)
    obtain ⟨y, hy, hkept'⟩ := hc.exists_kept h.completed (hc.aside_vector h.begins.opened' hname' hbase) hy0 hyname
    exact ⟨k, y, hy, hkept'.name.trans hyname, htwin0.of_kept hkept hkept'⟩
  · subst hbase
    exact ⟨m.home, last1, hlast1, hfirstName⟩
  · obtain ⟨x0, hx0, hkept⟩ := hc.kept h.completed (hc.aside_vector h.begins.opened' hname' hbase) hx hxname
    obtain ⟨k, y0, hy0, hyname⟩ := hc.even.back base' f x0 hx0 (hkept.name.symm.trans hxname)
    obtain ⟨y, hy, hkept'⟩ := hc.exists_kept h.completed (hc.aside_tuple h.begins.opened hname hbase) hy0 hyname
    exact ⟨k, y, hy, hkept'.name.trans hyname⟩

/-- Blocks with the same instructions up to a renaming of the values, after code that binds so many arguments:
from a tuple in the one block, from a vector in the other. -/
def BlockRenamed (ρ : Nat → Nat) (n : Nat) (b b' : Block) : Prop :=
  ∃ (type : MachineType) (cs cs' : List Nat) (body : List Instr), cs.length = n ∧ cs'.length = n ∧
    b.items.toList = (prologue tupleCode type 0 cs ++ body).map .instr ∧
    b'.items.toList = (prologue vectorCode type 0 cs' ++ body.map (·.renamed ρ)).map .instr

/-- Functions with the same blocks up to a renaming of the values. Of the blocks from one on, the second binds
so many arguments first, and no other does. -/
structure Counterparts (first n : Nat) (g g' : Func) : Prop where
  size : g'.blocks.size = g.blocks.size
  renamed : ∃ ρ : Nat → Nat, Function.Injective ρ ∧ ρ 0 = 0 ∧ ρ 1 = 1 ∧ ρ 2 = 3 ∧
    ∀ (k : Nat) (b b' : Block), g.blocks[k]? = some b → g'.blocks[k]? = some b' →
      ∃ a, (first ≤ k → a = if k = first + 1 then n else 0) ∧ BlockRenamed ρ a b b'

theorem eq_map_instrs {θ : Likeness} {ρ : Nat → Nat} (hρ : θ.Renames ρ) {count : Nat} {is is' : List Instr}
    (h : List.Forall₂ (InstrLike θ count) is is') : is' = is.map (·.renamed ρ) := by
  induction h with
  | nil => rfl
  | cons hi _ ih => rw [List.map_cons, hi.eq_renamed hρ, ih]

theorem Matching.Blocks.renamed {lo lo' : Nat} {v : Matching lo lo'} {ρ : Nat → Nat} (hρ : v.likeness.Renames ρ)
    {count n : Nat} {b b' : Block} (h : v.Blocks count n b b') : BlockRenamed ρ n b b' := by
  obtain ⟨type, cs, cs', body, body', hcs, hcs', hb, hb', hlike⟩ := h
  exact ⟨type, cs, cs', body, hcs, hcs', hb, by rw [hb', eq_map_instrs hρ hlike]⟩

/-- The names of the variables of an implementation. -/
def variablesOf (s : State) (i : Nat) : List String :=
  (s.scopes[(s.impls[i]?.getD default).scope]?.getD #[]).toList.map fun v => (s.vars[v]?.getD default).name

theorem names_eq_of_varsLike {θ : Likeness} {d : Pairing θ} {vars vars' : Array Variable}
    {scopes scopes' : Array (Array Nat)} (h : d.VarsLike vars scopes vars' scopes') {xs ys : List Nat}
    (hxy : List.Forall₂ θ.var xs ys) :
    ys.map (fun v => (vars'[v]?.getD default).name) = xs.map fun v => (vars[v]?.getD default).name := by
  induction hxy with
  | nil => rfl
  | @cons x y xs ys hxy _ ih =>
    rw [List.map_cons, List.map_cons, ih]
    congr 1
    obtain ⟨k, rfl, rfl⟩ := (d.var_iff x y).1 hxy
    have hsize := h.size
    rcases Nat.lt_or_ge (d.vars + k) vars.size with hlt | hge
    · have hv := Array.getElem?_eq_getElem hlt
      have hv' : vars'[d.vars' + k]? = some vars'[d.vars' + k] := Array.getElem?_eq_getElem (by omega)
      rw [hv, hv']
      exact (h.like k _ _ hv hv').name
    · rw [Array.getElem?_eq_none hge, Array.getElem?_eq_none (by omega)]

namespace Mirror.Ends

theorem exists_counterparts (h : m.Ends i j g g' params s s' q q' t') (hc : Companions i j s s' q) :
    ∃ last last', q'.program.funcs[m.home]? = some last ∧ q'.program.funcs[m.home']? = some last' ∧
      Counterparts m.first params.length last last' := by
  obtain ⟨base, last, -, -, hlast, hkept⟩ := h.exists_funcs hc
  obtain ⟨last', hlast', hsize, -, hnext, hblocks⟩ := h.exists_last (hc.program.symm.trans h.begins.final.symm)
  obtain ⟨ρ, hinj, hzero, hone, hkeywords, hρ⟩ := m.numbers.exists_renaming
  refine ⟨last, last', hlast, hlast', by rw [hkept.blocks_eq, hsize], ρ, hinj, hzero, hone, hkeywords, ?_⟩
  intro k b b' hb hb'
  rw [hkept.blocks_eq] at hb
  obtain ⟨n, hn, hlike⟩ := hblocks k b b' hb hb'
  exact ⟨n, hn, hlike.renamed hρ⟩

theorem codes (h : m.Ends i j g g' params s s' q q' t') :
    (s'.impls[i]?.getD default).code = some m.home ∧ (q'.impls[j]?.getD default).code = some m.home' := by
  obtain ⟨-, -, -, -, -, a, -, -, -, -, hst⟩ := h.abreast
  have hcode := (opened_impl h.begins.opened h.begins.rested h.begins.code).1
  have himpls : s'.impls = m.start.impls := hst.impls
  have hlike := (hst.impl m.impl m.impl' ⟨rfl, rfl⟩).code
  rw [h.begins.impl, h.begins.impl', himpls, hcode] at hlike
  rw [himpls]
  refine ⟨hcode, ?_⟩
  generalize (q'.impls[j]?.getD default).code = code at hlike ⊢
  cases hlike with
  | some hfunc => rw [hfunc.2]

theorem variablesOf_eq (h : m.Ends i j g g' params s s' q q' t') : variablesOf q' j = variablesOf s' i := by
  obtain ⟨-, -, -, -, -, a, -, -, -, -, hst⟩ := h.abreast
  have himpl := hst.impl m.impl m.impl' ⟨rfl, rfl⟩
  rw [h.begins.impl, h.begins.impl'] at himpl
  have hscope := hst.vars.scope _ _ himpl.scope
  rw [variablesOf, variablesOf]
  generalize s'.scopes[(s'.impls[i]?.getD default).scope]? = xs at hscope ⊢
  generalize q'.scopes[(q'.impls[j]?.getD default).scope]? = ys at hscope ⊢
  cases hscope with
  | none => rfl
  | some hvars => exact names_eq_of_varsLike hst.vars hvars

theorem reports (h : m.Ends i j g g' params s s' q q' t') : ∃ more : List Report,
    s'.reports.toList = s.reports.toList ++ more ∧ q'.reports.toList = q.reports.toList ++ more := by
  obtain ⟨-, -, -, -, -, a, -, -, -, -, hst⟩ := h.abreast
  obtain ⟨more, hs', hq'⟩ := hst.reports
  refine ⟨more, ?_, ?_⟩
  · rw [hs', ← h.begins.opened.reports]
    rfl
  · rw [hq', ← h.begins.opened'.reports, ← h.begins.reports']
    rfl

end Mirror.Ends

end Lowering.Twins
