import Lowering.Proofs.Twins.Arguments

/-!
The lowering of a function that is called with a tuple, known to its end, beside that of its twin, which is
called with a vector. While the arguments are bound the two count differently, so there is a pairing for
every stage of the way; a stage says how far the shift between the numbers has fallen and what the blocks
with the code of the functions begin with.
-/
namespace Lowering

theorem Program.Grown.toAhead {p q : Program} (h : p.Grown q) : p.Ahead q where
  structs := h.structs
  known := h.known
  globals := h.globals
  globalTable := h.globalTable
  funcTable := h.funcTable
  constants := h.constants
  funcs i f hf := by
    obtain ⟨g, hg, hfg⟩ := h.funcs i f hf
    exact ⟨g, hg, hfg.id⟩

namespace Twins

open Emit

/-- A completed lowering on the left, and the function of the one that is to follow it. -/
structure Mirror where
  /-- The left state at the start. -/
  start : State
  /-- The left program at the end. -/
  final : Program
  home : Nat
  home' : Nat
  /-- The left function at the end. -/
  last : Func
  last_eq : final.funcs[home]? = some last
  /-- The blocks before this one had ended before. -/
  first : Nat
  /-- What the functions had counted to at the start. -/
  lo : Nat
  lo' : Nat
  lo_le : lo' ≤ lo + 1
  /-- What stood for what before. -/
  old : Matching lo lo'
  /-- Where the arguments are bound. -/
  marks : List Nat
  marked : Marked lo last.nextValue marks
  /-- Without arguments the right function counts ahead. -/
  room : marks = [] → last.nextValue < 2 ^ 31
  /-- What the right function counts to. -/
  next' : Nat
  next_eq : (next' : Int) = last.nextValue + (lo' - lo) - 3 * marks.length
  vars' : Nat
  reports' : Array Report
  impl : Nat
  impl' : Nat
  cursor : Nat
  cursor' : Nat

namespace Mirror

variable (m : Mirror)

/-- The numbers that stand for one another at the end. -/
def numbers : Matching m.last.nextValue m.next' := m.old.extend _ _ m.marked m.next_eq

def likeness : Likeness :=
  { Likeness.equal with
    value := m.numbers.rel
    block := fun b b' => b.func = m.home ∧ b'.func = m.home' ∧ b'.index = b.index ∧ m.first ≤ b.index ∧
      b.index < m.last.blocks.size
    ended := fun b b' => b.func = m.home ∧ b'.func = m.home' ∧ b'.index = b.index ∧ b.index < m.first
    func := fun i i' => i = m.home ∧ i' = m.home'
    cursor := fun c c' => c = m.cursor ∧ c' = m.cursor'
    impl := fun i i' => i = m.impl ∧ i' = m.impl'
    scope := fun i i' => i = m.impl ∧ i' = m.impl'
    var := fun i i' => ∃ k, i = m.start.vars.size + k ∧ i' = m.vars' + k
    zero := m.numbers.zero
    one := m.numbers.one }

instance : OfTree m.likeness := ⟨trivial⟩

instance : OperandLike m.likeness 2 3 := .id m.numbers.keywords

theorem value_fits (n k : Int) (h : m.likeness.value n k) (hn : fitsSigned 4 n = true) : fitsSigned 4 k = true := by
  have hrange : byteRange 4 = 2 ^ 32 := rfl
  simp only [fitsSigned, hrange, Bool.and_eq_true, decide_eq_true_eq] at hn ⊢
  have hk := m.numbers.range n k h
  have hle := m.marked.le
  have hlo := m.lo_le
  have hroom := m.room
  obtain ⟨hlast, hold | hnew⟩ := h
  · have hrange := m.old.range n k hold
    cases hmarks : m.marks with
    | nil =>
      have := hroom hmarks
      omega
    | cons c cs =>
      have hmarked := m.marked
      rw [hmarks] at hmarked
      obtain ⟨hc, hlt, -⟩ := hmarked
      omega
  · have := hnew.fits m.marked (by omega) (by omega) fun hmarks => by
      have := hroom hmarks
      omega
    omega

/-- How far the two lowerings have come: the left program that is looked ahead to, the shift between the
numbers from a number on, and what the blocks with the code begin with. -/
structure Stage where
  final : Program
  grown : final.Grown m.final
  last : Func
  last_eq : final.funcs[m.home]? = some last
  base : Nat
  shift : Int
  fresh : ∀ n : Nat, base ≤ n → n < last.nextValue → m.likeness.value n (n + shift)
  lead : List Instr
  lead' : List Instr

variable {m}

def Stage.pairing (a : m.Stage) : Pairing m.likeness where
  final := a.final
  home := m.home
  home' := m.home'
  last := a.last
  last_eq := a.last_eq
  count := m.last.blocks.size
  size_le := by
    obtain ⟨g, hg, hgrown⟩ := a.grown.funcs _ _ a.last_eq
    cases hg.symm.trans m.last_eq
    exact hgrown.size_le
  first := m.first
  lead k := if k = m.first + 1 then (a.lead.map .instr, a.lead'.map .instr) else ([], [])
  fresh := m.first + 2
  lead_fresh k hk := if_neg (by omega)
  base := a.base
  shift := a.shift
  vars := m.start.vars.size
  vars' := m.vars'
  start := m.start
  reports' := m.reports'
  scope := m.impl
  scope' := m.impl'
  value_fits := m.value_fits
  value_fresh := a.fresh
  block_iff _ _ := Iff.rfl
  ended_iff _ _ := Iff.rfl
  func_eq _ _ h := h
  scope_eq _ _ h := h
  var_iff _ _ := Iff.rfl
  struct_zero := trivial
  struct_of _ _ _ := trivial
  listed_of _ _ _ := trivial
  callee_of _ _ _ _ _ := trivial
  global_of _ _ _ := trivial

variable {s t s' : State}

theorem Stage.paired {a b : m.Stage} (h : a.pairing.Paired s t) {p q : Program} (hp : p.Sound) (hq : q.Sound)
    (hahead : b.final.Ahead q)
    (hhome : ∃ f f' : Func, p.funcs[m.home]? = some f ∧ q.funcs[m.home']? = some f' ∧ b.pairing.HomeLike f f')
    (hothers : ∀ j : Nat, j ≠ m.home → p.funcs[j]? = s.program.funcs[j]?) (hcursors : p.cursors = s.program.cursors)
    (hcursors' : q.cursors = t.program.cursors) : b.pairing.Paired (s.withProgram p) (t.withProgram q) where
  program := ⟨hp, hq, nofun, hahead, hhome, fun j g hj hg => h.program.others j g hj (hothers j hj ▸ hg)⟩
  cursor := by
    rw [State.withProgram, State.withProgram, hcursors, hcursors']
    exact ⟨h.cursor.here⟩
  own := h.own
  lowerer := h.lowerer
  ofTree := h.ofTree
  unstacked := h.unstacked
  tree := h.tree
  vars := ⟨h.vars.le, h.vars.size, h.vars.like, h.vars.scope, h.vars.others, h.vars.count⟩
  impl := h.impl
  impls := h.impls
  bare := h.bare
  definitions := h.definitions
  sources := h.sources
  files := h.files
  reports := h.reports

theorem Stage.homeLike_append {a b : m.Stage} {f f' : Func} (h : a.pairing.HomeLike f f') {code code' : List Instr}
    (hblock : ∃ c : Block, f.blocks[m.first + 1]? = some c ∧ c.items.toList = a.lead.map .instr ∧ c.locked = false)
    (hblock' : ∃ c : Block, f'.blocks[m.first + 1]? = some c ∧ c.items.toList = a.lead'.map .instr ∧ c.locked = false)
    (hcode : ∀ (j : Nat) (i : Instr), code[j]? = some i → i.Whole ∧ i.result? = some (f.nextValue + j))
    (hbase : b.base = f.nextValue + code.length) (hshift : b.shift = a.shift + code'.length - code.length)
    (hlead : b.lead = a.lead ++ code) (hlead' : b.lead' = a.lead' ++ code') :
    b.pairing.HomeLike (f.append (m.first + 1) code) (f'.append (m.first + 1) code') := by
  obtain ⟨c, hc, hitems, hlocked⟩ := hblock
  obtain ⟨c', hc', hitems', -⟩ := hblock'
  refine ⟨?_, ?_, ?_, ?_, Nat.le_of_eq hbase, ?_, h.result, h.cursor, fun k d d' hk hd hd' => ?_,
    fun k d d' hk hd hd' => ?_⟩
  · refine h.numbered.append (fun c1 hc1 => ?_) hcode
    cases hc.symm.trans hc1
    exact hlocked
  · rw [Func.size_append, Func.size_append]
    exact h.size
  · rw [Func.size_append]
    exact h.first_le
  · rw [Func.size_append]
    exact h.fresh_le
  · have hnext : (f'.nextValue : Int) = f.nextValue + a.shift := h.next
    simp only [Func.append, Stage.pairing, hshift]
    push_cast
    omega
  · rw [Func.getElem?_append] at hd hd'
    split at hd
    next hk' =>
      subst hk'
      rw [if_pos rfl, hc'] at hd'
      rw [hc] at hd
      cases hd
      cases hd'
      have hblocks := h.blocks _ _ _ hk hc hc'
      refine ⟨hblocks.locked, hblocks.returns, hblocks.branches, [], [], ?_, ?_, .nil⟩
      · simp [hitems, Stage.pairing, hlead]
      · simp [hitems', Stage.pairing, hlead']
    next hk' =>
      rw [if_neg hk'] at hd'
      have hsame : b.pairing.lead k = a.pairing.lead k := by
        simp only [Stage.pairing, if_neg (Ne.symm hk')]
      rw [hsame]
      exact h.blocks k d d' hk hd hd'
  · have hk' : m.first + 1 ≠ k := fun h => absurd hk (Nat.not_lt.2 (h ▸ Nat.le_succ _))
    rw [Func.getElem?_append, if_neg hk'] at hd hd'
    exact h.done k d d' hk hd hd'

variable (m) in
/-- The two lowerings are abreast: they are paired at a stage, the left one is on its way to its end, and
the right one has begun from there. -/
structure Abreast (base : Nat) (shift : Int) (lead lead' : List Instr) (s t : State) : Prop where
  grown : s.program.Grown m.final
  grown' : m.final.Grown t.program
  paired : ∃ a : m.Stage, a.base = base ∧ a.shift = shift ∧ a.lead = lead ∧ a.lead' = lead' ∧ a.pairing.Paired s t

namespace Abreast

variable {base : Nat} {shift : Int} {lead lead' : List Instr} {α α' : Type} {x : Emit α} {y : Emit α'}
  {Q : α → α' → Prop} {a : α}

theorem sound (h : m.Abreast base shift lead lead' s t) : s.program.Sound ∧ t.program.Sound := by
  obtain ⟨-, -, e, -, -, -, -, hst⟩ := h
  exact ⟨hst.program.sound, hst.program.sound'⟩

theorem follow (h : m.Abreast base shift lead lead' s t) (hxy : Follows m.likeness x y Q) (hy : y.Grows)
    (hx : x s = .ok a s') (hgrown : s'.program.Grown m.final)
    (hfresh : ∀ g : Func, s'.program.funcs[m.home]? = some g → ∀ n : Nat, base ≤ n → n < g.nextValue →
      m.likeness.value n (n + shift)) : ∃ b t', y t = .ok b t' ∧ m.Abreast base shift lead lead' s' t' ∧ Q a b := by
  obtain ⟨-, hgrown', e, rfl, rfl, rfl, rfl, hst⟩ := h
  obtain ⟨f, f', hf, hf', hlike⟩ := hst.program.home
  obtain ⟨g, hg, -⟩ := (hxy.grows.extends_of_ok hx hst.program.sound).2.funcs _ _ hf
  let e' : m.Stage := { e with
    final := s'.program
    grown := hgrown
    last := g
    last_eq := hg
    fresh := hfresh g hg }
  have hst' : e'.pairing.Paired s t := by
    refine Stage.paired hst hst.program.sound hst.program.sound' ?_ ⟨f, f', hf, hf', ?_⟩ (fun _ _ => rfl) rfl rfl
    · exact hgrown.ahead hgrown'.toAhead
    · exact ⟨hlike.numbered, hlike.size, hlike.first_le, hlike.fresh_le, hlike.base_le, hlike.next, hlike.result,
        hlike.cursor, hlike.blocks, hlike.done⟩
  obtain ⟨b, t', hyt, hst'', hq⟩ := hxy.run e'.pairing hst' hx (.refl _)
  exact ⟨b, t', hyt, ⟨hgrown, hgrown'.trans (hy.extends_of_ok hyt hst.program.sound').2, e', rfl, rfl, rfl, rfl, hst''⟩, hq⟩

/-- Where the left block holds nothing but what it begins with, so does the right one. -/
theorem stands (h : m.Abreast base shift lead lead' s t) {c : Nat} (hs : Stands s m.home (m.first + 1) c lead) :
    ∃ c' : Nat, (c' : Int) = c + shift ∧ Stands t m.home' (m.first + 1) c' lead' := by
  obtain ⟨-, -, e, rfl, rfl, rfl, rfl, hst⟩ := h
  obtain ⟨f, f', hf, hf', hlike⟩ := hst.program.home
  obtain ⟨g, hg, rfl, b, hb, hitems, hlocked⟩ := hs.func
  cases hf.symm.trans hg
  obtain ⟨r', hr', hblock⟩ := hst.hereBlock (by rw [hs.here])
  obtain ⟨-, hfunc', hindex, -⟩ := hblock
  have hlt := (Array.getElem?_eq_some_iff.1 hb).1
  have hb' := Array.getElem?_eq_getElem (hlike.size ▸ hlt)
  have hblocks := hlike.blocks _ _ _ (Nat.le_succ _) hb hb'
  refine ⟨f'.nextValue, hlike.next, ?_, f', hf', rfl, _, hb', ?_, hblocks.locked.trans hlocked⟩
  · have hfunc : t.here.func = m.home' := hst.here.2.1
    generalize t.here = here at hr' hfunc ⊢
    obtain ⟨func, block⟩ := here
    obtain ⟨i, k⟩ := r'
    cases hr'
    cases hfunc
    cases hfunc'
    cases hindex
    rfl
  · obtain ⟨body, body', hbody, hbody', hinstrs⟩ := hblocks.items
    simp only [Stage.pairing, if_true] at hbody hbody'
    obtain rfl : body = [] := by simpa [hitems] using hbody
    cases hinstrs
    rw [hbody', List.map_nil, List.append_nil]

theorem append (h : m.Abreast base shift lead lead' s t) {c c' : Nat} {code code' : List Instr}
    (hs : Stands s m.home (m.first + 1) c lead) (ht : Stands t m.home' (m.first + 1) c' lead')
    (hcode : ∀ (j : Nat) (i : Instr), code[j]? = some i → i.Whole ∧ i.result? = some (c + j))
    (hext : s.program.Extends (appended s m.home (m.first + 1) code).program)
    (hgrown : (appended s m.home (m.first + 1) code).program.Grown m.final)
    (hext' : t.program.Extends (appended t m.home' (m.first + 1) code').program) :
    m.Abreast (c + code.length) (shift + code'.length - code.length) (lead ++ code) (lead' ++ code')
      (appended s m.home (m.first + 1) code) (appended t m.home' (m.first + 1) code') := by
  obtain ⟨-, hgrown', e, rfl, rfl, rfl, rfl, hst⟩ := h
  obtain ⟨f, hf, rfl, hblock⟩ := hs.func
  obtain ⟨f', hf', rfl, hblock'⟩ := ht.func
  obtain ⟨g, g', hg, hg', hlike⟩ := hst.program.home
  cases hf.symm.trans hg
  cases hf'.symm.trans hg'
  have hgrown1 := hgrown'.trans (hext' hst.program.sound').2
  -- no number is left to look ahead to
  let e' : m.Stage := {
    final := (appended s m.home (m.first + 1) code).program
    grown := hgrown
    last := f.append (m.first + 1) code
    last_eq := Program.getElem?_mapFunc_self hf
    base := f.nextValue + code.length
    shift := e.shift + code'.length - code.length
    fresh := fun n hn hlt => absurd hlt (Nat.not_lt.2 hn)
    lead := e.lead ++ code
    lead' := e.lead' ++ code' }
  refine ⟨hgrown, hgrown1, e', rfl, rfl, rfl, rfl, ?_⟩
  refine Stage.paired hst (hext hst.program.sound).1 (hext' hst.program.sound').1 (hgrown.ahead hgrown1.toAhead)
    ⟨f.append (m.first + 1) code, f'.append (m.first + 1) code', Program.getElem?_mapFunc_self hf,
      Program.getElem?_mapFunc_self hf', ?_⟩ (fun j hj => ?_) rfl rfl
  · exact Stage.homeLike_append hlike hblock hblock' hcode rfl rfl rfl rfl
  · exact (Program.getElem?_mapFunc ..).trans (if_neg (Ne.symm hj))

end Abreast

end Mirror

end Twins
end Lowering
