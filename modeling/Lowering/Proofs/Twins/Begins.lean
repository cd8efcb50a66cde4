import Lowering.Proofs.Twins.Binding
import Lowering.Proofs.Twins.Twin

/-!
How the lowerings of twins begin. When both functions have been opened the lowerings are abreast: the blocks
are new on both sides, and neither has a variable yet.
-/
namespace Lowering.Twins

open Emit Lower

variable {s q t t' : State} {i j : Nat} {g g' : Func} {m : Mirror}

theorem opened_impl {f : Nat} (ho : Opened i f g s t) (hs : s.Rested) (hcode : (s.impls[i]?.getD default).code = none) :
    (t.impls[i]?.getD default).code = some f ∧ (t.impls[i]?.getD default).scope = i ∧ t.scopes[i]? = some #[] := by
  obtain ⟨mi, hmi⟩ := ho.exists_impl
  rw [hmi] at hcode
  rw [ho.impls, ho.scopes]
  simp only [Array.getElem?_modify, if_true, hmi, Option.map_some, Option.getD_some]
  exact ⟨trivial, hs.scope i mi hmi, hs.fresh i mi hmi hcode⟩

theorem fresh_of_entered {k : Nat} {b : Block} (hk : g.blocks.size ≤ k) (h : (entered g).blocks[k]? = some b) :
    b.items = #[] ∧ b.branches = #[] ∧ b.locked = false ∧ b.returns = false := by
  simp only [entered, Func.addBlock, Array.getElem?_push, Array.size_push] at h
  split at h
  · cases h
    exact ⟨rfl, rfl, rfl, rfl⟩
  · split at h
    · cases h
      exact ⟨rfl, rfl, rfl, rfl⟩
    · have hlt := (Array.getElem?_eq_some_iff.1 h).1
      omega

/-- Both functions of a definition have been opened, the right one when the left lowering had ended. -/
structure Mirror.Begins (m : Mirror) (i j : Nat) (g g' : Func) (s q t' : State) : Prop where
  opened : Opened i m.home g s m.start
  opened' : Opened j m.home' g' q t'
  rested : s.Rested
  rested' : q.Rested
  twin : Twin g g'
  code : (s.impls[i]?.getD default).code = none
  code' : (q.impls[j]?.getD default).code = none
  parent : (q.impls[j]?.getD default).parent = (s.impls[i]?.getD default).parent
  final : m.final = q.program
  grown : m.start.program.Grown m.final
  definitions : q.definitions = s.definitions
  files : q.files = s.files ∧ q.fileTable = s.fileTable
  first : m.first = g.blocks.size
  lo : m.lo = g.nextValue
  lo' : m.lo' = g'.nextValue
  vars' : m.vars' = t'.vars.size
  reports' : m.reports' = t'.reports
  impl : m.impl = i
  impl' : m.impl' = j
  cursor : m.cursor = g.cursor
  cursor' : m.cursor' = g'.cursor
  lowerer : m.start.lowerer = .tree
  lowerer' : t'.lowerer = .tree
  tree : m.start.tree = { impl := i, scope := (s.impls[i]?.getD default).scope, cursor := g.cursor,
                          entry := ⟨m.home, g.blocks.size⟩, content := ⟨m.home, g.blocks.size + 1⟩ }
  tree' : t'.tree = { impl := j, scope := (q.impls[j]?.getD default).scope, cursor := g'.cursor,
                      entry := ⟨m.home', g'.blocks.size⟩, content := ⟨m.home', g'.blocks.size + 1⟩ }

namespace Mirror.Begins

/-- The stage at which nothing has been emitted yet. -/
def stage (h : m.Begins i j g g' s q t') : m.Stage where
  final := m.start.program
  grown := h.grown
  last := entered g
  last_eq := h.opened.home
  base := m.lo
  shift := m.lo' - m.lo
  fresh _ hn hlt := absurd hlt (Nat.not_lt.2 (h.lo ▸ hn))
  lead := []
  lead' := []

theorem homeLike (h : m.Begins i j g g' s q t') : h.stage.pairing.HomeLike (entered g) (entered g') where
  numbered := ((h.opened.complete h.rested).numbered.addBlock _).addBlock _
  size := by rw [size_entered, size_entered, h.twin.size]
  first_le := by
    rw [size_entered]
    exact Nat.le_trans (Nat.le_of_eq h.first) (Nat.le_add_right ..)
  fresh_le := by
    rw [size_entered]
    exact Nat.le_of_eq (congrArg (· + 2) h.first)
  base_le := Nat.le_of_eq h.lo
  next := by
    have hlo := h.lo
    have hlo' := h.lo'
    change (g'.nextValue : Int) = g.nextValue + (m.lo' - m.lo)
    omega
  result := h.twin.result
  cursor _ _ _ := ⟨h.cursor.symm, h.cursor'.symm⟩
  blocks k b b' hk hb hb' := by
    have hk' : g.blocks.size ≤ k := h.first ▸ hk
    obtain ⟨hitems, hbranches, hlocked, hreturns⟩ := fresh_of_entered hk' hb
    obtain ⟨hitems', hbranches', hlocked', hreturns'⟩ := fresh_of_entered (h.twin.size ▸ hk') hb'
    refine ⟨by rw [hlocked, hlocked'], by rw [hreturns, hreturns'], ?_, [], [], ?_, ?_, .nil⟩
    · rw [hbranches, hbranches']
      exact .nil
    · simp [hitems, Stage.pairing, stage]
    · simp [hitems', Stage.pairing, stage]
  done k b b' hk hb hb' := by
    have hk' : k < g.blocks.size := h.first ▸ hk
    have hsize : h.stage.pairing.first = g.blocks.size := h.first
    rw [hsize]
    rcases blocks_entered hb with ⟨hb, -⟩ | ⟨hle, -⟩
    · rcases blocks_entered hb' with ⟨hb', -⟩ | ⟨hle, -⟩
      · have hdone := (h.opened'.complete h.rested').done k b' hb'
        exact ⟨(h.opened.complete h.rested).done k b hb, h.twin.size ▸ hdone⟩
      · exact absurd hk' (Nat.not_lt.2 (h.twin.size ▸ hle))
    · exact absurd hk' (Nat.not_lt.2 hle)

theorem size_last (h : m.Begins i j g g' s q t') : m.first + 2 ≤ m.last.blocks.size := by
  obtain ⟨last, hlast, hgrown⟩ := h.grown.funcs _ _ h.opened.home
  cases hlast.symm.trans m.last_eq
  have hsize := hgrown.size_le
  rwa [size_entered, ← h.first] at hsize

theorem treeLike (h : m.Begins i j g g' s q t') : TreeLike m.likeness m.start.tree t'.tree := by
  have hsize := h.size_last
  have hfirst := h.first
  have hsize' := h.twin.size
  refine ⟨?_, ?_, ?_, ?_, ?_, ?_, ?_, ?_, ?_⟩ <;> rw [h.tree, h.tree']
  · exact ⟨h.impl.symm, h.impl'.symm⟩
  · exact ⟨(h.opened.scope h.rested).trans h.impl.symm, (h.opened'.scope h.rested').trans h.impl'.symm⟩
  · exact ⟨rfl, rfl, hsize', Nat.le_of_eq hfirst, by change g.blocks.size < _; omega⟩
  · exact ⟨rfl, rfl, congrArg (· + 1) hsize', by change m.first ≤ g.blocks.size + 1; omega,
      by change g.blocks.size + 1 < _; omega⟩
  · exact ⟨none, inferInstance⟩
  · exact ⟨none, inferInstance⟩
  · exact .nil
  · exact .nil

theorem paired (h : m.Begins i j g g' s q t') : h.stage.pairing.Paired m.start t' where
  program := {
    sound := h.opened.sound
    sound' := h.opened'.sound
    lawful := nofun
    ahead := (h.grown.trans (h.final ▸ h.opened'.grown)).toAhead
    home := ⟨entered g, entered g', h.opened.home, h.opened'.home, h.homeLike⟩
    others := fun j g _ hg => .inr ⟨g, hg, rfl, rfl⟩ }
  cursor := by
    have hsize := h.size_last
    obtain ⟨c, hc, hfunc, hblock⟩ := h.opened.stands
    obtain ⟨c', hc', hfunc', hblock'⟩ := h.opened'.stands
    refine ⟨c, c', h.opened.cursor ▸ hc, h.opened'.cursor ▸ hc', hfunc, hfunc', ?_⟩
    rw [hblock, hblock', h.twin.size, ← h.first]
    exact .some ⟨rfl, rfl, rfl, Nat.le_succ _, by change m.first + 1 < _; omega⟩
  own _ _ hc := ⟨h.opened.cursor.trans (h.cursor.symm.trans hc.1.symm),
    h.opened'.cursor.trans (h.cursor'.symm.trans hc.2.symm)⟩
  lowerer := h.lowerer'.trans h.lowerer.symm
  ofTree _ := trivial
  unstacked := by rw [h.lowerer]; decide
  tree _ := h.treeLike
  vars := by
    refine ⟨Nat.le_refl _, ?_, fun k v v' hv => ?_, fun i1 i2 hi => ?_, fun _ _ => rfl, rfl⟩
    · rw [show h.stage.pairing.vars' = t'.vars.size from h.vars']
      exact Nat.add_comm ..
    · have hlt := (Array.getElem?_eq_some_iff.1 hv).1
      exact absurd hlt (Nat.not_lt.2 (Nat.le_add_right _ _))
    · obtain ⟨rfl, rfl⟩ := hi
      rw [h.impl, h.impl', (opened_impl h.opened h.rested h.code).2.2, (opened_impl h.opened' h.rested' h.code').2.2]
      exact .some .nil
  impl i1 i2 hi := by
    obtain ⟨rfl, rfl⟩ := hi
    obtain ⟨hcode, hscope, -⟩ := opened_impl h.opened h.rested h.code
    obtain ⟨hcode', hscope', -⟩ := opened_impl h.opened' h.rested' h.code'
    rw [h.impl, h.impl']
    refine ⟨?_, ⟨hscope.trans h.impl.symm, hscope'.trans h.impl'.symm⟩, ?_⟩
    · rw [hcode, hcode']
      exact .some ⟨rfl, rfl⟩
    · rw [h.opened.parent, h.opened'.parent]
      exact h.parent
  impls := rfl
  bare hbare := by
    rw [h.lowerer] at hbare
    cases hbare
  definitions := ⟨rfl, h.opened'.definitions.trans (h.definitions.trans h.opened.definitions.symm)⟩
  sources := ⟨rfl, rfl⟩
  files := ⟨h.opened'.files.1.trans (h.files.1.trans h.opened.files.1.symm),
    h.opened'.files.2.trans (h.files.2.trans h.opened.files.2.symm)⟩
  reports := ⟨[], (List.append_nil _).symm, by
    rw [List.append_nil]
    exact congrArg Array.toList h.reports'.symm⟩

theorem abreast (h : m.Begins i j g g' s q t') : m.Abreast m.lo (m.lo' - m.lo) [] [] m.start t' :=
  ⟨h.grown, h.final ▸ h.opened'.grown, h.stage, rfl, rfl, rfl, rfl, h.paired⟩

end Mirror.Begins

end Lowering.Twins
