import Lowering.Proofs.EntryPoint
import Lowering.Proofs.Lowered
import Lowering.Proofs.Setup

/-!
The compiler as a whole. Between the lowerings of functions it is at rest, from the setup on until the
entry point is emitted; so what a completed compilation leaves can be linked.
-/
namespace Lowering

namespace Emit

variable {α β : Type} {I : State → Prop}

/-- A completed action keeps to an invariant. -/
abbrev Preserves (I : State → Prop) (x : Emit α) : Prop := Heeds (.lasting I) x

theorem Preserves.of_ok {x : Emit α} [Preserves I x] {s s' : State} {a : α} (hs : I s) (h : x s = .ok a s') : I s' :=
  holds_of_ok (R := .lasting I) hs h

theorem Preserves.bind {x : Emit α} {f : α → Emit β} (hx : Preserves I x) (hf : ∀ a, Preserves I (f a)) :
    Preserves I (x >>= f) :=
  inferInstance

instance (xs : Array α) (init : β) (f : α → β → Emit (ForInStep β)) [∀ a b, Preserves I (f a b)] :
    Preserves I (forIn xs init f) := by
  rw [← Array.forIn_toList]
  infer_instance

end Emit

namespace Compile

open Emit

variable {s s' : State} {i : Nat}

/-- At rest, with the implementations that have not been begun still to be lowered. -/
structure Waiting (s : State) : Prop where
  rested : s.Rested
  unbegun : ∀ (i : Nat) (m : Impl), s.impls[i]? = some m → m.status = 0 → m.code = none

theorem named_mono {m : Impl} {name : String}
    (h : ∀ (d : Nat) base, Lower.definedName (s.definitions[d]?.getD default) = some base →
      Lower.definedName (s'.definitions[d]?.getD default) = some base)
    (hm : Lower.Named s m name) : Lower.Named s' m name := by
  obtain ⟨ending, n, d, base, hsigned, hparent, hbase, rfl⟩ := hm
  exact ⟨ending, n, d, base, hsigned, hparent, h d base hbase, rfl⟩

theorem rested_of_sources (hs : s.Rested) (hprogram : s'.program = s.program) (himpls : s'.impls = s.impls)
    (hscopes : s'.scopes = s.scopes)
    (hdefinitions : ∀ (d : Nat) base, Lower.definedName (s.definitions[d]?.getD default) = some base →
      Lower.definedName (s'.definitions[d]?.getD default) = some base) : s'.Rested := by
  refine ⟨hprogram ▸ hs.toFinished, himpls ▸ hs.scope, ?_, ?_, fun i m f hm hf => ?_, ?_⟩
  · rw [hscopes, himpls]
    exact hs.scopes
  · rw [hscopes, himpls]
    exact hs.fresh
  · obtain ⟨g, hg, hnamed, hsize⟩ := hs.coded i m f (himpls ▸ hm) hf
    exact ⟨g, hprogram ▸ hg, named_mono hdefinitions hnamed, hsize⟩
  · rw [hprogram, himpls]
    exact hs.owned

theorem waiting_of_sources (hs : Waiting s) (hprogram : s'.program = s.program) (himpls : s'.impls = s.impls)
    (hscopes : s'.scopes = s.scopes)
    (hdefinitions : ∀ (d : Nat) base, Lower.definedName (s.definitions[d]?.getD default) = some base →
      Lower.definedName (s'.definitions[d]?.getD default) = some base) : Waiting s' :=
  ⟨rested_of_sources hs.rested hprogram himpls hscopes hdefinitions, himpls ▸ hs.unbegun⟩

instance (file : SourceFile) : Preserves Waiting (newFile file) :=
  heeds_lasting fun hs h => by
    cases h
    exact waiting_of_sources hs rfl rfl rfl fun _ _ => id

instance (i : Nat) : Preserves Waiting (addFile i) :=
  heeds_lasting fun hs h => by
    cases h
    exact waiting_of_sources hs rfl rfl rfl fun _ _ => id

instance (file d : Nat) : Preserves Waiting (addToFile file d) :=
  heeds_lasting fun {s _ _} hs h => by
    cases h
    refine waiting_of_sources hs rfl rfl rfl fun k base hbase => ?_
    simp only [Array.getElem?_modify]
    split
    · cases hd : s.definitions[k]? <;> rw [hd] at hbase
      · exact hbase
      · exact hbase
    · exact hbase

theorem newDefinition_eq_ok {node : Node} {d : Nat} (h : newDefinition node s = .ok d s') :
    d = s.definitions.size ∧ s' = { s with
      scopes := (s.scopes.push #[]).push #[]
      impls := (s.impls.push { scope := s.scopes.size, parent := some d, convention := .tuple }).push
        { scope := s.scopes.size + 1, parent := some d, convention := .vector }
      definitions := s.definitions.push { node, impls := #[s.impls.size, s.impls.size + 1] } } := by
  cases h
  refine ⟨rfl, ?_⟩
  simp only [State.mk.injEq, Array.size_push, true_and, and_true]
  apply Array.ext_getElem?
  intro j
  simp only [Array.getElem?_modify, Array.getElem?_push, Array.size_push]
  grind

theorem of_getElem?_push_push {α : Type} {xs : Array α} {a b c : α} {i : Nat} (h : ((xs.push a).push b)[i]? = some c) :
    xs[i]? = some c ∨ i = xs.size ∧ c = a ∨ i = xs.size + 1 ∧ c = b := by
  simp only [Array.getElem?_push, Array.size_push] at h
  split at h
  next hi => exact .inr (.inr ⟨hi, (Option.some.inj h).symm⟩)
  next =>
    split at h
    next hi => exact .inr (.inl ⟨hi, (Option.some.inj h).symm⟩)
    next => exact .inl h

instance (node : Node) : Preserves Waiting (newDefinition node) :=
  heeds_lasting fun {s s' d} hs h => by
    obtain ⟨hrested, hunbegun⟩ := hs
    obtain ⟨rfl, rfl⟩ := newDefinition_eq_ok h
    have hsize := hrested.scopes
    have hscope : ∀ i, i < s.scopes.size → ((s.scopes.push #[]).push #[])[i]? = s.scopes[i]? := by
      intro i hi
      simp only [Array.getElem?_push, Array.size_push]
      rw [if_neg (by omega), if_neg (by omega)]
    have hempty : ∀ i, s.scopes.size ≤ i → i < s.scopes.size + 2 →
        ((s.scopes.push #[]).push #[])[i]? = some #[] := by
      intro i hle hlt
      simp only [Array.getElem?_push, Array.size_push]
      split
      · rfl
      · rw [if_pos (by omega)]
    refine ⟨⟨hrested.toFinished, fun i m hm => ?_, ?_, fun i m hm hcode => ?_, fun i m f hm hf => ?_,
      fun f g hg hblocks => ?_⟩, fun i m hm hstatus => ?_⟩
    · rcases of_getElem?_push_push hm with hm | ⟨rfl, rfl⟩ | ⟨rfl, rfl⟩
      · exact hrested.scope i m hm
      · exact hsize
      · exact congrArg (· + 1) hsize
    · simp only [Array.size_push, hsize]
    · rcases of_getElem?_push_push hm with hm | ⟨rfl, -⟩ | ⟨rfl, -⟩
      · have hlt := (Array.getElem?_eq_some_iff.1 hm).1
        rw [hscope i (hsize ▸ hlt)]
        exact hrested.fresh i m hm hcode
      · exact hempty _ (by omega) (by omega)
      · exact hempty _ (by omega) (by omega)
    · rcases of_getElem?_push_push hm with hm | ⟨-, rfl⟩ | ⟨-, rfl⟩
      · obtain ⟨g, hg, hnamed, hne⟩ := hrested.coded i m f hm hf
        refine ⟨g, hg, named_mono (fun k base hbase => ?_) hnamed, hne⟩
        cases hd : s.definitions[k]? with
        | none =>
          rw [hd] at hbase
          cases hbase
        | some def' =>
          rw [hd] at hbase
          rwa [Program.getElem?_push_of_some hd]
      · cases hf
      · cases hf
    · obtain ⟨i, m, hm, hcode⟩ := hrested.owned f g hg hblocks
      exact ⟨i, m, Program.getElem?_push_of_some (Program.getElem?_push_of_some hm), hcode⟩
    · rcases of_getElem?_push_push hm with hm | ⟨-, rfl⟩ | ⟨-, rfl⟩
      · exact hunbegun i m hm hstatus
      · rfl
      · rfl

def begun (s : State) (i : Nat) : State :=
  { s with impls := s.impls.modify i fun m => { m with status := 1 } }

theorem of_impls_begun {j : Nat} {m : Impl} (h : (begun s i).impls[j]? = some m) :
    ∃ m', s.impls[j]? = some m' ∧ m.scope = m'.scope ∧ m.code = m'.code ∧
      (∀ name, Lower.Named s m' name ↔ Lower.Named (begun s i) m name) := by
  simp only [begun, Array.getElem?_modify] at h
  split at h
  · obtain ⟨m', hm', rfl⟩ := Option.map_eq_some_iff.1 h
    exact ⟨m', hm', rfl, rfl, fun _ => Iff.rfl⟩
  · exact ⟨m, h, rfl, rfl, fun _ => Iff.rfl⟩

theorem rested_begun (hs : s.Rested) (i : Nat) : (begun s i).Rested := by
  refine ⟨hs.toFinished, fun j m hm => ?_, ?_, fun j m hm hcode => ?_, fun j m f hm hf => ?_,
    fun f g hg hblocks => ?_⟩
  · obtain ⟨m', hm', hscope, -⟩ := of_impls_begun hm
    exact hscope.trans (hs.scope j m' hm')
  · simp only [begun, Array.size_modify]
    exact hs.scopes
  · obtain ⟨m', hm', -, hcode', -⟩ := of_impls_begun hm
    exact hs.fresh j m' hm' (hcode'.symm.trans hcode)
  · obtain ⟨m', hm', -, hcode', hnamed⟩ := of_impls_begun hm
    obtain ⟨g, hg, hname, hsize⟩ := hs.coded j m' f hm' (hcode'.symm.trans hf)
    exact ⟨g, hg, (hnamed _).1 hname, hsize⟩
  · obtain ⟨j, m, hm, hcode⟩ := hs.owned f g hg hblocks
    by_cases hij : i = j
    · exact ⟨j, { m with status := 1 }, by simp [begun, Array.getElem?_modify, hij, hm], hcode⟩
    · exact ⟨j, m, by simp [begun, Array.getElem?_modify, hij, hm], hcode⟩

theorem lowerOnce_eq_ok (h : lowerOnce i s = .ok () s') :
    s' = s ∨ (s.impls[i]?.getD default).status = 0 ∧ ∃ t, Lower.lowerImpl i (begun s i) = .ok () t ∧
      s' = { t with lowerer := s.lowerer, cursor := s.cursor, tree := s.tree } := by
  obtain ⟨m, s1, hm, h⟩ := bind_eq_ok.1 h
  obtain ⟨rfl, rfl⟩ := pure_eq_ok.1 hm
  split at h
  next hstatus =>
    obtain ⟨_, s2, hmark, h⟩ := bind_eq_ok.1 h
    have hs2 : s2 = begun s1 i := by
      cases hmark
      rfl
    subst hs2
    rw [keepFrame, get_bind_run] at h
    obtain ⟨t, ht, rfl⟩ := restoring_eq_ok.1 h
    exact .inr ⟨hstatus, t, ht, rfl⟩
  next =>
    obtain ⟨-, rfl⟩ := pure_eq_ok.1 h
    exact .inl rfl

theorem lowerOnce_of_ok {t : State} (hstatus : (s.impls[i]?.getD default).status = 0)
    (h : Lower.lowerImpl i (begun s i) = .ok () t) :
    lowerOnce i s = .ok () { t with lowerer := s.lowerer, cursor := s.cursor, tree := s.tree } := by
  refine bind_eq_ok.2 ⟨_, s, rfl, ?_⟩
  rw [if_pos hstatus]
  refine bind_eq_ok.2 ⟨(), begun s i, rfl, ?_⟩
  rw [keepFrame, get_bind_run]
  exact restoring_eq_ok.2 ⟨t, h, rfl⟩

instance (i : Nat) : Preserves Waiting (lowerOnce i) :=
  heeds_lasting fun {s s' _} hs h => by
    rcases lowerOnce_eq_ok h with rfl | ⟨hstatus, t, ht, rfl⟩
    · exact hs
    have hcode : ((begun s i).impls[i]?.getD default).code = none := by
      simp only [begun, Array.getElem?_modify, if_true]
      cases hm : s.impls[i]? with
      | none => rfl
      | some m =>
        rw [hm] at hstatus
        exact hs.unbegun i m hm hstatus
    obtain ⟨f, hlowered⟩ := Lower.lowerImpl_lowered (rested_begun hs.rested i) hcode ht
    refine ⟨rested_of_sources hlowered.rested rfl rfl rfl fun _ _ => id, fun j m hm hzero => ?_⟩
    simp only [hlowered.impls, begun, Array.getElem?_modify] at hm
    split at hm
    next =>
      obtain ⟨m', hm', rfl⟩ := Option.map_eq_some_iff.1 hm
      obtain ⟨m'', -, rfl⟩ := Option.map_eq_some_iff.1 hm'
      cases hzero
    next => exact hs.unbegun j m hm hzero

instance (file : Nat) : Preserves Waiting (compileFile file) :=
  heeds_lasting fun {s s' _} hs h => by
    rw [compileFile, get_bind_run] at h
    cases htree : (s.files[file]?.getD default).tree with
    | none =>
      rw [htree] at h
      obtain ⟨-, rfl⟩ := pure_eq_ok.1 h
      exact hs
    | some tree =>
      rw [htree] at h
      exact Preserves.of_ok hs h

instance (files : List SourceFile) : Preserves Waiting (load files) := by
  unfold load
  infer_instance

instance (text : String) : Preserves Waiting (print text) :=
  heeds_lasting fun hs h => by
    cases h
    exact waiting_of_sources hs rfl rfl rfl fun _ _ => id

/-- A completed compilation emits the functions first. Without complaints about the source it goes on with
the entry point, and the stream is that of the program it ends with. -/
theorem run_eq_ok {bytes : Option Bytes} (hs : Waiting s) (h : run s = .ok bytes s') :
    bytes = none ∧ Waiting s' ∨ ∃ t stream, Waiting t ∧ Entry.emitMain t = .ok () s' ∧
      s'.program.stream 0 = .ok stream ∧ bytes = some stream := by
  rw [run, get_bind_run] at h
  obtain ⟨_, s1, hfiles, h⟩ := bind_eq_ok.1 h
  have hs1 : Waiting s1 := Preserves.of_ok hs hfiles
  rw [get_bind_run] at h
  obtain ⟨_, s2, hprint, h⟩ := bind_eq_ok.1 h
  have hs2 : Waiting s2 := Preserves.of_ok hs1 hprint
  split at h
  next =>
    obtain ⟨_, s3, hmain, h⟩ := bind_eq_ok.1 h
    rw [get_bind_run] at h
    obtain ⟨stream, s4, hlift, hlast⟩ := bind_eq_ok.1 h
    obtain ⟨hstream, hs4⟩ := lift_eq_ok.1 hlift
    obtain ⟨hbytes, hs'⟩ := pure_eq_ok.1 hlast
    rw [hs', hs4]
    exact .inr ⟨s2, stream, hs2, hmain, hstream, hbytes⟩
  next =>
    obtain ⟨rfl, rfl⟩ := pure_eq_ok.1 h
    exact .inl ⟨rfl, hs2⟩

theorem waiting_ready (output : String) : Waiting { ready with output } :=
  ⟨rested_ready output, by simp [impls_ready]⟩

theorem compile_linked {files : List SourceFile} {output : String} {bytes : Option Bytes}
    (h : compile files { ready with output } = .ok bytes s') : s'.program.Linked := by
  obtain ⟨_, s1, hload, hrun⟩ := bind_eq_ok.1 h
  have hs1 : Waiting s1 := Preserves.of_ok (waiting_ready output) hload
  rcases run_eq_ok hs1 hrun with ⟨-, hs'⟩ | ⟨t, -, ht, hmain, -⟩
  · exact hs'.rested.linked
  · exact Entry.emitMain_linked ht.rested hmain

end Compile
end Lowering
