import Lowering.Compile
import Lowering.Proofs.Rest

/-!
The compiler is at rest when it has been set up: there are structures and variables, but no functions.
-/
namespace Lowering

/-- The type has no types inside and names none but the first structures. -/
def MachineType.isFlat (count : Nat) (t : MachineType) : Bool :=
  t.result.isNone && t.params.isEmpty && t.element.isNone &&
    (t.primitive != .struct || decide (0 ≤ t.structId ∧ t.structId < count))

theorem MachineType.within_of_isFlat {p : Program} {t : MachineType}
    (h : t.isFlat p.structTable.size = true) : t.Within p.HasStruct := by
  simp only [isFlat, Bool.and_eq_true, Option.isNone_iff_eq_none, List.isEmpty_iff, Bool.or_eq_true,
    bne_iff_ne, decide_eq_true_eq] at h
  obtain ⟨⟨⟨hresult, hparams⟩, helement⟩, hstruct⟩ := h
  refine ⟨fun hp => ?_, by simp [hresult], by simp [hparams], by simp [helement]⟩
  exact hstruct.resolve_left fun hne => hne hp

namespace Compile

/-- What the setup leaves, as far as it is found by running it: flat types, variables numbered as they are
listed, and neither functions, implementations nor constants. -/
theorem ready_setUp : (ready.program.funcs.size = 0 ∧ ready.program.funcTable.size = 0 ∧ ready.impls.size = 0 ∧
      ready.scopes.size = 0 ∧ ready.program.constants.size = 0) ∧
    (Program.setupNames <+: ready.program.globalTable.toList.map Prod.fst ∧ ready.program.globalTable.size = 7 ∧
      (∀ e ∈ ready.program.globalTable.toList, e.1.toList.head? ≠ some '@') ∧
      ∀ k < 7, (ready.program.globalTable[k]?.bind fun e =>
          ready.program.globals[e.2]?.map fun g => (g.name, g.id)) =
        ready.program.globalTable[k]?.map fun e => (e.1, (Program.numberAt k : Int))) ∧
    (∀ g ∈ ready.program.globals.toList, (0 ≤ g.id ∧ g.id < ready.program.globalTable.size) ∧
      g.type.isFlat ready.program.structTable.size = true) ∧ (0 < ready.program.structTable.size ∧
      ∀ i ∈ ready.program.structTable.toList, i < ready.program.structs.size) ∧
    ∀ t ∈ ready.program.structs.toList, t.id < ready.program.structTable.size ∧
      ∀ m ∈ t.members.toList, m.isFlat ready.program.structTable.size = true := by
  decide +kernel

theorem funcs_ready : ready.program.funcs = #[] := Array.eq_empty_of_size_eq_zero ready_setUp.1.1

theorem impls_ready : ready.impls = #[] := Array.eq_empty_of_size_eq_zero ready_setUp.1.2.2.1

theorem constants_ready : ready.program.constants = #[] :=
  Array.eq_empty_of_size_eq_zero ready_setUp.1.2.2.2.2

theorem globals_ready : ∀ g ∈ ready.program.globals.toList, (0 ≤ g.id ∧ g.id < ready.program.globalTable.size) ∧
      g.type.isFlat ready.program.structTable.size = true :=
  ready_setUp.2.2.1

theorem structs_ready : ∀ t ∈ ready.program.structs.toList, t.id < ready.program.structTable.size ∧
      ∀ m ∈ t.members.toList, m.isFlat ready.program.structTable.size = true :=
  ready_setUp.2.2.2.2

theorem placed_ready : Program.Placed ready.program.globals ready.program.globalTable := by
  obtain ⟨hsetup, hsize, -, hnumbers⟩ := ready_setUp.2.1
  refine ⟨hsetup, fun k e he => ?_⟩
  have hk := (Array.getElem?_eq_some_iff.1 he).1
  have hnumber := hnumbers k (hsize ▸ hk)
  rw [he, Option.bind_some, Option.map_some] at hnumber
  obtain ⟨g, hg, hpair⟩ := Option.map_eq_some_iff.1 hnumber
  exact ⟨g, hg, congrArg Prod.fst hpair, congrArg Prod.snd hpair⟩

theorem sound_ready : ready.program.Sound where
  funcs := by simp [funcs_ready]
  cursors := by simp [funcs_ready]
  size := ready_setUp.1.2.1.trans ready_setUp.1.1.symm
  listed := by simp [funcs_ready]
  found := by simp [funcs_ready]
  globals i g hg := (globals_ready g (Array.mem_of_getElem? hg).val).1
  placed := placed_ready
  constants k _ := Program.lookup_eq_none_iff.2 fun e he =>
    (Program.constantName_ne (ready_setUp.2.1.2.2.1 e he.val)).symm

theorem lawful_ready : ready.program.Lawful Arity ready.program.HasStruct where
  arity := by simp [funcs_ready]
  result := by simp [funcs_ready]
  params := by simp [funcs_ready]
  globals i g hg := MachineType.within_of_isFlat (globals_ready g (Array.mem_of_getElem? hg).val).2
  structs i t ht := by
    have := (structs_ready t (Array.mem_of_getElem? ht).val).1
    exact ⟨by omega, by omega⟩

theorem laid_ready : ready.program.Laid where
  zero := ⟨Int.le_refl 0, Int.natCast_pos.2 ready_setUp.2.2.2.1.1⟩
  listed _ i hi := ⟨_, Array.getElem?_eq_getElem (ready_setUp.2.2.2.1.2 i (Array.mem_of_getElem? hi).val)⟩
  members _ t ht m hm := MachineType.within_of_isFlat
    ((structs_ready t (Array.mem_of_getElem? ht).val).2 m hm.val)

theorem rested_ready (output : String) : State.Rested { ready with output } where
  sound := sound_ready
  lawful := lawful_ready
  laid := laid_ready
  complete := by simp [funcs_ready]
  scope := by simp [impls_ready]
  scopes := ready_setUp.1.2.2.2.1.trans ready_setUp.1.2.2.1.symm
  fresh := by simp [impls_ready]
  coded := by simp [impls_ready]
  owned := by simp [funcs_ready]

end Compile
end Lowering
