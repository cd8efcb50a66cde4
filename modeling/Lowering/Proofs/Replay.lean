import Lowering.Proofs.Follows.Actions
import Lowering.Proofs.Linking

/-!
A run beside itself. Everything that a completed run emitted is held against the program it ended with:
the second run starts from the final tables, with the function in hand as it was at the start. What the
two runs emit is alike, and under a likeness that only relates numbers in range to themselves this says
that the code of the function refers to nothing that is not there.
-/
namespace Lowering

/-- A law for how many arguments functions take, by their names. -/
structure Arities where
  takes : String → Nat → Prop
  library : ∀ name n, (name, n) ∈ Library.arities → takes name n
  unique : ∀ name n k, takes name n → takes name k → n = k

/-- The law that all functions of a program keep to. -/
def Arities.ofProgram : Arities := ⟨Arity, fun _ _ => .library, fun _ _ _ => Arity.unique⟩

/-- A run to be looked at from its end: the program it ended with, and the function in hand. -/
structure Replay where
  arities : Arities
  start : State
  final : Program
  sound : final.Sound
  grown : start.program.Grown final
  home : Nat
  /-- The function at the start. -/
  begun : Func
  begun_eq : start.program.funcs[home]? = some begun
  /-- The function at the end. -/
  last : Func
  last_eq : final.funcs[home]? = some last
  two_le : 2 ≤ last.nextValue
  struct_zero : final.HasStruct 0
  struct_of : ∀ (i : Nat) (t : StructDef), final.structs[i]? = some t → final.HasStruct t.id
  /-- The blocks before this one had ended before. -/
  first : Nat
  impl : Nat
  scope : Nat

namespace Replay

variable (r : Replay)

/-- Numbers in range stand for themselves. -/
def likeness : Likeness where
  value n m := m = n ∧ 0 ≤ n ∧ n < r.last.nextValue
  block b b' := b.func = r.home ∧ b'.func = r.home ∧ b'.index = b.index ∧ r.first ≤ b.index ∧
    b.index < r.last.blocks.size
  ended b b' := b.func = r.home ∧ b'.func = r.home ∧ b'.index = b.index ∧ b.index < r.first
  func i i' := r.start.lowerer ≠ .bare ∧ i = r.home ∧ i' = r.home
  cursor c c' := r.start.lowerer ≠ .bare ∧ c = r.start.cursor ∧ c' = r.start.cursor
  impl i i' := r.start.lowerer ≠ .bare ∧ i = r.impl ∧ i' = r.impl
  scope i i' := r.start.lowerer ≠ .bare ∧ i = r.scope ∧ i' = r.scope
  var i i' := ∃ k, i = r.start.vars.size + k ∧ i' = r.start.vars.size + k
  tree := r.start.lowerer = .tree
  strict := True
  struct := r.final.HasStruct
  global n := 0 ≤ n ∧ n < r.final.globalTable.size
  listed i := ∃ f : Func, r.final.funcs[i]? = some f
  callee i n := ∃ f : Func, r.final.funcs[i]? = some f ∧ r.arities.takes f.name n
  arity := r.arities.takes
  zero := ⟨rfl, Int.le_refl 0, by have := r.two_le; omega⟩
  one := ⟨rfl, by decide, by have := r.two_le; omega⟩
  library := r.arities.library
  arity_inj _ := r.arities.unique

theorem ref_like {k : Nat} (hfirst : r.first ≤ k) (hk : k < r.last.blocks.size) :
    r.likeness.block ⟨r.home, k⟩ ⟨r.home, k⟩ :=
  ⟨rfl, rfl, rfl, hfirst, hk⟩

variable {r} in
theorem block_self {b b' : BlockRef} (h : r.likeness.block b b') : r.likeness.block b b :=
  ⟨h.1, h.1, rfl, h.2.2.2⟩

def pairing : Pairing r.likeness where
  final := r.final
  home := r.home
  home' := r.home
  last := r.last
  last_eq := r.last_eq
  count := r.last.blocks.size
  size_le := Nat.le_refl _
  first := r.first
  lead _ := ([], [])
  fresh := 0
  lead_fresh _ _ := rfl
  base := r.begun.nextValue
  shift := 0
  vars := r.start.vars.size
  vars' := r.start.vars.size
  start := r.start
  reports' := r.start.reports
  scope := r.scope
  scope' := r.scope
  value_fits _ _ h := by rw [h.1]; exact id
  value_fresh n _ hn := ⟨by simp, by omega, by omega⟩
  block_iff _ _ := Iff.rfl
  ended_iff _ _ := Iff.rfl
  func_eq _ _ h := h.2
  scope_eq _ _ h := h.2
  var_iff _ _ := Iff.rfl
  struct_zero := r.struct_zero
  struct_of := r.struct_of
  listed_of _ f hf := ⟨f, hf⟩
  callee_of _ f _ hf hn := ⟨f, hf, hn⟩
  global_of := r.sound.globals

/-- The final program with the function in hand, and its cursor, as they were at the start. -/
def rewound : Program :=
  { r.final with
    funcs := r.final.funcs.modify r.home fun _ => r.begun
    cursors := r.final.cursors.modify r.start.cursor fun c => { c with block := r.start.here.block } }

theorem begun_grown : r.begun.Grown r.last := by
  obtain ⟨g, hg, hgrown⟩ := r.grown.funcs r.home r.begun r.begun_eq
  cases hg.symm.trans r.last_eq
  exact hgrown

theorem funcs_rewound {i : Nat} {f : Func} (h : r.rewound.funcs[i]? = some f) :
    r.home = i ∧ f = r.begun ∨ r.home ≠ i ∧ r.final.funcs[i]? = some f := by
  simp only [rewound, Array.getElem?_modify] at h
  split at h
  next hi =>
    obtain ⟨g, -, rfl⟩ := Option.map_eq_some_iff.1 h
    exact .inl ⟨hi, rfl⟩
  next hi => exact .inr ⟨hi, h⟩

theorem sound_rewound (hbegun : r.begun.Sound) : r.rewound.Sound := by
  have hgrown := r.begun_grown
  refine ⟨fun i f hf => ?_, fun i f hf => ?_, ?_, fun i f hf => ?_, fun i f hf => ?_, r.sound.globals,
    r.sound.placed, r.sound.constants⟩
  · rcases r.funcs_rewound hf with ⟨-, rfl⟩ | ⟨-, hf⟩
    · exact hbegun
    · exact r.sound.funcs i f hf
  · have hcursor : ∃ c : Cursor, r.final.cursors[f.cursor]? = some c ∧ c.func = i := by
      rcases r.funcs_rewound hf with ⟨rfl, rfl⟩ | ⟨-, hf⟩
      · rw [← hgrown.cursor]
        exact r.sound.cursors _ _ r.last_eq
      · exact r.sound.cursors i f hf
    obtain ⟨c, hc, hfunc⟩ := hcursor
    simp only [rewound, Array.getElem?_modify, hc]
    split
    · exact ⟨_, rfl, hfunc⟩
    · exact ⟨c, rfl, hfunc⟩
  · simp only [rewound, Array.size_modify]
    exact r.sound.size
  · rcases r.funcs_rewound hf with ⟨rfl, rfl⟩ | ⟨-, hf⟩
    · rw [← hgrown.id, ← hgrown.name]
      exact r.sound.listed _ _ r.last_eq
    · exact r.sound.listed i f hf
  · rcases r.funcs_rewound hf with ⟨rfl, rfl⟩ | ⟨-, hf⟩
    · rw [← hgrown.name]
      exact r.sound.found _ _ r.last_eq
    · exact r.sound.found i f hf

theorem ahead_rewound : r.final.Ahead r.rewound := by
  refine ⟨rfl, rfl, List.prefix_rfl, List.prefix_rfl, List.prefix_rfl, List.prefix_rfl,
    fun i f hf => ?_⟩
  simp only [rewound, Array.getElem?_modify, hf]
  split
  next hi =>
    subst hi
    cases hf.symm.trans r.last_eq
    exact ⟨r.begun, rfl, r.begun_grown.id.symm⟩
  next => exact ⟨f, rfl, rfl⟩

/-- What is to be known of the state at the start: the function has been opened, and no code is in its
new blocks yet. -/
structure Ready : Prop where
  sound : r.start.program.Sound
  lawful : r.start.program.Lawful r.arities.takes r.final.HasStruct
  numbered : r.begun.Numbered
  first_le : r.first ≤ r.begun.blocks.size
  done : ∀ (k : Nat) (b : Block), k < r.first → r.begun.blocks[k]? = some b → b.Done r.first
  fresh : ∀ (k : Nat) (b : Block), r.first ≤ k → r.begun.blocks[k]? = some b →
    b.items = #[] ∧ b.branches = #[]
  cursor : ∃ c : Cursor, r.start.program.cursors[r.start.cursor]? = some c ∧ c.func = r.home ∧
    Option.Rel r.likeness.block c.block c.block
  own : r.start.lowerer ≠ .bare → r.begun.cursor = r.start.cursor
  scope : ∀ xs, r.start.scopes[r.scope]? = some xs → xs = #[]
  impl : r.start.lowerer ≠ .bare → (r.start.impls[r.impl]?.getD default).code = some r.home ∧
    (r.start.impls[r.impl]?.getD default).scope = r.scope
  tree : r.start.lowerer = .tree → TreeLike r.likeness r.start.tree r.start.tree
  unstacked : r.start.lowerer ≠ .stack

variable {r}

theorem Ready.homeLike (h : r.Ready) : r.pairing.HomeLike r.begun r.begun where
  numbered := h.numbered
  size := rfl
  first_le := h.first_le
  fresh_le := Nat.zero_le _
  base_le := Nat.le_refl _
  next := (Int.add_zero _).symm
  result := rfl
  cursor _ _ hf := ⟨hf.1, h.own hf.1, h.own hf.1⟩
  blocks k b b' hk hb hb' := by
    cases hb.symm.trans hb'
    obtain ⟨hitems, hbranches⟩ := h.fresh k b hk hb
    refine ⟨rfl, rfl, ?_, [], [], ?_, ?_, .nil⟩
    · rw [hbranches]
      exact .nil
    · simp [hitems, pairing]
    · simp [hitems, pairing]
  done k b b' hk hb hb' := ⟨h.done k b hk hb, h.done k b' hk hb'⟩

theorem Ready.paired (h : r.Ready) : r.pairing.Paired r.start (r.start.withProgram r.rewound) where
  program := {
    sound := h.sound
    sound' := r.sound_rewound (h.sound.funcs _ _ r.begun_eq)
    lawful := fun _ => h.lawful
    ahead := r.ahead_rewound
    home := by
      refine ⟨r.begun, r.begun, r.begun_eq, ?_, h.homeLike⟩
      have hlast : r.final.funcs[r.home]? = some r.last := r.last_eq
      simp only [pairing, State.withProgram, rewound, Array.getElem?_modify, if_true, hlast,
        Option.map_some]
    others := fun j g _ hg => .inr ⟨g, hg, rfl, rfl⟩ }
  cursor := by
    obtain ⟨c, hc, hfunc, hblock⟩ := h.cursor
    obtain ⟨d, hd, hdc⟩ := r.grown.cursors _ c hc
    have hhere : r.start.here.block = c.block := by rw [State.here, hc]; rfl
    refine ⟨c, { d with block := c.block }, hc, ?_, hfunc, hdc.trans hfunc, hblock⟩
    simp only [State.withProgram, rewound, Array.getElem?_modify, if_true, hd, Option.map_some, hhere]
  own _ _ hc := ⟨hc.2.1.symm, hc.2.2.symm⟩
  lowerer := rfl
  ofTree := id
  unstacked := h.unstacked
  tree := h.tree
  vars := by
    refine ⟨Nat.le_refl _, rfl, fun k v v' hv => ?_, fun i i' hi => ?_, fun _ _ => rfl, rfl⟩
    · have hlt := (Array.getElem?_eq_some_iff.1 hv).1
      exact absurd hlt (Nat.not_lt.2 (Nat.le_add_right _ _))
    · obtain ⟨-, rfl, rfl⟩ := hi
      simp only [State.withProgram]
      cases hxs : r.start.scopes[r.scope]? with
      | none => exact .none
      | some xs =>
        rw [h.scope xs hxs]
        exact .some .nil
  impl i i' hi := by
    obtain ⟨hbare, rfl, rfl⟩ := hi
    obtain ⟨hcode, hscope⟩ := h.impl hbare
    refine ⟨?_, ⟨hbare, hscope, hscope⟩, rfl⟩
    simp only [State.withProgram, hcode]
    exact .some ⟨hbare, rfl, rfl⟩
  impls := rfl
  bare _ := rfl
  definitions := ⟨rfl, rfl⟩
  sources := ⟨rfl, rfl⟩
  files := ⟨rfl, rfl⟩
  reports := ⟨[], (List.append_nil _).symm, (List.append_nil _).symm⟩

section Done

variable {s t : State}

theorem toInt?_of_operandLike {v v' : Operand} (h : OperandLike r.likeness v v') {n : Int}
    (hn : v.toInt? = some n) : 0 ≤ n ∧ n < r.last.nextValue := by
  cases h with
  | id hv =>
    cases hn
    exact hv.2
  | same hv =>
    have htwo := r.two_le
    cases v with
    | id m => exact absurd rfl (hv m)
    | flag b =>
      cases hn
      cases b <;> simp <;> omega
    | absent | other => cases hn

theorem fits_of_instrLike {i i' : Instr} (hlawful : r.final.Lawful r.arities.takes r.final.HasStruct)
    (h : InstrLike r.likeness r.last.blocks.size i i') : i.Fits r.final r.last where
  uses v hv n hn := by
    obtain ⟨v', hlike⟩ := rel_of_mem h.uses hv
    exact toInt?_of_operandLike hlike hn
  targets := h.targets
  types := h.types
  call id vs x hi := by
    subst hi
    cases h with
    | call hf _ _ =>
      obtain ⟨g, hg, harity⟩ := hf
      exact ⟨_, g, rfl, hg, hlawful.arity _ g _ hg harity⟩
  funcPtr id x hi := by
    subst hi
    cases h with
    | funcPtr hf _ =>
      obtain ⟨g, hg⟩ := hf
      exact ⟨_, g, rfl, hg⟩
  globalVar id x hi := by
    subst hi
    cases h with
    | globalVar hid _ => exact hid

/-- The code that a completed run has put into the function in hand fits the program. -/
theorem fits_of_paired (h : r.pairing.Paired s t) (hfinal : s.program = r.final) {k : Nat} {b : Block}
    {i : Instr} (hk : r.first ≤ k) (hb : r.last.blocks[k]? = some b) (hi : .instr i ∈ b.items) :
    i.Fits r.final r.last := by
  have hlawful := h.program.lawful trivial
  rw [hfinal] at hlawful
  obtain ⟨f, f', hf, -, hlike⟩ := h.program.home
  rw [hfinal] at hf
  cases hf.symm.trans r.last_eq
  have hlt := (Array.getElem?_eq_some_iff.1 hb).1
  have hb' := Array.getElem?_eq_getElem (hlike.size ▸ hlt)
  obtain ⟨body, body', hbody, -, hinstrs⟩ := (hlike.blocks k b _ hk hb hb').items
  have hmem : i ∈ body := by
    rw [← Array.mem_toList_iff, hbody] at hi
    simpa [pairing] using hi
  obtain ⟨i', hii⟩ := rel_of_mem hinstrs hmem
  exact fits_of_instrLike hlawful hii

theorem within_of_paired (h : r.pairing.Paired s t) (hfinal : s.program = r.final) {k : Nat} {b : Block}
    (hb : r.last.blocks[k]? = some b) : ∀ c ∈ b.branches, c.index < r.last.blocks.size := by
  obtain ⟨f, f', hf, -, hlike⟩ := h.program.home
  rw [hfinal] at hf
  cases hf.symm.trans r.last_eq
  have hlt := (Array.getElem?_eq_some_iff.1 hb).1
  have hb' := Array.getElem?_eq_getElem (hlike.size ▸ hlt)
  intro c hc
  rcases Nat.lt_or_ge k r.first with hk | hk
  · exact Nat.lt_of_lt_of_le ((hlike.done k b _ hk hb hb').1.within c hc) hlike.first_le
  · obtain ⟨c', hcc⟩ := rel_of_mem (hlike.blocks k b _ hk hb hb').branches (Array.mem_toList_iff.2 hc)
    exact hcc.2.2.2.2

theorem numbered_of_paired (h : r.pairing.Paired s t) (hfinal : s.program = r.final) : r.last.Numbered := by
  obtain ⟨f, f', hf, -, hlike⟩ := h.program.home
  rw [hfinal] at hf
  cases hf.symm.trans r.last_eq
  exact hlike.numbered

end Done

end Replay
end Lowering
