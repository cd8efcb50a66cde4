import Lowering.Proofs.Passes
import Lowering.Proofs.Twins.Counterparts

/-!
The two passes over a function of a file. Whenever the first has been completed so is the second, and the
functions that they leave are counterparts.
-/
namespace Lowering.Compile

open Emit Twins

variable {s s₁ s₂ s₃ s' start : State} {file i d : Nat} {node : Node}

/-- The functions of definitions without parameters have not come to the greatest number that can be written.
There the function that is called with a vector counts one ahead of the other, since it has one argument more
and nothing to bind. -/
def Roomy (s : State) : Prop :=
  ∀ (i d f : Nat) (m : Impl) (g : Func), s.impls[i]? = some m → m.convention = .tuple → m.parent = some d →
    parametersOf (s.definitions[d]?.getD default).node = some [] → m.code = some f → s.program.funcs[f]? = some g →
    g.nextValue < 2 ^ 31

theorem impls_begun_getD (s : State) (i j : Nat) : ((begun s i).impls[j]?.getD default).convention =
    (s.impls[j]?.getD default).convention ∧ ((begun s i).impls[j]?.getD default).parent =
    (s.impls[j]?.getD default).parent ∧ ((begun s i).impls[j]?.getD default).code =
    (s.impls[j]?.getD default).code := by
  simp only [begun, Array.getElem?_modify]
  split <;> cases s.impls[j]? <;> exact ⟨rfl, rfl, rfl⟩

theorem Added.companions (h : Added file node s s₂) (heven : Even s.program)
    (hfirst : lowerOnce s.impls.size s₂ = .ok () s₃) :
    ∃ u, Companions s.impls.size (s.impls.size + 1) (begun s₂ s.impls.size) u (begun s₃ (s.impls.size + 1)) ∧
      s₃ = { u with lowerer := s₂.lowerer, cursor := s₂.cursor, tree := s₂.tree } := by
  obtain ⟨hpass, hstatus'⟩ := h.pass hfirst
  have hs3 : Waiting s₃ := Preserves.of_ok h.waiting hfirst
  obtain ⟨f, himpls3, hdefinitions3, hfiles3, htable3⟩ := hpass.impls h.waiting
  have hvector : s₃.impls[s.impls.size + 1]? =
      some { scope := s.scopes.size + 1, parent := some s.definitions.size, convention := .vector } := by
    rw [himpls3, Array.getElem?_modify, if_neg (by omega), h.vector]
  obtain ⟨hstatus, u, hu, rfl⟩ := hpass
  refine ⟨u, ⟨rested_begun h.waiting.rested _, rested_begun hs3.rested _, h.waiting.code_begun hstatus,
    hs3.code_begun hstatus', ?_, ?_, ?_, rfl, hdefinitions3, ⟨hfiles3, htable3⟩, ?_, hu⟩, rfl⟩
  · rw [(impls_begun_getD ..).1, h.tuple]
    rfl
  · rw [(impls_begun_getD ..).1, hvector]
    rfl
  · rw [(impls_begun_getD ..).2.1, (impls_begun_getD ..).2.1, hvector, h.tuple]
    rfl
  · exact h.program ▸ heven

/-- What the two passes over a function leave, which begin in one state and end in another each. -/
structure Twinned (n i j : Nat) (s s₁ s₂ : State) : Prop where
  /-- The functions have the same code up to the numbers of values. Of the blocks that have been added, the second
  binds the arguments first. -/
  funcs : ∃ (f f' : Nat) (g g' : Func), (s₂.impls[i]?.getD default).code = some f ∧
    (s₂.impls[j]?.getD default).code = some f' ∧ s₂.program.funcs[f]? = some g ∧ s₂.program.funcs[f']? = some g' ∧
    Counterparts (blockCount s.program f) n g g'
  /-- The variables are the same. -/
  names : variablesOf s₂ j = variablesOf s₁ i
  /-- The complaints about the source are the same. -/
  reports : ∃ more : List Report, s₁.reports.toList = s.reports.toList ++ more ∧
    s₂.reports.toList = s₁.reports.toList ++ more

/-- After the first pass over a function the second can be completed. -/
theorem Added.second_pass (h : Added file node s s₂) (heven : Even s.program)
    (hfirst : lowerOnce s.impls.size s₂ = .ok () s₃) (hroom : Roomy s₃) :
    ∃ s' params, parametersOf node = some params ∧ lowerOnce (s.impls.size + 1) s₃ = .ok () s' ∧ Even s'.program ∧
      Twinned params.length s.impls.size (s.impls.size + 1) s s₃ s' := by
  obtain ⟨u, hc, hs3⟩ := h.companions heven hfirst
  obtain ⟨hpass, hstatus⟩ := h.pass hfirst
  obtain ⟨f, himpls3, hdefinitions3, -⟩ := hpass.impls h.waiting
  have htuple : s₃.impls[s.impls.size]? =
      some { scope := s.scopes.size, parent := some s.definitions.size, convention := .tuple, status := 1,
             code := some f } := by
    rw [himpls3, Array.getElem?_modify, if_pos rfl, h.tuple]
    rfl
  have hnode : (s₂.definitions[s.definitions.size]?.getD default).node = node := by
    rw [h.definitions, Array.getElem?_push_size]
    rfl
  have hparent : ∀ d, ((begun s₂ s.impls.size).impls[s.impls.size]?.getD default).parent = some d →
      d = s.definitions.size := by
    intro d hd
    rw [(impls_begun_getD ..).2.1, h.tuple] at hd
    exact (Option.some.inj hd).symm
  have himpls : u.impls = s₃.impls := by rw [hs3]
  have hprogram : u.program = s₃.program := by rw [hs3]
  obtain ⟨m, g, g', params, q', t', he⟩ := hc.exists_ends fun f' last d hcode hlast hd hparams => by
    obtain rfl := hparent d hd
    rw [himpls, htuple] at hcode
    have hnone : parametersOf (s₃.definitions[s.definitions.size]?.getD default).node = some [] := by
      rw [hdefinitions3]
      exact hparams
    exact hroom _ _ f' _ last htuple rfl rfl hnone hcode (hprogram ▸ hlast)
  obtain ⟨d, hd, hparams⟩ := he.source
  obtain rfl := hparent d hd
  have hsecond := lowerOnce_of_ok hstatus he.completed
  obtain ⟨last, last', hlast, hlast', hcounterparts⟩ := he.exists_counterparts hc
  obtain ⟨hcode, hcode'⟩ := he.codes
  obtain ⟨f', hlowered⟩ := Lower.lowerImpl_lowered hc.rested' hc.code' he.completed
  refine ⟨_, params, hnode ▸ hparams, hsecond, he.even hc, ⟨m.home, m.home', last, last', ?_, hcode', hlast, hlast', ?_⟩,
    ?_, ?_⟩
  · have hkept : q'.impls[s.impls.size]? = s₃.impls[s.impls.size]? := by
      rw [hlowered.impls, Array.getElem?_modify, if_neg (by omega), begun]
      simp only [Array.getElem?_modify]
      rw [if_neg (by omega)]
    change (q'.impls[s.impls.size]?.getD default).code = some m.home
    rw [hkept, ← himpls]
    exact hcode
  · have hcount := blockCount_of_opened he.begins.opened he.begins.rested
    rw [← he.begins.first] at hcount
    rw [← h.program]
    exact hcount ▸ hcounterparts
  · refine he.variablesOf_eq.trans ?_
    rw [hs3]
    rfl
  · obtain ⟨more, hmore, hmore'⟩ := he.reports
    refine ⟨more, ?_, hmore'⟩
    rw [hs3, ← h.reports]
    exact hmore

theorem Pass.grown (hs : Waiting s) (h : Pass i s s') : s.program.Grown s'.program := by
  obtain ⟨hstatus, t, ht, rfl⟩ := h
  obtain ⟨f, hlowered⟩ := Lower.lowerImpl_lowered (rested_begun hs.rested i) (hs.code_begun hstatus) ht
  exact hlowered.grown

theorem Roomy.of_later (h : Roomy s') (hgrown : s.program.Grown s'.program)
    (himpls : ∀ (i : Nat) (m : Impl), s.impls[i]? = some m → m.convention = .tuple → s'.impls[i]? = some m)
    (hdefinitions : ∀ (d : Nat) (D : Definition), s.definitions[d]? = some D → s'.definitions[d]? = some D) :
    Roomy s := by
  intro i d f m g hm hconvention hparent hparams hcode hg
  obtain ⟨g', hg', hle⟩ := hgrown.funcs f g hg
  have hnone : parametersOf (s'.definitions[d]?.getD default).node = some [] := by
    cases hD : s.definitions[d]? with
    | none =>
      rw [hD] at hparams
      cases hparams
    | some D =>
      rw [hD] at hparams
      rwa [hdefinitions d D hD]
  exact Nat.lt_of_le_of_lt hle.nextValue (h i d f m g' (himpls i m hm hconvention) hconvention hparent hnone hcode hg')

theorem Added.roomy (h : Added file node s s₂) (hfirst : lowerOnce s.impls.size s₂ = .ok () s₃) (hroom : Roomy s₃) :
    Roomy s := by
  obtain ⟨hpass, -⟩ := h.pass hfirst
  obtain ⟨f, himpls3, hdefinitions3, -⟩ := hpass.impls h.waiting
  refine hroom.of_later (h.program ▸ hpass.grown h.waiting) (fun i m hm _ => ?_) fun d D hD => ?_
  · have hlt := (Array.getElem?_eq_some_iff.1 hm).1
    rw [himpls3, Array.getElem?_modify, if_neg (by omega), h.impls]
    exact Program.getElem?_push_of_some (Program.getElem?_push_of_some hm)
  · rw [hdefinitions3, h.definitions]
    exact Program.getElem?_push_of_some hD

theorem Added.roomy_second (h : Added file node s s₂) (hfirst : lowerOnce s.impls.size s₂ = .ok () s₃)
    (hsecond : lowerOnce (s.impls.size + 1) s₃ = .ok () s') (hroom : Roomy s') : Roomy s₃ := by
  obtain ⟨hpass, hstatus⟩ := h.pass hfirst
  have hs3 : Waiting s₃ := Preserves.of_ok h.waiting hfirst
  have hpass' : Pass (s.impls.size + 1) s₃ s' := pass_of_lowerOnce hstatus hsecond
  obtain ⟨f, himpls3, -⟩ := hpass.impls h.waiting
  obtain ⟨f', himpls', hdefinitions', -⟩ := hpass'.impls hs3
  refine hroom.of_later (hpass'.grown hs3) (fun i m hm hconvention => ?_) fun d D hD => hdefinitions' ▸ hD
  rw [himpls', Array.getElem?_modify, if_neg, hm]
  rintro rfl
  rw [himpls3, Array.getElem?_modify, if_neg (by omega), h.vector] at hm
  cases hm
  cases hconvention

/-- The functions of definitions come in twos after every round. -/
theorem compileFunction_even (hs : Waiting s) (heven : Roomy s → Even s.program)
    (h : compileFunction file node s = .ok () s') (hroom : Roomy s') : Even s'.program := by
  obtain ⟨s₁, s₂, s₃, -, -, hadded, hfirst, hsecond⟩ := compileFunction_eq_ok hs h
  have hroom3 := hadded.roomy_second hfirst hsecond hroom
  obtain ⟨t, -, -, hsecond', heven', -⟩ := hadded.second_pass (heven (hadded.roomy hfirst hroom3)) hfirst hroom3
  cases hsecond.symm.trans hsecond'
  exact heven'

instance (p : Program) (file : SourceFile) : Preserves (fun s => s.program = p) (newFile file) :=
  heeds_lasting fun hs h => by
    cases h
    exact hs

instance (p : Program) (i : Nat) : Preserves (fun s => s.program = p) (addFile i) :=
  heeds_lasting fun hs h => by
    cases h
    exact hs

instance (p : Program) (files : List SourceFile) : Preserves (fun s => s.program = p) (load files) := by
  unfold load
  infer_instance

theorem even_ready : Even ready.program := by
  have hnames : (ready.program.funcs.all fun g => g.name.toList.head? != some '@') = true := by decide +kernel
  have hnone : ∀ (f : Nat) (g : Func) (base ending : String), ready.program.funcs[f]? = some g →
      g.name ≠ "@global@module@" ++ base ++ ending := by
    intro f g base ending hg hname
    have hhead := Array.all_eq_true'.1 hnames g (Array.mem_of_getElem? hg)
    rw [hname, Arity.head_of_definition] at hhead
    cases hhead
  exact ⟨fun base f g hg hname => absurd hname (hnone f g base _ hg),
    fun base f g hg hname => absurd hname (hnone f g base _ hg)⟩

/-- What is done for one function of a file up to its first implementation. -/
def firstPass (file : Nat) (node : Node) : Emit Unit := do
  let i := (← get).impls.size
  addToFile file (← newDefinition node)
  lowerOnce i

/-- Whether an action is completed, in a state of some kind. -/
def endsIn (P : State → Bool) : EStateM.Result Fault State Unit → Bool
  | .ok _ s => P s
  | _ => false

theorem exists_of_endsIn {P : State → Bool} {r : EStateM.Result Fault State Unit} (h : endsIn P r = true) :
    ∃ s', r = .ok () s' ∧ P s' = true := by
  rcases r with ⟨_, s'⟩ | _
  · exact ⟨s', rfl, h⟩
  · cases h

end Lowering.Compile
