import Lowering.Proofs.WholeBlocks

/-!
The lowering of an implementation, completed or not, changes nothing that was there before it but the
function that is listed under the name of the implementation.
-/
namespace Lowering

/-- Functions that are listed are there, and every function has a cursor of its own. -/
structure Program.Wired (p : Program) : Prop where
  listed : ∀ e ∈ p.funcTable, ∃ f : Func, p.funcs[e.2]? = some f
  cursors : ∀ (i : Nat) (f : Func), p.funcs[i]? = some f →
    ∃ c : Cursor, p.cursors[f.cursor]? = some c ∧ c.func = i

theorem Program.Sound.wired {p : Program} (hp : p.Sound) : p.Wired where
  listed e he := by
    obtain ⟨f, hf, -⟩ := hp.table he
    exact ⟨f, hf⟩
  cursors := hp.cursors

namespace Lower

open Emit

variable {s t s' t' : State} {i f : Nat} {g : Func}

/-- The name of an implementation in the output program, if it has one. -/
def fullName? (s : State) (i : Nat) : Option String :=
  match fullName (s.impls[i]?.getD default) s with
  | .ok name _ => some name
  | .error .. => none

/-- The place of the function of an implementation: where one is listed under its name, or else the next. -/
def home (s : State) (i : Nat) : Nat :=
  ((fullName? s i).bind (Program.lookup s.program.funcTable)).getD s.program.funcs.size

section Opening

/-- The tables of a program are only added to. -/
def listing (p : Program) : Regime where
  Holds s := p.Adds s.program
  Room _ := True
  Loose _ := True

instance (p : Program) : (listing p).Still where

instance (p : Program) : (listing p).Requests := ⟨fun x => heeds_build_of_adds (R := listing p) (fun hs h => hs.trans h) x⟩

instance (p : Program) (i : Nat) : Heeds (listing p) (declare i) := heeds_declare fun _ hs => hs

theorem declare_adds (i : Nat) (s : State) : s.program.Adds (leftBy (declare i s)).program :=
  ((inferInstance : Heeds (listing s.program) (declare i)).agree.left rfl not_false (.refl _)).2.1

theorem definitionName_congr {d : Nat} {base : String} (hd : t.definitions = s.definitions)
    (h : definitionName d t = .ok base t') : t' = t ∧ definitionName d s = .ok base s := by
  rw [definitionName, get_bind_run, hd] at h
  rw [definitionName, get_bind_run]
  cases hform : (s.definitions[d]?.getD default).node.form <;> rw [hform] at h
  case functionDef =>
    obtain ⟨text, t1, htext, hlast⟩ := bind_eq_ok.1 h
    obtain ⟨rfl, rfl⟩ := pure_eq_ok.1 hlast
    obtain ⟨hrequired, rfl⟩ := lift_eq_ok.1 htext
    exact ⟨rfl, bind_eq_ok.2 ⟨text, s, lift_eq_ok.2 ⟨hrequired, rfl⟩, rfl⟩⟩
  all_goals exact absurd h throw_ne_ok

/-- The name of an implementation depends on the definitions only. -/
theorem fullName_congr {m : Impl} {name : String} (hd : t.definitions = s.definitions)
    (h : fullName m t = .ok name t') : t' = t ∧ fullName m s = .ok name s := by
  unfold fullName at h ⊢
  cases hm : m.parent with
  | none =>
    rw [hm] at h
    cases hc : m.convention <;> rw [hc] at h <;> exact absurd h throw_ne_ok
  | some d =>
    rw [hm] at h
    have hnamed (ending : String)
        (hending : (do return (← definitionName d) ++ ending : Emit String) t = .ok name t') :
        t' = t ∧ (do return (← definitionName d) ++ ending : Emit String) s = .ok name s := by
      obtain ⟨base, t1, hbase, hlast⟩ := bind_eq_ok.1 hending
      obtain ⟨rfl, rfl⟩ := pure_eq_ok.1 hlast
      obtain ⟨rfl, hbase'⟩ := definitionName_congr hd hbase
      exact ⟨rfl, bind_eq_ok.2 ⟨base, s, hbase', rfl⟩⟩
    cases hc : m.convention <;> rw [hc] at h
    case none => exact absurd h throw_ne_ok
    all_goals exact hnamed _ h

/-- The function that has been declared for an implementation is there, with a cursor of its own, and at the
place where one was listed under the name of the implementation, if there was one. -/
theorem declare_home (hs : s.program.Wired) (ht : t.program = s.program) (hi : t.impls = s.impls)
    (hd : t.definitions = s.definitions) (h : declare i t = .ok f t') :
    f = home s i ∧ s.program.Adds t'.program ∧ t'.lowerer = t.lowerer ∧ t'.tree = t.tree ∧
      (t'.impls[i]?.getD default).code = some f ∧
      ∃ (g : Func) (c : Cursor), t'.program.funcs[f]? = some g ∧ t'.program.cursors[g.cursor]? = some c ∧
        c.func = f := by
  have hadds : s.program.Adds t'.program := by
    have hadds := declare_adds i t
    rwa [h, ht] at hadds
  unfold declare at h
  obtain ⟨m, t1, hm, hafter⟩ := bind_eq_ok.1 h
  obtain ⟨rfl, rfl⟩ := pure_eq_ok.1 hm
  obtain ⟨params, t2, hparams, hnaming⟩ := bind_eq_ok.1 hafter
  obtain ⟨rfl, ⟨ending, hsigned⟩, -⟩ := signature_eq_ok (P := fun _ => True) (fun _ _ _ => trivial) hparams
  obtain ⟨name, t3, hname, htyping⟩ := bind_eq_ok.1 hnaming
  obtain ⟨rfl, hfull⟩ := fullName_congr hd hname
  obtain ⟨result, t4, hresult, hlisting⟩ := bind_eq_ok.1 htyping
  obtain ⟨p, hobject, rfl⟩ := build_eq_ok.1 hresult
  obtain ⟨rfl, -⟩ := Program.Settled.ok_of_ok rfl rfl hobject
  obtain ⟨f, t5, hfunc, hending⟩ := bind_eq_ok.1 hlisting
  obtain ⟨q, hrequest, rfl⟩ := build_eq_ok.1 hfunc
  obtain ⟨_, t6, hcode, hlast⟩ := bind_eq_ok.1 hending
  cases hcode
  obtain ⟨rfl, rfl⟩ := pure_eq_ok.1 hlast
  have hname? : fullName? s i = some name := by rw [fullName?, ← hi, hfull]
  obtain ⟨m, hm⟩ : ∃ m, t3.impls[i]? = some m := by
    cases hm : t3.impls[i]? with
    | some m => exact ⟨m, rfl⟩
    | none =>
      rw [hm] at hsigned
      cases hsigned
  refine ⟨?_, hadds, rfl, rfl, ?_, ?_⟩
  · rw [home, hname?, ← ht]
    rcases Program.func_eq_ok.1 hrequest with ⟨hlisted, -⟩ | ⟨hnone, rfl, -⟩
    · rw [Option.bind_some, show Program.lookup t3.program.funcTable name = some f from hlisted]
      rfl
    · rw [Option.bind_some, show Program.lookup t3.program.funcTable name = none from hnone]
      rfl
  · change ((t3.impls.modify i _)[i]?.getD default).code = _
    rw [Array.getElem?_modify, if_pos rfl, hm]
    rfl
  · rcases Program.func_eq_ok.1 hrequest with ⟨hlisted, rfl⟩ | ⟨-, rfl, rfl⟩
    · obtain ⟨g, hg⟩ := hs.listed (name, f) (Program.mem_of_lookup (ht ▸ hlisted))
      obtain ⟨c, hc, hfunc⟩ := hs.cursors f g hg
      exact ⟨g, c, ht ▸ hg, ht ▸ hc, hfunc⟩
    · exact ⟨_, { func := t3.program.funcs.size }, Array.getElem?_push_size, Array.getElem?_push_size, rfl⟩

theorem enter_within {c : Cursor} (hg : s.program.funcs[f]? = some g) (hc : s.program.cursors[g.cursor]? = some c)
    (hfunc : c.func = f) : ∃ entry content s', enter f s = .ok (entry, content) s' ∧ entry.func = f ∧
      s.program.Framed f s'.program ∧ s'.cursor = g.cursor ∧ s'.lowerer = s.lowerer ∧ s'.tree = s.tree ∧
      s'.impls = s.impls ∧ (∃ g' : Func, s'.program.funcs[f]? = some g' ∧ g'.cursor = g.cursor) ∧
      ∃ c' : Cursor, s'.program.cursors[g.cursor]? = some c' ∧ c'.func = f ∧ ∀ r, c'.block = some r → r.func = f := by
  have hhead : ∀ (label : Option String) (g : Func), g.SameHead (g.addBlock label) := fun _ _ =>
    ⟨rfl, rfl, rfl, rfl, rfl, rfl⟩
  obtain ⟨s1, h1, hs1⟩ : ∃ s1, addBlock f (some "Entry block") s = .ok ⟨f, g.blocks.size⟩ s1 ∧
      s1 = s.withProgram (s.program.mapFunc f (·.addBlock (some "Entry block"))) :=
    ⟨_, addBlock_eq_ok.2 ⟨by rw [hg]; rfl, rfl⟩, rfl⟩
  have hg1 : s1.program.funcs[f]? = some (g.addBlock (some "Entry block")) := by
    rw [hs1]
    exact Program.getElem?_mapFunc_self hg
  have hhere : { s1 with cursor := g.cursor }.here = c := by
    rw [hs1]
    exact congrArg (·.getD default) hc
  obtain ⟨n, s3, h3, hs3⟩ : ∃ n s3, createBlock none { s1 with cursor := g.cursor } = .ok ⟨f, n⟩ s3 ∧
      s3 = { s1 with cursor := g.cursor }.withProgram (s1.program.mapFunc f (·.addBlock none)) :=
    ⟨_, _, createBlock_eq_ok.2 ⟨by rw [hhere, hfunc], rfl⟩, by rw [hhere, hfunc]⟩
  refine ⟨⟨f, g.blocks.size⟩, ⟨f, n⟩, s3.withProgram { s3.program with
    cursors := s3.program.cursors.modify s3.cursor fun c => { c with block := some ⟨f, n⟩ } }, ?_, rfl, ?_, ?_⟩
  · rw [enter, bind_run_of_ok h1, get_bind_run, hg1]
    exact bind_eq_ok.2 ⟨(), _, rfl, bind_eq_ok.2 ⟨_, s3, h3, bind_eq_ok.2 ⟨(), _, moveTo_eq_ok.2 rfl, rfl⟩⟩⟩
  · have hfirst : s.program.Framed f s1.program := hs1 ▸ Program.framed_mapFunc s.program (hhead _)
    have hsecond : s1.program.Framed f s3.program := hs3 ▸ Program.framed_mapFunc s1.program (hhead _)
    exact hfirst.trans (hsecond.trans (Program.framed_cursors _ _))
  · subst hs3 hs1
    refine ⟨rfl, rfl, rfl, rfl, ?_, { c with block := some ⟨f, n⟩ }, ?_, hfunc, fun r hr => ?_⟩
    · exact ⟨_, Program.getElem?_mapFunc_self hg1, rfl⟩
    · change (s.program.cursors.modify g.cursor _)[g.cursor]? = _
      rw [Array.getElem?_modify, if_pos rfl, hc]
      rfl
    · cases hr
      rfl

end Opening

/-- What follows once the function of an implementation has been opened. -/
def body (i : Nat) : Emit Unit := do
  bindParameters i
  let impl ← implOf i
  match impl.parent with
  | some d => visit ((← get).definitions[d]?.getD default).node
  | none => throw .noParentFunction
  let f := (← get).tree
  setBlock f.entry
  branch f.content
  closeBlocks

instance {home : Home} {p : Program} (i : Nat) : Heeds (framing home p) (body i) := by
  have hend : Heeds (framing home p) (do
      let f := (← get).tree
      setBlock f.entry
      branch f.content
      closeBlocks : Emit Unit) := by
    refine ⟨.get_bind fun s hs => ?_⟩
    have hentry : Inside (framing home p) s.tree.entry := ⟨hs.1.entry⟩
    exact Agrees.agree
  refine ⟨.bind (Agrees.agree : Agree _ (bindParameters i) _ _) fun _ _ => ?_⟩
  refine .bind (Agrees.agree : Agree _ (implOf i) _ _) fun impl _ => ?_
  dsimp only
  split
  · exact Agrees.agree
  · exact Agrees.agree

theorem lowerImpl_run (i : Nat) (s : State) : lowerImpl i s =
    (declare i >>= fun f => enter f >>= fun e => get >>= fun t =>
      modifyTree (fun f => { f with entry := e.1, content := e.2, cursor := t.cursor }) >>= fun _ => body i)
      { s with lowerer := .tree, tree := { impl := i, scope := (s.impls[i]?.getD default).scope } } := by
  simp only [lowerImpl, start, openFunction, bind_assoc]
  rfl

/-- Nothing that was there before the lowering of an implementation has changed after it, completed or not,
but the function listed under the name of the implementation: what the tables listed they list at the same
places, and functions keep their numbers, names and signatures, all but that one also their code. The table
of variables may only have lost an entry if it had taken the name of a constant to come. -/
theorem lowering_framed {s : State} (hs : s.program.Wired) (i : Nat) :
    s.program.Framed (home s i) (leftBy (lowerImpl i s)).program := by
  rw [lowerImpl_run]
  generalize ht : { s with
    lowerer := .tree, tree := { impl := i, scope := (s.impls[i]?.getD default).scope } } = t
  have hprogram : t.program = s.program := by rw [← ht]
  cases hdeclare : declare i t with
  | error e t₁ =>
    have hadds := declare_adds i t
    rw [hdeclare, hprogram] at hadds
    rw [bind_eq_error.2 (.inl hdeclare)]
    exact hadds.framed
  | ok f t₁ =>
    obtain ⟨rfl, hadds, hlowerer, htree, hcode, g, c, hg, hc, hfunc⟩ :=
      declare_home hs hprogram (by rw [← ht]) (by rw [← ht]) hdeclare
    obtain ⟨entry, content, t₂, henter, hentry, hframed, hcursor, hlowerer₂, htree₂, himpls, hfunc₂, hplace⟩ :=
      enter_within hg hc hfunc
    rw [bind_run_of_ok hdeclare, bind_run_of_ok henter, get_bind_run]
    have hwithin : State.Within ⟨home s i, g.cursor⟩
        { t₂ with tree := { t₂.tree with entry := entry, content := content, cursor := t₂.cursor } } := by
      refine ⟨?_, hcursor, hentry, ?_, hfunc₂, hplace⟩
      · rw [hlowerer₂, hlowerer, ← ht]
      · rw [himpls, htree₂, htree, ← ht]
        exact hcode
    obtain ⟨-, hbody, -⟩ := Frames.confined (x := body i) _ hwithin
    exact hadds.framed.trans (hframed.trans hbody)

/-- A function of one parameter. -/
def unaryNode (body : List Node) : Node :=
  .mk {} (.functionDef "f" (.mk {} (.arguments (.group []) (.group [.mk {} (.arg "x" .absent)]) .absent
    (.group []) (.group []) .absent (.group []))) (.group body) (.group []) .absent)

/-- A compiler that is to lower a function of one parameter. -/
def unaryState : State := leftBy (Compile.newDefinition (unaryNode []) Compile.ready)

/-- A compiler that knows a function of the run-time library and is to lower a function that asserts its
argument. -/
def assertingState : State :=
  leftBy ((do
    discard (external "PyErr_Print" .void [])
    discard (Compile.newDefinition (unaryNode [.mk {} (.assert (.mk {} (.name "x" (some .load))) .absent)]))
    : Emit Unit) Compile.ready)

theorem sound_assertingState : assertingState.program.Sound := by
  have hprogram : assertingState.program =
      leftBy (Program.func "PyErr_Print" .void [] externalLinkage Compile.ready.program) := rfl
  rw [hprogram]
  cases hname : Program.lookup Compile.ready.program.funcTable "PyErr_Print" with
  | some i =>
    rw [Program.func_eq_ok.2 (.inl ⟨hname, rfl⟩)]
    exact Compile.sound_ready
  | none =>
    have hfunc : Program.func "PyErr_Print" .void [] externalLinkage Compile.ready.program = .ok _ _ :=
      Program.func_eq_ok.2 (.inr ⟨hname, rfl, rfl⟩)
    rw [hfunc]
    exact (Program.Request.extends_of_ok hfunc Compile.sound_ready).1

/-- An assertion fails to be lowered when the code before it has been written. -/
theorem asserting_framed : assertingState.program.Wired ∧ assertingState.program.Unclaimed ∧
    (assertingState.program.funcs[0]?.map (·.name)) = some "PyErr_Print" ∧
    completes (lowerImpl 0 assertingState) = false ∧ home assertingState 0 = 1 ∧
    assertingState.program.Framed (home assertingState 0) (leftBy (lowerImpl 0 assertingState)).program := by
  have hsound := sound_assertingState
  exact ⟨hsound.wired, hsound.constants, by decide +kernel, by decide +kernel, by decide +kernel,
    lowering_framed hsound.wired 0⟩

/-- A compiler that has a variable under the name of the first constant, and is to lower a function. -/
def claimedState : State :=
  leftBy ((do
    discard (build (Program.addGlobal { name := Program.constantName 0, type := .int8Ptr }))
    discard (Compile.newDefinition (unaryNode []))
    : Emit Unit) Compile.ready)

/-- The variable gives way to that of the constant: the tables are not only extended. -/
theorem claimed_variable_lost : claimedState.program.Wired ∧
    completes (lowerImpl 0 claimedState) = true ∧
    Program.lookup claimedState.program.globalTable (Program.constantName 0) = some 8 ∧
    Program.lookup (leftBy (lowerImpl 0 claimedState)).program.globalTable (Program.constantName 0) = some 9 := by
  have hfuncs : claimedState.program.funcs = Compile.ready.program.funcs := rfl
  have htable : claimedState.program.funcTable = Compile.ready.program.funcTable := rfl
  refine ⟨⟨fun e he => ?_, by simp [hfuncs, Compile.funcs_ready]⟩, by decide +kernel, by decide +kernel,
    by decide +kernel⟩
  rw [htable] at he
  obtain ⟨f, hf, -⟩ := Compile.sound_ready.table he
  simp [Compile.funcs_ready] at hf

end Lower
end Lowering
