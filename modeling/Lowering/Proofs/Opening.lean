import Lowering.Proofs.Follows.Tree
import Lowering.Proofs.Linking

/-!
How a function is opened. Its name is made from that of the definition and the way it is called, the
tables give the function of that name, and two blocks are added to it; code goes to the second.
-/
namespace Lowering.Lower

open Emit

variable {s s' : State} {i f : Nat} {g : Func}

/-- What a way of calling adds to the name of a function, and how many arguments it passes. -/
inductive Signed : Convention → String → Nat → Prop
  | tuple : Signed .tuple "@tp@" 3
  | vector : Signed .vector "@vec@" 4

theorem Signed.arity {c : Convention} {ending : String} {n : Nat} (h : Signed c ending n)
    (name : String) : Arity ("@global@module@" ++ name ++ ending) n := by
  cases h with
  | tuple => exact .byTuple name
  | vector => exact .byVector name

theorem Signed.three_le {c : Convention} {ending : String} {n : Nat} (h : Signed c ending n) : 3 ≤ n := by
  cases h <;> decide

theorem signature_eq_ok {m : Impl} {ts : List MachineType} {P : Int → Prop}
    (hP : ∀ (i : Nat) (d : StructDef), s.program.structs[i]? = some d → P d.id) (h : signature m s = .ok ts s') :
    s' = s ∧ (∃ ending, Signed m.convention ending ts.length) ∧ ∀ t ∈ ts, t.Within P := by
  unfold signature at h
  cases hc : m.convention <;> rw [hc] at h
  case tuple =>
    obtain ⟨ptr, s1, hptr, hlast⟩ := bind_eq_ok.1 h
    obtain ⟨rfl, rfl⟩ := pure_eq_ok.1 hlast
    obtain ⟨p, hobject, rfl⟩ := build_eq_ok.1 hptr
    obtain ⟨rfl, -⟩ := Program.Settled.ok_of_ok rfl rfl hobject
    have hwithin := Program.Yields.within hP hobject
    exact ⟨rfl, ⟨_, .tuple⟩, by simp [hwithin]⟩
  case vector =>
    obtain ⟨p, hts, rfl⟩ := build_eq_ok.1 h
    have hwithin := Program.vectorParams_within hP hts
    obtain ⟨ptr, p1, hptr, hlast⟩ := bind_eq_ok.1 hts
    obtain ⟨rfl, rfl⟩ := pure_eq_ok.1 hlast
    obtain ⟨rfl, -⟩ := Program.Settled.ok_of_ok rfl rfl hptr
    exact ⟨rfl, ⟨_, .vector⟩, hwithin⟩
  all_goals exact absurd h throw_ne_ok

/-- The name that a definition of a function has in the source. -/
def definedName (d : Definition) : Option String :=
  match d.node.form with
  | .functionDef name .. => name.text?
  | _ => none

/-- The name that a function is listed under: that of the definition, and a mark for the way of calling. -/
def Named (s : State) (m : Impl) (name : String) : Prop :=
  ∃ ending n d base, Signed m.convention ending n ∧ m.parent = some d ∧
    definedName (s.definitions[d]?.getD default) = some base ∧
    name = "@global@module@" ++ base ++ ending

theorem definitionName_eq_ok {d : Nat} {base : String} (h : definitionName d s = .ok base s') :
    s' = s ∧ ∃ name, definedName (s.definitions[d]?.getD default) = some name ∧ base = "@global@module@" ++ name := by
  unfold definitionName at h
  rw [get_bind_run] at h
  cases hform : (s.definitions[d]?.getD default).node.form <;> rw [hform] at h
  case functionDef label _ _ _ _ =>
    obtain ⟨name, s1, hname, hlast⟩ := bind_eq_ok.1 h
    obtain ⟨rfl, rfl⟩ := pure_eq_ok.1 hlast
    obtain ⟨hrequired, hs⟩ := lift_eq_ok.1 hname
    refine ⟨hs, name, ?_, rfl⟩
    rw [definedName, hform]
    cases htext : label.text? <;> simp [Label.required, htext] at hrequired
    simpa [htext] using hrequired
  all_goals exact absurd h throw_ne_ok

theorem fullName_eq_ok {m : Impl} {name ending : String} {n : Nat} (hc : Signed m.convention ending n)
    (h : fullName m s = .ok name s') :
    s' = s ∧ ∃ d base, m.parent = some d ∧ definedName (s.definitions[d]?.getD default) = some base ∧
      name = "@global@module@" ++ base ++ ending := by
  unfold fullName at h
  generalize m.convention = c at hc h
  cases hc
  all_goals
    simp only [pure_bind] at h
    cases hd : m.parent <;> rw [hd] at h
    case none => exact absurd h throw_ne_ok
    case some d =>
      obtain ⟨base, s1, hbase, hlast⟩ := bind_eq_ok.1 h
      obtain ⟨rfl, rfl⟩ := pure_eq_ok.1 hlast
      obtain ⟨rfl, text, htext, rfl⟩ := definitionName_eq_ok hbase
      exact ⟨rfl, d, text, rfl, htext, rfl⟩

/-- A function that is new to a program: its name was free, and it gives an object. -/
structure New (p : Program) (g : Func) : Prop where
  declared : g.Declared
  unlisted : Program.lookup p.funcTable g.name = none
  result : Program.objectPtr p = .ok g.result p

/-- A function has been declared for an implementation. -/
structure Declares (i f : Nat) (g : Func) (s s' : State) : Prop where
  sound : s'.program.Sound
  grown : s.program.Grown s'.program
  before : s.program.funcs[f]? = some g ∨ New s.program g
  others : ∀ (j : Nat) (g' : Func), j ≠ f → s'.program.funcs[j]? = some g' → s.program.funcs[j]? = some g'
  object : ∃ type, Program.objectPtr s.program = .ok type s.program
  lawful : ∀ {P : Int → Prop}, s.program.Lawful Arity P → s'.program.Lawful Arity P
  func : s'.program.funcs[f]? = some g
  /-- The function is the one that is listed under the name of the implementation. -/
  named : Named s (s.impls[i]?.getD default) g.name
  rest : s' = { s with
    program := s'.program
    impls := s.impls.modify i fun m => { m with code := some f } }

theorem declare_eq_ok (hs : s.program.Sound) (h : declare i s = .ok f s') : ∃ g, Declares i f g s s' := by
  unfold declare at h
  obtain ⟨m, s1, hm, h⟩ := bind_eq_ok.1 h
  obtain ⟨rfl, rfl⟩ := pure_eq_ok.1 hm
  obtain ⟨params, s2, hparams, h⟩ := bind_eq_ok.1 h
  obtain ⟨rfl, ⟨ending, hsigned⟩, -⟩ := signature_eq_ok (P := fun _ => True) (fun _ _ _ => trivial) hparams
  obtain ⟨name, s3, hname, h⟩ := bind_eq_ok.1 h
  obtain ⟨rfl, d, base, hd, hbase, rfl⟩ := fullName_eq_ok hsigned hname
  obtain ⟨result, s4, hresult, h⟩ := bind_eq_ok.1 h
  obtain ⟨p, hobject, rfl⟩ := build_eq_ok.1 hresult
  obtain ⟨rfl, hsettled⟩ := Program.Settled.ok_of_ok rfl rfl hobject
  obtain ⟨f, s5, hfunc, h⟩ := bind_eq_ok.1 h
  obtain ⟨p, hrequest, rfl⟩ := build_eq_ok.1 hfunc
  obtain ⟨_, s6, hcode, h⟩ := bind_eq_ok.1 h
  cases hcode
  obtain ⟨rfl, rfl⟩ := pure_eq_ok.1 h
  obtain ⟨hp, hgrown⟩ := Program.Request.extends_of_ok hrequest hs
  obtain ⟨g, hg, hgname⟩ := Program.func_named hs hrequest
  have hkept : ∀ j g', p.funcs[j]? = some g' → s3.program.funcs[j]? = some g' ∨ j = f ∧ New s3.program g' := by
    intro j g' hg'
    rcases Program.func_eq_ok.1 hrequest with ⟨-, rfl⟩ | ⟨hnone, rfl, rfl⟩
    · exact .inl hg'
    · refine (Program.funcs_withFunc hg').imp_right ?_
      rintro ⟨rfl, rfl⟩
      exact ⟨rfl, ⟨rfl, List.size_toArray.symm⟩, hnone, hsettled⟩
  refine ⟨g, hp, hgrown, (hkept f g hg).imp_right And.right,
    fun j g' hj hg' => (hkept j g' hg').resolve_right fun h => hj h.1, ⟨_, hsettled⟩, fun hlawful => ?_, hg,
    ⟨ending, _, d, base, hsigned, hd, hbase, hgname⟩, rfl⟩
  refine hlawful.func (fun k hk => (hsigned.arity base).unique hk)
    (Program.Yields.within hlawful.structs hobject) ?_ hrequest
  exact (signature_eq_ok hlawful.structs hparams).2.2

def entered (g : Func) : Func := (g.addBlock (some "Entry block")).addBlock none

/-- The first two blocks of a function have been added, and code goes to the second. -/
structure Enters (f : Nat) (g : Func) (s s' : State) : Prop where
  sound : s'.program.Sound
  grown : s.program.Grown s'.program
  lawful : ∀ {P : Int → Prop}, s.program.Lawful Arity P → s'.program.Lawful Arity P
  home : s'.program.funcs[f]? = some (entered g)
  others : ∀ j : Nat, j ≠ f → s'.program.funcs[j]? = s.program.funcs[j]?
  stands : ∃ c : Cursor, s'.program.cursors[g.cursor]? = some c ∧ c.func = f ∧
    c.block = some ⟨f, g.blocks.size + 1⟩
  rest : s' = { s with program := s'.program, cursor := g.cursor }

theorem enter_eq_ok {entry content : BlockRef} (hs : s.program.Sound)
    (hg : s.program.funcs[f]? = some g) (h : enter f s = .ok (entry, content) s') :
    Enters f g s s' ∧ entry = ⟨f, g.blocks.size⟩ ∧ content = ⟨f, g.blocks.size + 1⟩ := by
  unfold enter at h
  obtain ⟨e, s1, h1, h⟩ := bind_eq_ok.1 h
  obtain ⟨hsound1, hgrown1⟩ := Grows.extends_of_ok h1 hs
  obtain ⟨he, hs1⟩ := addBlock_eq_ok.1 h1
  have hg1 : s1.program.funcs[f]? = some (g.addBlock (some "Entry block")) := by
    rw [hs1]
    exact Program.getElem?_mapFunc_self hg
  rw [get_bind_run] at h
  simp only [hg1, Option.map_some, Option.getD_some] at h
  obtain ⟨_, s2, h2, h⟩ := bind_eq_ok.1 h
  have hs2 : s2 = { s1 with cursor := g.cursor } := by
    cases h2
    rfl
  obtain ⟨r, s3, h3, h⟩ := bind_eq_ok.1 h
  obtain ⟨hsound3, hgrown3⟩ := Grows.extends_of_ok h3 (hs2 ▸ hsound1)
  obtain ⟨hr, hs3⟩ := createBlock_eq_ok.1 h3
  obtain ⟨c, hc, hfunc⟩ := hs.cursors f g hg
  have hhere : s2.here = c := by
    rw [hs2, hs1, State.here]
    exact congrArg (·.getD default) hc
  obtain ⟨_, s4, h4, h⟩ := bind_eq_ok.1 h
  obtain ⟨hsound4, hgrown4⟩ := Grows.extends_of_ok h4 hsound3
  have hs4 := moveTo_eq_ok.1 h4
  obtain ⟨hlast, rfl⟩ := pure_eq_ok.1 h
  obtain ⟨rfl, rfl⟩ := Prod.mk.inj hlast
  rw [hhere, hfunc] at hr hs3
  have hcontent : content = ⟨f, g.blocks.size + 1⟩ := by
    rw [hr, hs2, hg1]
    simp [Func.addBlock]
  have hs' : s' = { s with
      program := { (s.program.mapFunc f (·.addBlock (some "Entry block"))).mapFunc f (·.addBlock none) with
        cursors := s.program.cursors.modify g.cursor fun c => { c with block := some content } }
      cursor := g.cursor } := by
    rw [hs4, hs3, hs2, hs1]
    rfl
  have hgrown : s.program.Grown s'.program :=
    hgrown1.trans ((congrArg State.program hs2 ▸ hgrown3).trans hgrown4)
  refine ⟨⟨hsound4, hgrown, fun hlawful => hlawful.of_grown hgrown ?_ ?_, ?_, fun j hj => ?_, ?_, ?_⟩,
    ?_, hcontent⟩
  · simp [hs', Program.mapFunc]
  · rw [hs']
    rfl
  · rw [hs']
    exact Program.getElem?_mapFunc_self (Program.getElem?_mapFunc_self hg)
  · rw [hs']
    simp only [Program.getElem?_mapFunc, if_neg (Ne.symm hj)]
  · refine ⟨{ c with block := some content }, ?_, hfunc, by rw [hcontent]⟩
    simp [hs', Array.getElem?_modify, hc]
  · rw [hs']
  · rw [he, hg]
    rfl

/-- A function has been opened for an implementation, beginning from a state; its code is still to come. -/
structure Opened (i f : Nat) (g : Func) (s t : State) : Prop where
  sound : t.program.Sound
  grown : s.program.Grown t.program
  lawful : ∀ {P : Int → Prop}, s.program.Lawful Arity P → t.program.Lawful Arity P
  before : s.program.funcs[f]? = some g ∨ New s.program g
  object : ∃ type, Program.objectPtr s.program = .ok type s.program
  named : Named s (s.impls[i]?.getD default) g.name
  home : t.program.funcs[f]? = some (entered g)
  others : ∀ (j : Nat) (g' : Func), j ≠ f → t.program.funcs[j]? = some g' → s.program.funcs[j]? = some g'
  cursor : t.cursor = g.cursor
  stands : ∃ c : Cursor, t.program.cursors[g.cursor]? = some c ∧ c.func = f ∧
    c.block = some ⟨f, g.blocks.size + 1⟩
  impls : t.impls = s.impls.modify i fun m => { m with code := some f }
  scopes : t.scopes = s.scopes
  definitions : t.definitions = s.definitions
  files : t.files = s.files ∧ t.fileTable = s.fileTable
  reports : t.reports = s.reports

theorem openFunction_opened {entry content : BlockRef} (hs : s.program.Sound)
    (h : openFunction i s = .ok (entry, content) s') :
    ∃ f g, Opened i f g s s' ∧ entry = ⟨f, g.blocks.size⟩ ∧ content = ⟨f, g.blocks.size + 1⟩ ∧
      s'.lowerer = s.lowerer ∧ s'.tree = s.tree ∧ s'.stack = s.stack := by
  obtain ⟨f, s1, hdeclare, henter⟩ := bind_eq_ok.1 h
  obtain ⟨g, hd⟩ := declare_eq_ok hs hdeclare
  obtain ⟨he, hentry, hcontent⟩ := enter_eq_ok hd.sound hd.func henter
  have hrest := he.rest
  rw [hd.rest] at hrest
  refine ⟨f, g, ⟨he.sound, hd.grown.trans he.grown, fun hp => he.lawful (hd.lawful hp),
    hd.before, hd.object, hd.named, he.home, fun j g' hj hg' => ?_, ?_, he.stands, ?_, ?_, ?_, ?_,
    ?_⟩, hentry, hcontent, ?_, ?_, ?_⟩
  · exact hd.others j g' hj (he.others j hj ▸ hg')
  · rw [hrest]
  · rw [hrest]
  · rw [hrest]
  · rw [hrest]
  · rw [hrest]
    exact ⟨rfl, rfl⟩
  all_goals rw [hrest]

section Named

variable {type : MachineType} {m : Impl} {name : String}

theorem definitionName_of_definedName {d : Nat} {base : String}
    (h : definedName (s.definitions[d]?.getD default) = some base) :
    definitionName d s = .ok ("@global@module@" ++ base) s := by
  unfold definitionName
  rw [get_bind_run]
  unfold definedName at h
  cases hform : (s.definitions[d]?.getD default).node.form <;> rw [hform] at h
  case functionDef label _ _ _ _ =>
    refine bind_eq_ok.2 ⟨base, s, lift_eq_ok.2 ⟨?_, rfl⟩, rfl⟩
    simp [Label.required, h]
  all_goals cases h

theorem fullName_of_named (h : Named s m name) : fullName m s = .ok name s := by
  obtain ⟨ending, n, d, base, hsigned, hparent, hbase, rfl⟩ := h
  unfold fullName
  rw [hparent]
  generalize m.convention = c at hsigned
  have hname := definitionName_of_definedName hbase
  cases hsigned <;> exact bind_eq_ok.2 ⟨_, s, rfl, bind_eq_ok.2 ⟨_, s, hname, rfl⟩⟩

theorem signature_of_named (hobject : Program.objectPtr s.program = .ok type s.program) (h : Named s m name) :
    ∃ ts, signature m s = .ok ts s := by
  obtain ⟨ending, n, d, base, hsigned, -⟩ := h
  unfold signature
  generalize m.convention = c at hsigned
  cases hsigned with
  | tuple => exact ⟨_, bind_eq_ok.2 ⟨type, s, build_eq_ok.2 ⟨_, hobject, rfl⟩, rfl⟩⟩
  | vector => exact ⟨_, build_eq_ok.2 ⟨_, bind_eq_ok.2 ⟨type, _, hobject, rfl⟩, rfl⟩⟩

theorem openFunction_of_named (hobject : Program.objectPtr s.program = .ok type s.program)
    (h : Named s (s.impls[i]?.getD default) name) : ∃ blocks s', openFunction i s = .ok blocks s' := by
  obtain ⟨ts, hts⟩ := signature_of_named hobject h
  have hfunc : ∃ f p, Program.func name type ts internalLinkage s.program = .ok f p := by
    cases hfound : Program.lookup s.program.funcTable name with
    | some f => exact ⟨f, _, Program.func_eq_ok.2 (.inl ⟨hfound, rfl⟩)⟩
    | none => exact ⟨_, _, Program.func_eq_ok.2 (.inr ⟨hfound, rfl, rfl⟩)⟩
  obtain ⟨f, p, hfunc⟩ := hfunc
  have hptr : objectPtr s = .ok type s := build_eq_ok.2 ⟨_, hobject, rfl⟩
  have hdeclare : declare i s = .ok f { s with
      program := p
      impls := s.impls.modify i fun m => { m with code := some f } } :=
    bind_eq_ok.2 ⟨_, s, rfl, bind_eq_ok.2 ⟨ts, s, hts, bind_eq_ok.2 ⟨name, s, fullName_of_named h,
      bind_eq_ok.2 ⟨type, s, hptr, bind_eq_ok.2 ⟨f, _, build_eq_ok.2 ⟨p, hfunc, rfl⟩, rfl⟩⟩⟩⟩⟩
  exact ⟨_, _, bind_eq_ok.2 ⟨f, _, hdeclare, rfl⟩⟩

end Named

end Lowering.Lower
