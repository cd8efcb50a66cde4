import Lowering.Proofs.Emission

/-!
What a request to the tables of a program leaves as it was, granted or not. Entries are only added at the
end. The table of variables is an exception: a constant is listed under a name that it takes without
looking, so a variable that has the name already gives way to it.
-/
namespace Lowering

/-- A function keeps its number, its name, its signature and its cursor. -/
structure Func.SameHead (f g : Func) : Prop where
  id : g.id = f.id
  name : g.name = f.name
  linkage : g.linkage = f.linkage
  params : g.params = f.params
  result : g.result = f.result
  cursor : g.cursor = f.cursor

theorem Func.SameHead.refl (f : Func) : f.SameHead f := ⟨rfl, rfl, rfl, rfl, rfl, rfl⟩

theorem Func.SameHead.trans {f g h : Func} (hfg : f.SameHead g) (hgh : g.SameHead h) : f.SameHead h :=
  ⟨hgh.id.trans hfg.id, hgh.name.trans hfg.name, hgh.linkage.trans hfg.linkage, hgh.params.trans hfg.params,
    hgh.result.trans hfg.result, hgh.cursor.trans hfg.cursor⟩

namespace Program

variable {α β : Type} {p q r : Program}

/-- The names of constants to come are not taken. -/
def Unclaimed (p : Program) : Prop :=
  ∀ k, p.constants.size ≤ k → lookup p.globalTable (constantName k) = none

/-- The tables have grown at their ends only. -/
structure Lists (p q : Program) : Prop where
  structs : q.structs = p.structs
  structTable : q.structTable = p.structTable
  known : q.known = p.known
  texts : q.texts = p.texts
  globals : p.globals.toList <+: q.globals.toList
  constants : p.constants.toList <+: q.constants.toList
  funcTable : p.funcTable.toList <+: q.funcTable.toList
  globalTable : p.Unclaimed → q.Unclaimed ∧ p.globalTable.toList <+: q.globalTable.toList

theorem Lists.refl (p : Program) : p.Lists p :=
  ⟨rfl, rfl, rfl, rfl, List.prefix_rfl, List.prefix_rfl, List.prefix_rfl, fun h => ⟨h, List.prefix_rfl⟩⟩

theorem Lists.trans (hpq : p.Lists q) (hqr : q.Lists r) : p.Lists r where
  structs := hqr.structs.trans hpq.structs
  structTable := hqr.structTable.trans hpq.structTable
  known := hqr.known.trans hpq.known
  texts := hqr.texts.trans hpq.texts
  globals := hpq.globals.trans hqr.globals
  constants := hpq.constants.trans hqr.constants
  funcTable := hpq.funcTable.trans hqr.funcTable
  globalTable hp := by
    obtain ⟨hq, hpq⟩ := hpq.globalTable hp
    obtain ⟨hr, hqr⟩ := hqr.globalTable hq
    exact ⟨hr, hpq.trans hqr⟩

/-- Entries have been added to the tables; the functions there were have not been touched. -/
structure Adds (p q : Program) : Prop extends Lists p q where
  funcs : p.funcs.toList <+: q.funcs.toList
  cursors : p.cursors.toList <+: q.cursors.toList

theorem Adds.refl (p : Program) : p.Adds p := ⟨.refl p, List.prefix_rfl, List.prefix_rfl⟩

theorem Adds.trans (hpq : p.Adds q) (hqr : q.Adds r) : p.Adds r :=
  ⟨hpq.toLists.trans hqr.toLists, hpq.funcs.trans hqr.funcs, hpq.cursors.trans hqr.cursors⟩

/-- Of the functions there were only one has changed, and that not in its head. -/
structure Framed (home : Nat) (p q : Program) : Prop extends Lists p q where
  heads : ∀ (k : Nat) (f : Func), p.funcs[k]? = some f → ∃ g : Func, q.funcs[k]? = some g ∧ f.SameHead g
  others : ∀ (k : Nat) (f : Func), k ≠ home → p.funcs[k]? = some f → q.funcs[k]? = some f

variable {home : Nat}

theorem Framed.refl (home : Nat) (p : Program) : p.Framed home p :=
  ⟨.refl p, fun _ f hf => ⟨f, hf, .refl f⟩, fun _ _ _ hf => hf⟩

theorem Framed.trans (hpq : p.Framed home q) (hqr : q.Framed home r) : p.Framed home r where
  toLists := hpq.toLists.trans hqr.toLists
  heads k f hf := by
    obtain ⟨g, hg, hfg⟩ := hpq.heads k f hf
    obtain ⟨h, hh, hgh⟩ := hqr.heads k g hg
    exact ⟨h, hh, hfg.trans hgh⟩
  others k f hk hf := hqr.others k f hk (hpq.others k f hk hf)

theorem Adds.framed (h : p.Adds q) : p.Framed home q where
  toLists := h.toLists
  heads _ f hf := ⟨f, getElem?_mono h.funcs hf, .refl f⟩
  others _ _ _ hf := getElem?_mono h.funcs hf

theorem framed_mapFunc (p : Program) {g : Func → Func} (hg : ∀ f : Func, f.SameHead (g f)) :
    p.Framed home (p.mapFunc home g) where
  toLists := { Lists.refl p with }
  heads k f hf := by
    rw [getElem?_mapFunc, hf]
    split
    next => exact ⟨g f, rfl, hg f⟩
    next => exact ⟨f, rfl, .refl f⟩
  others k f hk hf := by rw [getElem?_mapFunc, if_neg (Ne.symm hk), hf]

theorem framed_cursors (p : Program) (cs : Array Cursor) : p.Framed home { p with cursors := cs } :=
  ⟨{ Lists.refl p with }, fun _ f hf => ⟨f, hf, .refl f⟩, fun _ _ _ hf => hf⟩

/-- Whatever becomes of a request, it only adds to the tables. -/
class Adding (x : Build α) : Prop where
  adds : ∀ p : Program, p.Adds (leftBy (x p))

instance (a : α) : Adding (pure a : Build α) := ⟨fun p => .refl p⟩
instance (e : Fault) : Adding (throw e : Build α) := ⟨fun p => .refl p⟩
instance : Adding (get : Build Program) := ⟨fun p => .refl p⟩

instance (x : Build α) (f : α → Build β) [hx : Adding x] [hf : ∀ a, Adding (f a)] : Adding (x >>= f) where
  adds p := by
    have hfirst := hx.adds p
    rcases leftBy_bind x f p with h | ⟨a, p1, hok, h⟩
    · rwa [h]
    · rw [hok] at hfirst
      rw [h]
      exact hfirst.trans ((hf a).adds p1)

instance (x : Build α) [hx : Adding x] : Adding (discard x) where
  adds p := by
    rw [leftBy_discard]
    exact hx.adds p

instance (field : Known → Option Nat) : Adding (known! field) where
  adds p := by
    rw [known!, get_bind_run]
    cases field p.known <;> exact .refl p

instance (field : Known → Option Nat) : Adding (structType field) := by
  have hread : ∀ (p : Program) (i : Nat), Adding (match p.structs[i]? with
      | some s => pure s.type
      | none => throw .setupMissing : Build MachineType) := by
    intro p i
    cases p.structs[i]? <;> infer_instance
  unfold structType
  infer_instance

instance (i : Nat) : Adding (globalId i) where
  adds p := by
    rw [globalId, get_bind_run]
    cases p.globals[i]? <;> exact .refl p

instance : Adding objectType := by unfold objectType; infer_instance
instance : Adding objectPtr := by unfold objectPtr; infer_instance

theorem adds_withFunc (p : Program) (f : Func) : p.Adds (p.withFunc f) where
  toLists := { Lists.refl p with funcTable := by simp [withFunc] }
  funcs := by simp [withFunc]
  cursors := by simp [withFunc]

instance (name : String) (result : MachineType) (params : List MachineType) (linkage : Int) :
    Adding (func name result params linkage) where
  adds p := by
    cases hname : lookup p.funcTable name with
    | some i =>
      rw [func_eq_ok.2 (.inl ⟨hname, rfl⟩)]
      exact .refl p
    | none =>
      rw [func_eq_ok.2 (.inr ⟨hname, rfl, rfl⟩)]
      exact adds_withFunc p _

theorem Unclaimed.withGlobal (hp : p.Unclaimed) {g : GlobalVar} (hname : ∀ k, constantName k ≠ g.name) :
    (p.withGlobal g).Unclaimed := by
  refine fun k hk => lookup_eq_none_iff.2 fun e he => ?_
  simp only [Program.withGlobal, Array.mem_push] at he
  rcases he with he | rfl
  · exact lookup_eq_none_iff.1 (hp k hk) e he
  · exact (hname k).symm

theorem adds_withGlobal (p : Program) {g : GlobalVar} (hname : ∀ k, constantName k ≠ g.name) :
    p.Adds (p.withGlobal g) where
  toLists := { Lists.refl p with
    globals := by simp [withGlobal]
    globalTable := fun hp => ⟨hp.withGlobal hname, by simp [withGlobal]⟩ }
  funcs := List.prefix_rfl
  cursors := List.prefix_rfl

theorem Adding.global {name : String} (hname : ∀ k, constantName k ≠ name) (type : MachineType)
    (linkage : Int) : Adding (global name type linkage) where
  adds p := by
    cases hlisted : lookup p.globalTable name with
    | some i =>
      rw [global_eq_ok.2 (.inl ⟨hlisted, rfl⟩)]
      exact .refl p
    | none =>
      rw [global_eq_ok.2 (.inr ⟨hlisted, rfl, rfl⟩)]
      exact adds_withGlobal p hname

/-- The program after a constant has been entered, whatever was listed under the name of its variable. -/
def entered (p : Program) (c : Constant) (type : MachineType) : Program :=
  { p with
    globals := p.globals.push { name := constantName p.constants.size, type, id := p.globalTable.size }
    globalTable := list p.globalTable (constantName p.constants.size) p.globals.size
    constants := p.constants.push (c, p.globals.size) }

theorem entered_of_unclaimed (hp : p.Unclaimed) (c : Constant) (type : MachineType) :
    p.entered c type = p.withConstant c type := by
  have hfree : p.globalTable.findIdx? (·.1 == constantName p.constants.size) = none := by
    simpa using lookup_eq_none_iff.1 (hp _ (Nat.le_refl _))
  rw [entered, list, hfree]
  rfl

theorem Unclaimed.withConstant (hp : p.Unclaimed) (c : Constant) (type : MachineType) :
    (p.withConstant c type).Unclaimed := by
  refine fun k hk => lookup_eq_none_iff.2 fun e he => ?_
  simp only [Program.withConstant, Array.size_push] at hk
  simp only [Program.withConstant, Program.withGlobal, Array.mem_push] at he
  rcases he with he | rfl
  · exact lookup_eq_none_iff.1 (hp k (by omega)) e he
  · intro h
    have := constantName_inj h
    omega

theorem adds_entered (p : Program) (c : Constant) (type : MachineType) : p.Adds (p.entered c type) where
  toLists := { Lists.refl p with
    globals := by simp [entered]
    constants := by simp [entered]
    globalTable := fun hp => by
      rw [entered_of_unclaimed hp]
      exact ⟨hp.withConstant c type, by simp [Program.withConstant, Program.withGlobal]⟩ }
  funcs := List.prefix_rfl
  cursors := List.prefix_rfl

theorem addGlobal_run (g : GlobalVar) (p : Program) : addGlobal g p = .ok p.globals.size { p with
      globals := p.globals.push { g with id := p.globalTable.size }
      globalTable := list p.globalTable g.name p.globals.size } := by
  have hnew : newGlobal g p = .ok p.globals.size { p with globals := p.globals.push g } := rfl
  refine bind_eq_ok.2 ⟨_, _, hnew, bind_eq_ok.2 ⟨(), _, ?_, rfl⟩⟩
  change EStateM.Result.ok () _ = _
  simp only [Array.getElem?_push_size, modify_push_size]

/-- What is entered for a constant after its members, or why it is not. -/
theorem Adding.pool (c : Constant) (members : Build Unit) [Adding members] : Adding (pool c members) := by
  have henter : Adding (do
      let name := "@flyable@const@" ++ toString (← get).constants.size
      let i ← addGlobal { name, type := ← objectPtr }
      modify fun p => { p with constants := p.constants.push (c, i) }
      return i : Build Nat) := by
    refine ⟨fun p => ?_⟩
    rw [get_bind_run]
    rcases leftBy_bind objectPtr _ p with h | ⟨type, p1, htype, h⟩
    · rw [h]
      exact Adding.adds p
    · obtain ⟨rfl, -⟩ := Settled.ok_of_ok rfl rfl htype
      rw [h, bind_run_of_ok (addGlobal_run _ p1)]
      exact adds_entered p1 c type
  refine ⟨fun p => ?_⟩
  rw [Program.pool, get_bind_run]
  cases p.findConstant c with
  | some i => exact .refl p
  | none =>
    cases isPooled c with
    | false => exact .refl p
    | true => exact Adding.adds (x := members >>= fun _ => _) p

mutual

theorem adding_constantVar (c : Constant) : Adding (constantVar c) := by
  cases c with
  | tuple items =>
    have := adding_memberVars items
    exact .pool _ _
  | frozenset items =>
    have := adding_memberVars items
    exact .pool _ _
  | _ => exact .pool _ _

theorem adding_memberVars (cs : List Constant) : Adding (memberVars cs) := by
  cases cs with
  | nil => exact inferInstanceAs (Adding (pure ()))
  | cons c cs =>
    have := adding_constantVar c
    have := adding_memberVars cs
    unfold memberVars
    infer_instance

end

instance (c : Constant) : Adding (constantVar c) := adding_constantVar c

end Program
end Lowering
