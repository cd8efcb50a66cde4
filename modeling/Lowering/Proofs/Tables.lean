import Lowering.Proofs.Growth
import Lowering.Proofs.References

/-!
The tables of a program: what a completed request for a function, a variable or a constant did to
them, and that it made the program grow.
-/
namespace Lowering

section Outcome

variable {σ α β : Type} {s s' : σ}

theorem bind_eq_ok {x : EStateM Fault σ α} {f : α → EStateM Fault σ β} {b : β} :
    (x >>= f) s = .ok b s' ↔ ∃ a s1, x s = .ok a s1 ∧ f a s1 = .ok b s' := by
  change EStateM.bind x f s = _ ↔ _
  unfold EStateM.bind
  cases x s <;> simp

theorem pure_eq_ok {a b : α} : (pure a : EStateM Fault σ α) s = .ok b s' ↔ b = a ∧ s' = s := by
  change EStateM.Result.ok a s = _ ↔ _
  simp [eq_comm]

variable {e : Fault}

theorem throw_ne_ok {a : α} : (throw e : EStateM Fault σ α) s ≠ .ok a s' := by
  change EStateM.Result.error e s ≠ _
  simp

theorem map_eq_ok {x : EStateM Fault σ α} {f : α → β} {b : β} :
    (f <$> x) s = .ok b s' ↔ ∃ a, x s = .ok a s' ∧ b = f a := by
  change EStateM.map f x s = _ ↔ _
  unfold EStateM.map
  cases x s <;> simp [eq_comm, and_comm]

theorem get_eq_ok {t : σ} : (get : EStateM Fault σ σ) s = .ok t s' ↔ t = s ∧ s' = s := by
  change EStateM.Result.ok s s = _ ↔ _
  simp [eq_comm]

theorem bind_eq_error {x : EStateM Fault σ α} {f : α → EStateM Fault σ β} :
    (x >>= f) s = .error e s' ↔ x s = .error e s' ∨ ∃ a s1, x s = .ok a s1 ∧ f a s1 = .error e s' := by
  change EStateM.bind x f s = _ ↔ _
  unfold EStateM.bind
  cases x s <;> simp

theorem pure_ne_error {a : α} : (pure a : EStateM Fault σ α) s ≠ .error e s' := by
  change EStateM.Result.ok a s ≠ _
  simp

theorem throw_eq_error {e' : Fault} : (throw e : EStateM Fault σ α) s = .error e' s' ↔ e' = e ∧ s' = s := by
  change EStateM.Result.error e s = _ ↔ _
  simp [eq_comm]

/-- An action that completes hands on to the next. -/
theorem bind_run_of_ok {x : EStateM Fault σ α} {f : α → EStateM Fault σ β} {a : α} (h : x s = .ok a s') :
    (x >>= f) s = f a s' := by
  change EStateM.bind x f s = _
  rw [EStateM.bind, h]

theorem get_bind_run (f : σ → EStateM Fault σ α) : (get >>= f) s = f s s := rfl

end Outcome

/-- What a run leaves, completed or not. -/
def leftBy {σ α : Type} : EStateM.Result Fault σ α → σ
  | .ok _ s | .error _ s => s

theorem leftBy_bind {σ α β : Type} (x : EStateM Fault σ α) (f : α → EStateM Fault σ β) (s : σ) :
    leftBy ((x >>= f) s) = leftBy (x s) ∨ ∃ a s1, x s = .ok a s1 ∧ leftBy ((x >>= f) s) = leftBy (f a s1) := by
  change leftBy (EStateM.bind x f s) = _ ∨ ∃ a s1, x s = .ok a s1 ∧ leftBy (EStateM.bind x f s) = _
  unfold EStateM.bind
  cases x s with
  | ok a s1 => exact .inr ⟨a, s1, rfl, rfl⟩
  | error e s1 => exact .inl rfl

theorem leftBy_discard {σ α : Type} (x : EStateM Fault σ α) (s : σ) : leftBy ((discard x) s) = leftBy (x s) := by
  change leftBy (EStateM.map _ x s) = _
  unfold EStateM.map
  cases x s <;> rfl

namespace Program

variable {α β : Type} {p q : Program}

/-- The action only reads what the setup of the program fixed. -/
class Settled (x : Build α) : Prop where
  ok_of_ok : ∀ {p q p' : Program} {a : α}, q.known = p.known → q.structs = p.structs →
    x p = .ok a p' → p' = p ∧ x q = .ok a q

instance (a : α) : Settled (pure a : Build α) where
  ok_of_ok _ _ h := by
    obtain ⟨rfl, rfl⟩ := pure_eq_ok.1 h
    exact ⟨rfl, rfl⟩

instance (x : Build α) (f : α → Build β) [Settled x] [∀ a, Settled (f a)] : Settled (x >>= f) where
  ok_of_ok hk hs h := by
    obtain ⟨a, p1, hx, hf⟩ := bind_eq_ok.1 h
    obtain ⟨rfl, hx'⟩ := Settled.ok_of_ok hk hs hx
    obtain ⟨rfl, hf'⟩ := Settled.ok_of_ok hk hs hf
    exact ⟨rfl, bind_eq_ok.2 ⟨a, _, hx', hf'⟩⟩

variable {field : Known → Option Nat} {i : Nat} {table : Array (String × Nat)} {name : String} {linkage : Int}
  {g : GlobalVar}

theorem known!_eq_ok : known! field p = .ok i q ↔ field p.known = some i ∧ q = p := by
  rw [known!, get_bind_run]
  cases field p.known with
  | none => simp [throw_ne_ok]
  | some j => simp [pure_eq_ok, eq_comm]

instance : Settled (known! field) where
  ok_of_ok hk _ h := by
    obtain ⟨hi, rfl⟩ := known!_eq_ok.1 h
    exact ⟨rfl, known!_eq_ok.2 ⟨hk ▸ hi, rfl⟩⟩

theorem structType_eq_ok {t : MachineType} : structType field p = .ok t q ↔
      (∃ (i : Nat) (d : StructDef), field p.known = some i ∧ p.structs[i]? = some d ∧ t = d.type) ∧ q = p := by
  simp only [structType, bind_eq_ok, known!_eq_ok, get_bind_run]
  constructor
  · rintro ⟨i, p, ⟨hi, rfl⟩, h⟩
    cases hd : p.structs[i]? with
    | none =>
      rw [hd] at h
      exact absurd h throw_ne_ok
    | some d =>
      rw [hd] at h
      obtain ⟨rfl, rfl⟩ := pure_eq_ok.1 h
      exact ⟨⟨i, d, hi, hd, rfl⟩, rfl⟩
  · rintro ⟨⟨i, d, hi, hd, rfl⟩, rfl⟩
    exact ⟨i, q, ⟨hi, rfl⟩, by rw [hd]; rfl⟩

instance : Settled (structType field) where
  ok_of_ok hk hs h := by
    obtain ⟨⟨i, d, hi, hd, rfl⟩, rfl⟩ := structType_eq_ok.1 h
    exact ⟨rfl, structType_eq_ok.2 ⟨⟨i, d, hk ▸ hi, hs ▸ hd, rfl⟩, rfl⟩⟩

instance : Settled objectType := by unfold objectType; infer_instance
instance : Settled objectPtr := by unfold objectPtr; infer_instance

/-- The action gives a type that names structures of the program only. -/
class Yields (x : Build MachineType) : Prop where
  within : ∀ {P : Int → Prop} {p q : Program} {t : MachineType},
    (∀ (i : Nat) (d : StructDef), p.structs[i]? = some d → P d.id) → x p = .ok t q → t.Within P

instance : Yields (structType field) where
  within hP h := by
    obtain ⟨⟨i, d, -, hd, rfl⟩, -⟩ := structType_eq_ok.1 h
    exact MachineType.within_ofStruct (hP i d hd)

instance : Yields objectType := by unfold objectType; infer_instance

instance : Yields objectPtr where
  within hP h := by
    obtain ⟨t, p1, ht, hlast⟩ := bind_eq_ok.1 h
    obtain ⟨rfl, rfl⟩ := pure_eq_ok.1 hlast
    exact (Yields.within hP ht).pointerTo

theorem vectorParams_within {P : Int → Prop} {ts : List MachineType}
    (hP : ∀ (i : Nat) (d : StructDef), p.structs[i]? = some d → P d.id)
    (h : vectorParams p = .ok ts q) : ∀ t ∈ ts, t.Within P := by
  obtain ⟨t, p1, ht, hlast⟩ := bind_eq_ok.1 h
  obtain ⟨rfl, rfl⟩ := pure_eq_ok.1 hlast
  have hwithin := Yields.within hP ht
  have hint : MachineType.int64.Within P := MachineType.within_of_plain (by decide) rfl rfl rfl
  simp [hwithin, hwithin.pointerTo, hint]

instance : Yields vectorFunction where
  within hP h := by
    obtain ⟨t, p1, ht, hparams⟩ := bind_eq_ok.1 h
    obtain ⟨ts, p2, hts, hlast⟩ := bind_eq_ok.1 hparams
    obtain ⟨rfl, rfl⟩ := pure_eq_ok.1 hlast
    obtain ⟨rfl, -⟩ := Settled.ok_of_ok rfl rfl ht
    exact (Yields.within hP ht).function (vectorParams_within hP hts)

/-- What functions and cursors there were stay as they were; those added have no code. -/
structure Kept (p q : Program) : Prop where
  cursors : ∀ (i : Nat) (c : Cursor), p.cursors[i]? = some c → q.cursors[i]? = some c
  funcs : ∀ (i : Nat) (f : Func), p.funcs[i]? = some f → q.funcs[i]? = some f
  added : ∀ (i : Nat) (f : Func), q.funcs[i]? = some f → p.funcs[i]? = some f ∨ f.Declared

theorem Kept.of_eq (hf : q.funcs = p.funcs) (hc : q.cursors = p.cursors) : p.Kept q :=
  ⟨fun _ _ h => hc ▸ h, fun _ _ h => hf ▸ h, fun _ _ h => .inl (hf ▸ h)⟩

theorem Kept.trans {r : Program} (hpq : p.Kept q) (hqr : q.Kept r) : p.Kept r where
  cursors i c h := hqr.cursors i c (hpq.cursors i c h)
  funcs i f h := hqr.funcs i f (hpq.funcs i f h)
  added i f h := (hqr.added i f h).elim (hpq.added i f) .inr

/-- What a program lists is found again in another. -/
structure Ahead (p q : Program) : Prop where
  structs : q.structs = p.structs
  known : q.known = p.known
  globals : p.globals.toList <+: q.globals.toList
  globalTable : p.globalTable.toList <+: q.globalTable.toList
  funcTable : p.funcTable.toList <+: q.funcTable.toList
  constants : p.constants.toList <+: q.constants.toList
  funcs : ∀ (i : Nat) (f : Func), p.funcs[i]? = some f → ∃ g : Func, q.funcs[i]? = some g ∧ g.id = f.id

theorem Grown.ahead {p q r : Program} (hpq : p.Grown q) (hqr : q.Ahead r) : p.Ahead r where
  structs := hqr.structs.trans hpq.structs
  known := hqr.known.trans hpq.known
  globals := hpq.globals.trans hqr.globals
  globalTable := hpq.globalTable.trans hqr.globalTable
  funcTable := hpq.funcTable.trans hqr.funcTable
  constants := hpq.constants.trans hqr.constants
  funcs i f hf := by
    obtain ⟨g, hg, hfg⟩ := hpq.funcs i f hf
    obtain ⟨h, hh, hgh⟩ := hqr.funcs i g hg
    exact ⟨h, hh, hgh.trans hfg.id⟩

/-- A request to the tables. It is granted in the same way wherever they hold what it has left. -/
class Request (x : Build α) : Prop where
  extends_of_ok : ∀ {p q : Program} {a : α}, x p = .ok a q → p.Extends q
  kept : ∀ {p q : Program} {a : α}, p.Sound → x p = .ok a q → p.Kept q
  granted : ∀ {p q r : Program} {a : α}, p.Sound → x p = .ok a q → q.Ahead r → x r = .ok a r

instance (x : Build α) [Settled x] : Request x where
  extends_of_ok h := by
    obtain ⟨rfl, -⟩ := Settled.ok_of_ok rfl rfl h
    exact .refl _
  kept _ h := by
    obtain ⟨rfl, -⟩ := Settled.ok_of_ok rfl rfl h
    exact .of_eq rfl rfl
  granted _ h hr := by
    obtain ⟨rfl, -⟩ := Settled.ok_of_ok rfl rfl h
    exact (Settled.ok_of_ok hr.known hr.structs h).2

theorem getElem?_mono {γ : Type} {xs ys : Array γ} {a : γ}
    (h : xs.toList <+: ys.toList) (hi : xs[i]? = some a) : ys[i]? = some a := by
  obtain ⟨more, hmore⟩ := h
  rw [← Array.getElem?_toList] at hi ⊢
  rw [← hmore, List.getElem?_append_left (List.getElem?_eq_some_iff.1 hi).1, hi]

theorem globalId_eq_ok {n : Int} : globalId i p = .ok n q ↔ (∃ g, p.globals[i]? = some g ∧ g.id = n) ∧ q = p := by
  rw [globalId, get_bind_run]
  cases p.globals[i]? with
  | none => simp [throw_ne_ok]
  | some g => simp [pure_eq_ok, eq_comm]

instance : Request (globalId i) where
  extends_of_ok h := by
    obtain ⟨-, rfl⟩ := globalId_eq_ok.1 h
    exact .refl _
  kept _ h := by
    obtain ⟨-, rfl⟩ := globalId_eq_ok.1 h
    exact .of_eq rfl rfl
  granted _ h hr := by
    obtain ⟨⟨g, hg, hid⟩, rfl⟩ := globalId_eq_ok.1 h
    exact globalId_eq_ok.2 ⟨⟨g, getElem?_mono hr.globals hg, hid⟩, rfl⟩

theorem lookup_eq_none_iff : lookup table name = none ↔ ∀ e ∈ table, e.1 ≠ name := by
  simp [lookup]

theorem lookup_mono {table' : Array (String × Nat)}
    (hp : table.toList <+: table'.toList) (h : lookup table name = some i) : lookup table' name = some i := by
  obtain ⟨more, hmore⟩ := hp
  unfold lookup at *
  rw [← Array.find?_toList] at *
  rw [← hmore, List.find?_append]
  cases hf : table.toList.find? (·.1 == name) with
  | none => simp [hf] at h
  | some e => simpa [hf] using h

theorem lookup_push_self (h : lookup table name = none) : lookup (table.push (name, i)) name = some i := by
  have hnone : table.find? (·.1 == name) = none := by simpa [lookup] using h
  simp [lookup, Array.find?_push, hnone]

theorem mem_of_lookup (h : lookup table name = some i) : (name, i) ∈ table := by
  unfold lookup at h
  obtain ⟨e, he, rfl⟩ := Option.map_eq_some_iff.1 h
  have hname := Array.find?_some he
  obtain rfl : e.1 = name := by simpa using hname
  exact Array.mem_of_find?_eq_some he

/-- The program with a function more, listed under a name, and a cursor for it. -/
def withFunc (p : Program) (f : Func) : Program :=
  { p with
    cursors := p.cursors.push { func := p.funcs.size }
    funcs := p.funcs.push { f with cursor := p.cursors.size }
    funcTable := p.funcTable.push (f.name, p.funcs.size) }

def declared (p : Program) (name : String) (result : MachineType) (params : List MachineType)
    (linkage : Int) : Func :=
  { id := p.funcTable.size, name, linkage, result, params := params.toArray,
    nextValue := params.length }

theorem func_eq_ok {result : MachineType} {params : List MachineType}
    : func name result params linkage p = .ok i q ↔ lookup p.funcTable name = some i ∧ q = p ∨
      lookup p.funcTable name = none ∧ i = p.funcs.size ∧ q = p.withFunc (p.declared name result params linkage) := by
  rw [func, get_bind_run]
  cases lookup p.funcTable name with
  | some j => simp [pure_eq_ok, eq_comm]
  | none =>
    change EStateM.Result.ok p.funcs.size (p.withFunc (p.declared name result params linkage)) = _ ↔ _
    simp [eq_comm]

theorem getElem?_push_of_some {γ : Type} {xs : Array γ} {a b : γ} (h : xs[i]? = some a) :
    (xs.push b)[i]? = some a := by
  have hlt := (Array.getElem?_eq_some_iff.1 h).1
  rw [Array.getElem?_push, if_neg (by omega), h]

theorem funcs_withFunc {f g : Func} (h : (p.withFunc f).funcs[i]? = some g) :
    p.funcs[i]? = some g ∨ i = p.funcs.size ∧ g = { f with cursor := p.cursors.size } := by
  simp only [withFunc, Array.getElem?_push] at h
  split at h
  next hi => exact .inr ⟨hi, (Option.some.inj h).symm⟩
  next => exact .inl h

theorem kept_withFunc {f : Func} (hf : f.Declared) : p.Kept (p.withFunc f) where
  cursors _ _ h := getElem?_push_of_some h
  funcs _ _ h := getElem?_push_of_some h
  added _ _ h := (funcs_withFunc h).imp_right fun ⟨_, hg⟩ => hg ▸ ⟨hf.blocks, hf.nextValue⟩

theorem extends_withFunc {f : Func} (hf : f.Sound) (hid : f.id = p.funcTable.size)
    (hname : lookup p.funcTable f.name = none) : p.Extends (p.withFunc f) := by
  intro hp
  have htable : p.funcTable.toList <+: (p.withFunc f).funcTable.toList := by simp [withFunc]
  refine ⟨⟨?_, ?_, ?_, ?_, ?_, hp.globals, hp.placed, hp.constants⟩, ⟨rfl, rfl, rfl, List.prefix_rfl,
    List.prefix_rfl, htable, List.prefix_rfl, fun i g hg => ⟨g, getElem?_push_of_some hg, .refl g⟩,
    fun i c hc => ⟨c, getElem?_push_of_some hc, rfl⟩⟩⟩
  · intro i g hg
    rcases funcs_withFunc hg with hg | ⟨-, rfl⟩
    · exact hp.funcs i g hg
    · exact ⟨hf.dropped, hf.blocks⟩
  · intro i g hg
    rcases funcs_withFunc hg with hg | ⟨rfl, rfl⟩
    · obtain ⟨c, hc, hfunc⟩ := hp.cursors i g hg
      exact ⟨c, getElem?_push_of_some hc, hfunc⟩
    · exact ⟨{ func := p.funcs.size }, by simp [withFunc], rfl⟩
  · simp [withFunc, hp.size]
  · intro i g hg
    rcases funcs_withFunc hg with hg | ⟨rfl, rfl⟩
    · exact ⟨(hp.listed i g hg).1, getElem?_push_of_some (hp.listed i g hg).2⟩
    · exact ⟨by rw [hid, hp.size], by simp [withFunc, ← hp.size]⟩
  · intro i g hg
    rcases funcs_withFunc hg with hg | ⟨rfl, rfl⟩
    · exact lookup_mono htable (hp.found i g hg)
    · exact lookup_push_self hname

theorem sound_declared (name : String) (result : MachineType) (params : List MachineType)
    (linkage : Int) : (p.declared name result params linkage).Sound :=
  ⟨rfl, by simp [declared]⟩

theorem declared_declared (name : String) (result : MachineType) (params : List MachineType)
    (linkage : Int) : (p.declared name result params linkage).Declared :=
  ⟨rfl, List.size_toArray.symm⟩

instance (result : MachineType) (params : List MachineType) : Request (func name result params linkage) where
  extends_of_ok h := by
    rcases func_eq_ok.1 h with ⟨-, rfl⟩ | ⟨hnone, -, rfl⟩
    · exact .refl _
    · exact extends_withFunc (sound_declared ..) rfl hnone
  kept _ h := by
    rcases func_eq_ok.1 h with ⟨-, rfl⟩ | ⟨-, -, rfl⟩
    · exact .of_eq rfl rfl
    · exact kept_withFunc (declared_declared ..)
  granted _ h hr := by
    rcases func_eq_ok.1 h with ⟨hi, rfl⟩ | ⟨hnone, rfl, rfl⟩
    · exact func_eq_ok.2 (.inl ⟨lookup_mono hr.funcTable hi, rfl⟩)
    · exact func_eq_ok.2 (.inl ⟨lookup_mono hr.funcTable (lookup_push_self hnone), rfl⟩)

theorem func_named {result : MachineType} {params : List MachineType}
    (hp : p.Sound) (h : func name result params linkage p = .ok i q) :
    ∃ f : Func, q.funcs[i]? = some f ∧ f.name = name := by
  rcases func_eq_ok.1 h with ⟨hi, rfl⟩ | ⟨-, rfl, rfl⟩
  · exact hp.table (mem_of_lookup hi)
  · exact ⟨_, Array.getElem?_push_size, rfl⟩

/-- The program with a variable more, listed under its name. -/
def withGlobal (p : Program) (g : GlobalVar) : Program :=
  { p with
    globals := p.globals.push { g with id := p.globalTable.size }
    globalTable := p.globalTable.push (g.name, p.globals.size) }

theorem modify_push_size {γ : Type} (xs : Array γ) (a : γ) (f : γ → γ) :
    (xs.push a).modify xs.size f = xs.push (f a) := by
  apply Array.ext_getElem?
  intro i
  simp only [Array.getElem?_modify, Array.getElem?_push]
  grind

theorem addGlobal_eq_ok (hname : lookup p.globalTable g.name = none) :
    addGlobal g p = .ok i q ↔ i = p.globals.size ∧ q = p.withGlobal g := by
  have hlist : list p.globalTable g.name p.globals.size =
      p.globalTable.push (g.name, p.globals.size) := by
    have : p.globalTable.findIdx? (·.1 == g.name) = none := by
      simpa using lookup_eq_none_iff.1 hname
    rw [list, this]
  have hadd : addGlobal g p = .ok p.globals.size (p.withGlobal g) := by
    have hnew : newGlobal g p = .ok p.globals.size { p with globals := p.globals.push g } := rfl
    have hlisted : listGlobal p.globals.size { p with globals := p.globals.push g } =
        .ok () (p.withGlobal g) := by
      change EStateM.Result.ok () _ = _
      simp only [Array.getElem?_push_size, hlist, withGlobal, modify_push_size]
    exact bind_eq_ok.2 ⟨_, _, hnew, bind_eq_ok.2 ⟨_, _, hlisted, rfl⟩⟩
  rw [hadd]
  simp [eq_comm]

theorem constantName_ne {k : Nat} (h : name.toList.head? ≠ some '@') : constantName k ≠ name := by
  rintro rfl
  simp [constantName] at h

theorem globals_withGlobal (hp : p.Sound) (i : Nat) (h : GlobalVar)
    (hi : (p.withGlobal g).globals[i]? = some h) : 0 ≤ h.id ∧ h.id < (p.withGlobal g).globalTable.size := by
  simp only [withGlobal, Array.getElem?_push] at hi
  simp only [withGlobal, Array.size_push]
  split at hi
  next =>
    cases hi
    exact ⟨Int.natCast_nonneg _, by dsimp only; omega⟩
  next =>
    have := hp.globals i h hi
    omega

theorem placed_withGlobal (hp : Placed p.globals p.globalTable) :
    Placed (p.withGlobal g).globals (p.withGlobal g).globalTable := by
  have hseven := hp.seven_le
  refine ⟨?_, fun k e he => ?_⟩
  · simp only [withGlobal, Array.toList_push, List.map_append]
    exact hp.setup.trans (List.prefix_append _ _)
  simp only [withGlobal, Array.getElem?_push] at he
  split at he
  next hk =>
    cases he
    refine ⟨_, Array.getElem?_push_size, rfl, ?_⟩
    rw [numberAt, if_neg (by omega), hk]
  next =>
    obtain ⟨h, hh, hname, hid⟩ := hp.number k e he
    exact ⟨h, getElem?_push_of_some hh, hname, hid⟩

theorem extends_withGlobal (hname : ∀ k, constantName k ≠ g.name) : p.Extends (p.withGlobal g) := by
  intro hp
  refine ⟨⟨hp.funcs, hp.cursors, hp.size, hp.listed, hp.found, globals_withGlobal hp,
      placed_withGlobal hp.placed, fun k hk => ?_⟩,
    ⟨rfl, rfl, rfl, ?_, ?_, List.prefix_rfl, List.prefix_rfl, fun _ f hf => ⟨f, hf, .refl f⟩,
      fun _ c hc => ⟨c, hc, rfl⟩⟩⟩
  · refine lookup_eq_none_iff.2 fun e he => ?_
    simp only [withGlobal, Array.mem_push] at he
    rcases he with he | rfl
    · exact lookup_eq_none_iff.1 (hp.constants k hk) e he
    · exact (hname k).symm
  · simp [withGlobal]
  · simp [withGlobal]

theorem global_eq_ok {type : MachineType} :
    global name type linkage p = .ok i q ↔ lookup p.globalTable name = some i ∧ q = p ∨
      lookup p.globalTable name = none ∧ i = p.globals.size ∧ q = p.withGlobal { name, type, linkage } := by
  rw [global, get_bind_run]
  cases hname : lookup p.globalTable name with
  | some j => simp [pure_eq_ok, eq_comm]
  | none => simp [addGlobal_eq_ok (g := { name, type, linkage }) hname]

theorem Request.global (hname : ∀ k, constantName k ≠ name) (type : MachineType)
    (linkage : Int) : Request (global name type linkage) where
  extends_of_ok h := by
    rcases global_eq_ok.1 h with ⟨-, rfl⟩ | ⟨-, -, rfl⟩
    · exact .refl _
    · exact extends_withGlobal hname
  kept _ h := by
    rcases global_eq_ok.1 h with ⟨-, rfl⟩ | ⟨-, -, rfl⟩
    · exact .of_eq rfl rfl
    · exact .of_eq rfl rfl
  granted _ h hr := by
    rcases global_eq_ok.1 h with ⟨hi, rfl⟩ | ⟨hnone, rfl, rfl⟩
    · exact global_eq_ok.2 (.inl ⟨lookup_mono hr.globalTable hi, rfl⟩)
    · exact global_eq_ok.2 (.inl ⟨lookup_mono hr.globalTable (lookup_push_self hnone), rfl⟩)

end Program
end Lowering
