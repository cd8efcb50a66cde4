import Lowering.Proofs.Twins.Arguments

/-!
Straight code: what actions add to one open block of a function while nothing else of the state changes but
the functions that are declared. The rules of a program logic tell the instructions one by one, together with
what has become known of the program; they also tell when the actions complete.
-/
namespace Lowering

/-- The name of the function that an instruction calls. -/
def Program.callee (p : Program) : Instr → Option String
  | .call f _ _ => p.funcs[f.toNat]?.map (·.name)
  | _ => none

def Program.Calls (p : Program) (f : Nat) (name : String) : Prop := ∃ g, p.funcs[f]? = some g ∧ g.name = name

theorem Program.Calls.callee {p : Program} {f : Nat} {name : String} (h : p.Calls f name) (args : List Operand)
    (r : Nat) : p.callee (.call f args r) = some name := by
  obtain ⟨g, hg, rfl⟩ := h
  rw [Program.callee, Int.toNat_natCast, hg]
  rfl

theorem Program.Calls.of_grown {p q : Program} {f : Nat} {name : String} (h : p.Calls f name) (hpq : p.Grown q) :
    q.Calls f name := by
  obtain ⟨g, hg, rfl⟩ := h
  obtain ⟨g', hg', hgrown⟩ := hpq.funcs f g hg
  exact ⟨g', hg', hgrown.name⟩

def Program.variableId (p : Program) (i : Nat) : Int := (p.globals[i]?.getD default).id

theorem Program.Sound.nodup_names {p : Program} (hp : p.Sound) : (p.funcs.toList.map Func.name).Nodup := by
  refine List.pairwise_iff_getElem.2 fun i j hi hj hij heq => ?_
  simp only [List.getElem_map, Array.getElem_toList, List.length_map, Array.length_toList] at heq hi hj
  have hfound := (hp.found i _ (Array.getElem?_eq_getElem hi)).symm.trans
    (heq ▸ hp.found j _ (Array.getElem?_eq_getElem hj))
  cases hfound
  omega

/-- How many instructions the rounds of a loop emit together. -/
def Entry.total {γ : Type} (count : γ → Nat) : List γ → Nat
  | [] => 0
  | x :: xs => count x + total count xs

namespace Straight

open Emit Twins

/-- A block that code is written to, from a state on. With room, nothing is too large to be written, and no
functions are declared but those that are named. -/
structure Site where
  base : State
  func : Nat
  block : Nat
  width : Nat
  names : List String
  room : Prop

/-- The block has been written up to these instructions, the next value has the number `n`, and this is known
of the program, whatever becomes of it. -/
structure Writes (o : Site) (K : Program → Prop) (n : Nat) (is : List Instr) (s : State) : Prop where
  sound : s.program.Sound
  stands : Stands s o.func o.block n is
  width : ∃ g, s.program.funcs[o.func]? = some g ∧ g.blocks.size = o.width
  same : s = { o.base with program := { o.base.program with
    funcs := s.program.funcs, funcTable := s.program.funcTable, cursors := s.program.cursors } }
  known : ∀ q, s.program.Grown q → K q
  few : o.room → ∀ e ∈ s.program.funcTable, e.1 ∈ o.names

variable {α β : Type} {o : Site} {K K' : Program → Prop} {n : Nat} {is js : List Instr} {s s' : State}

namespace Writes

theorem holds (h : Writes o K n is s) : K s.program := h.known _ (.refl _)

theorem weaken (h : Writes o K n is s) (hK : ∀ p, K p → K' p) : Writes o K' n is s :=
  { h with known := fun q hq => hK q (h.known q hq) }

theorem globals (h : Writes o K n is s) : s.program.globals = o.base.program.globals := by rw [h.same]

theorem constants (h : Writes o K n is s) : s.program.constants = o.base.program.constants := by rw [h.same]

theorem files (h : Writes o K n is s) : s = { o.base with program := s.program } := by
  conv => lhs; rw [h.same]
  conv => rhs; rw [h.same]

theorem funcs_le (h : Writes o K n is s) (hroom : o.room) : s.program.funcs.size ≤ o.names.length := by
  have hnames : (s.program.funcs.toList.map Func.name) ⊆ o.names := by
    intro name hname
    obtain ⟨g, hg, rfl⟩ := List.mem_map.1 hname
    obtain ⟨i, hi⟩ := List.mem_iff_getElem?.1 hg
    exact h.few hroom _ (Array.mem_of_getElem? (h.sound.listed i g (by simpa using hi)).2)
  simpa using (List.subperm_of_subset h.sound.nodup_names hnames).length_le

theorem appended (h : Writes o K n is s) (hsound : s.program.Extends (appended s o.func o.block js).program) :
    Writes o K (n + js.length) (is ++ js) (appended s o.func o.block js) := by
  obtain ⟨g, hg, hsize⟩ := h.width
  obtain ⟨hsound, hgrown⟩ := hsound h.sound
  refine ⟨hsound, h.stands.appended js, ⟨g.append o.block js, Program.getElem?_mapFunc_self hg, ?_⟩, ?_,
    fun q hq => h.known q (hgrown.trans hq), h.few⟩
  · rw [Func.size_append, hsize]
  · conv => lhs; rw [h.same]
    rfl

end Writes

/-- A condition on a result, the next value, the instructions that have been added and what is known. -/
abbrev Post (α : Type) := α → Nat → List Instr → (Program → Prop) → Prop

/-- From a state in which the block is being written, the action completes if there is room; if it completes,
it has added instructions, with which the condition holds. -/
def Emits (o : Site) (K : Program → Prop) (n : Nat) (x : Emit α) (R : Post α) : Prop :=
  ∀ s is, Writes o K n is s →
    (∀ a s', x s = .ok a s' → ∃ m js K', Writes o K' m (is ++ js) s' ∧ R a m js K') ∧
    (o.room → ∃ a s', x s = .ok a s')

/-- Instructions that the rounds of a loop make one after the other. -/
def Row {γ : Type} (made : γ → Nat → List Instr → Prop) : List γ → Nat → List Instr → Prop
  | [], _, js => js = []
  | c :: cs, n, js => ∃ ks ls, js = ks ++ ls ∧ made c n ks ∧ Row made cs (n + ks.length) ls

namespace Emits

variable {x : Emit α} {f : α → Emit β} {R : Post α}

theorem pure {a : α} (h : R a n [] K) : Emits o K n (Pure.pure a) R := by
  refine fun s is hs => ⟨fun b s' hok => ?_, fun _ => ⟨a, s, rfl⟩⟩
  obtain ⟨rfl, rfl⟩ := pure_eq_ok.1 hok
  exact ⟨n, [], K, by rwa [List.append_nil], h⟩

theorem throw {e : Fault} (h : ¬ o.room) : Emits o K n (MonadExcept.throw e : Emit α) R :=
  fun _ _ _ => ⟨fun _ _ hok => absurd hok throw_ne_ok, fun hroom => absurd hroom h⟩

theorem bind {R : Post β}
    (h : Emits o K n x fun a m js K' => Emits o K' m (f a) fun b m' ks K'' => R b m' (js ++ ks) K'') :
    Emits o K n (x >>= f) R := by
  refine fun s is hs => ⟨fun b s2 hok => ?_, fun hroom => ?_⟩
  · obtain ⟨a, s1, hxa, hfb⟩ := bind_eq_ok.1 hok
    obtain ⟨m, js, K1, hs1, hf⟩ := (h s is hs).1 a s1 hxa
    obtain ⟨m', ks, K2, hs2, hr⟩ := (hf s1 _ hs1).1 b s2 hfb
    exact ⟨m', js ++ ks, K2, List.append_assoc is js ks ▸ hs2, hr⟩
  · obtain ⟨a, s1, hxa⟩ := (h s is hs).2 hroom
    obtain ⟨m, js, K1, hs1, hf⟩ := (h s is hs).1 a s1 hxa
    obtain ⟨b, s2, hfb⟩ := (hf s1 _ hs1).2 hroom
    exact ⟨b, s2, bind_eq_ok.2 ⟨a, s1, hxa, hfb⟩⟩

theorem mono {R' : Post α} (hx : Emits o K n x R) (h : ∀ a m js K', R a m js K' → R' a m js K') : Emits o K n x R' := by
  refine fun s is hs => ⟨fun a s' hok => ?_, (hx s is hs).2⟩
  obtain ⟨m, js, K', hs', hr⟩ := (hx s is hs).1 a s' hok
  exact ⟨m, js, K', hs', h a m js K' hr⟩

theorem discard {R : Post PUnit} (h : Emits o K n x fun _ => R ⟨⟩) : Emits o K n (Functor.discard x) R := by
  refine fun s is hs => ⟨fun u s' hok => ?_, fun hroom => ?_⟩
  · obtain ⟨a, hxa, -⟩ := map_eq_ok.1 hok
    exact (h s is hs).1 a s' hxa
  · obtain ⟨a, s', hxa⟩ := (h s is hs).2 hroom
    exact ⟨_, s', map_eq_ok.2 ⟨a, hxa, rfl⟩⟩

theorem read {P : α → Prop} (hx : ∀ s is, Writes o K n is s → ∀ a s', x s = .ok a s' → s' = s ∧ P a)
    (hroom : o.room → ∀ s is, Writes o K n is s → ∃ a s', x s = .ok a s') (h : ∀ a, P a → R a n [] K) :
    Emits o K n x R := by
  refine fun s is hs => ⟨fun a s' hok => ?_, fun hr => hroom hr s is hs⟩
  obtain ⟨rfl, ha⟩ := hx s is hs a s' hok
  exact ⟨n, [], K, by rwa [List.append_nil], h a ha⟩

/-- Beside the program nothing has changed, so what is read there is what was there before; nor has the
pool. -/
theorem get {R : Post State}
    (h : ∀ q : Program, q.constants = o.base.program.constants → R { o.base with program := q } n [] K) :
    Emits o K n MonadState.get R := by
  refine read (P := fun t => ∃ q : Program, q.constants = o.base.program.constants ∧
    t = { o.base with program := q }) (fun s is hs t s' hok => ?_) (fun _ s _ _ => ⟨s, s, rfl⟩) ?_
  · obtain ⟨rfl, rfl⟩ := get_eq_ok.1 hok
    exact ⟨rfl, _, hs.constants, hs.files⟩
  · rintro _ ⟨q, hq, rfl⟩
    exact h q hq

theorem assign {mk : Nat → Instr} {R : Post Operand}
    (hmk : (mk n).isTerminator = false) (hw : o.room → (mk n).Whole) (h : R (.id n) (n + 1) [mk n] K) :
    Emits o K n (Emit.assign mk) R := by
  refine fun s is hs => ⟨fun v s' hok => ?_, fun hroom => ⟨_, _, hs.stands.assign_eq_ok.2 ⟨hw hroom, rfl, rfl⟩⟩⟩
  have hextends : s.program.Extends s'.program := by
    obtain ⟨ref, g, -, hg, hwrite, -, rfl⟩ := assign_eq_ok.1 hok
    obtain ⟨g', hg', rfl, -⟩ := hs.stands.func
    rw [hs.stands.here] at hg
    cases hg.symm.trans hg'
    exact extends_pushValue hmk hwrite
  obtain ⟨-, rfl, rfl⟩ := hs.stands.assign_eq_ok.1 hok
  exact ⟨n + 1, [mk n], K, hs.appended hextends, h⟩

theorem external {name : String} {result : MachineType} {params : List MachineType}
    {R : Post Nat} (hname : o.room → name ∈ o.names)
    (h : ∀ i, R i n [] fun p => K p ∧ p.Calls i name) : Emits o K n (Emit.external name result params) R := by
  refine fun s is hs => ⟨fun i s' hok => ?_, fun _ => ?_⟩
  · obtain ⟨q, hfunc, rfl⟩ := build_eq_ok.1 hok
    obtain ⟨hsound, hgrown⟩ := Program.Request.extends_of_ok hfunc hs.sound
    have hcalls : q.Calls i name := Program.func_named hs.sound hfunc
    refine ⟨n, [], _, ?_, h i⟩
    rw [List.append_nil]
    have hknown : ∀ q', q.Grown q' → K q' ∧ q'.Calls i name := fun q' hq' =>
      ⟨hs.known q' (hgrown.trans hq'), hcalls.of_grown hq'⟩
    rcases Program.func_eq_ok.1 hfunc with ⟨-, rfl⟩ | ⟨-, -, rfl⟩
    · exact { hs with known := hknown }
    · obtain ⟨home, hhome, hsize⟩ := hs.width
      obtain ⟨home', hhome', hblock⟩ := hs.stands.func
      refine ⟨hsound, ⟨?_, home', Program.getElem?_push_of_some hhome', hblock⟩,
        ⟨home, Program.getElem?_push_of_some hhome, hsize⟩, ?_, hknown, fun hroom e he => ?_⟩
      · exact congrArg (Option.getD · _) (Program.getElem?_push_of_some hs.stands.cursor_eq)
      · conv => lhs; rw [hs.same]
        rfl
      · rcases Array.mem_push.1 he with he | rfl
        · exact hs.few hroom e he
        · exact hname hroom
  · cases hlookup : Program.lookup s.program.funcTable name with
    | some i => exact ⟨i, _, build_eq_ok.2 ⟨_, Program.func_eq_ok.2 (.inl ⟨hlookup, rfl⟩), rfl⟩⟩
    | none => exact ⟨_, _, build_eq_ok.2 ⟨_, Program.func_eq_ok.2 (.inr ⟨hlookup, rfl, rfl⟩), rfl⟩⟩

variable {i : Nat} {t : MachineType}

theorem funcId {R : Post Int} (hi : o.room → ∀ p, K p → ∃ name, p.Calls i name)
    (h : (o.room → i < o.names.length) → R i n [] K) : Emits o K n (Emit.funcId i) R := by
  refine read (P := fun id => id = i ∧ (o.room → i < o.names.length)) (fun s is hs id s' hok => ?_)
    (fun hroom s is hs => ?_) fun _ ⟨hid, hlt⟩ => hid ▸ h hlt
  · obtain ⟨⟨g, hg, rfl⟩, rfl⟩ := funcId_eq_ok.1 hok
    refine ⟨rfl, (hs.sound.listed i g hg).1, fun hroom => ?_⟩
    exact Nat.lt_of_lt_of_le (Array.getElem?_eq_some_iff.1 hg).1 (hs.funcs_le hroom)
  · obtain ⟨name, g, hg, -⟩ := hi hroom _ hs.holds
    exact ⟨_, _, funcId_eq_ok.2 ⟨⟨g, hg, rfl⟩, rfl⟩⟩

theorem call {args : List Operand} {R : Post Operand} (hi : o.room → ∀ p, K p → ∃ name, p.Calls i name)
    (hw : o.room → i < o.names.length → (Instr.call i args n).Whole) (h : R (.id n) (n + 1) [.call i args n] K) :
    Emits o K n (Emit.call i args) R :=
  .bind (.funcId hi fun hlt => .assign rfl (fun hroom => hw hroom (hlt hroom)) h)

theorem objectPtr {R : Post MachineType} (hp : o.room → ∃ t, Program.objectPtr o.base.program = .ok t o.base.program)
    (h : ∀ t, Program.objectPtr o.base.program = .ok t o.base.program → R t n [] K) : Emits o K n Emit.objectPtr R := by
  refine read (fun s is hs t s' hok => ?_) (fun hroom s is hs => ?_) h
  · obtain ⟨hok, rfl⟩ := objectPtr_eq_ok.1 hok
    exact ⟨rfl, (Program.Settled.ok_of_ok (by rw [hs.same]) (by rw [hs.same]) hok).2⟩
  · obtain ⟨t, ht⟩ := hp hroom
    exact ⟨t, s, objectPtr_eq_ok.2 ⟨(Program.Settled.ok_of_ok (by rw [hs.same]) (by rw [hs.same]) ht).2, rfl⟩⟩

theorem globalVar {R : Post Operand} (hi : o.room → ∃ g, o.base.program.globals[i]? = some g)
    (hw : o.room → (Instr.globalVar (o.base.program.variableId i) n).Whole)
    (h : R (.id n) (n + 1) [.globalVar (o.base.program.variableId i) n] fun p =>
      K p ∧ p.variableId i = o.base.program.variableId i) : Emits o K n (Emit.globalVar i) R := by
  refine .bind fun s is hs => ⟨fun id s' hok => ?_, fun hroom => ?_⟩
  · obtain ⟨q, hglobal, rfl⟩ := build_eq_ok.1 hok
    obtain ⟨⟨g, hg, rfl⟩, rfl⟩ := Program.globalId_eq_ok.1 hglobal
    have hid : ∀ p, s.program.Grown p → p.variableId i = g.id := fun p hp => by
      rw [Program.variableId, Program.getElem?_mono hp.globals hg]
      rfl
    have hbase : o.base.program.variableId i = g.id := by
      rw [Program.variableId, ← hs.globals, hg]
      rfl
    rw [hbase] at hw h
    refine ⟨n, [], _, ⟨hs.sound, by rw [List.append_nil]; exact hs.stands, hs.width, hs.same,
      fun p hp => ⟨hs.known p hp, hid p hp⟩, hs.few⟩, .assign rfl hw h⟩
  · obtain ⟨g, hg⟩ := hi hroom
    exact ⟨_, _, build_eq_ok.2 ⟨_, Program.globalId_eq_ok.2 ⟨⟨g, hs.globals ▸ hg, rfl⟩, rfl⟩, rfl⟩⟩

theorem rows {γ : Type} {body : γ → PUnit → Emit (ForInStep PUnit)} {xs : List γ} (count : γ → Nat)
    (made : Program → γ → Nat → List Instr → Prop) (hbody : ∀ x ∈ xs, ∀ n K, (o.room → n + count x ≤ 2 ^ 31) →
      Emits o K n (body x ⟨⟩) fun r m js K' => r = .yield ⟨⟩ ∧ m = n + js.length ∧
        (o.room → js.length = count x) ∧ ∀ p, K' p → K p ∧ made p x n js)
    (hroom : o.room → n + Entry.total count xs ≤ 2 ^ 31) :
    Emits o K n (ForIn.forIn xs PUnit.unit body) fun _ m js K' => m = n + js.length ∧
      (o.room → js.length = Entry.total count xs) ∧ ∀ p, K' p → K p ∧ Row (made p) xs n js := by
  induction xs generalizing n K with
  | nil => exact .pure ⟨rfl, fun _ => rfl, fun p hp => ⟨hp, rfl⟩⟩
  | cons x xs ih =>
    rw [Entry.total] at hroom
    rw [List.forIn_cons]
    refine .bind ((hbody x List.mem_cons_self n K fun h => ?_).mono ?_)
    · have := hroom h
      omega
    rintro _ _ js K1 ⟨rfl, rfl, hcount, hmade⟩
    refine (ih (fun y hy => hbody y (List.mem_cons_of_mem x hy)) fun h => ?_).mono ?_
    · have := hroom h
      have := hcount h
      omega
    rintro _ m ks K2 ⟨rfl, hcount', hrow⟩
    refine ⟨by rw [List.length_append, Nat.add_assoc], fun h => ?_, fun p hp => ?_⟩
    · rw [List.length_append, hcount h, hcount' h, Entry.total]
    obtain ⟨hK1, hks⟩ := hrow p hp
    obtain ⟨hK, hjs⟩ := hmade p hK1
    exact ⟨hK, js, ks, rfl, hjs, hks⟩

end Emits

end Straight

namespace Instr

theorem fitsSigned_iff {n : Nat} : fitsSigned 4 n = true ↔ n < 2 ^ 31 := ⟨Twins.lt_of_fits, fitsSigned_of_lt⟩

variable {a b r : Nat}

theorem whole_load : (load (.id a) r).Whole ↔ a < 2 ^ 31 ∧ r < 2 ^ 31 := by
  simp +decide [whole_iff, fields, fitsSigned_iff]

theorem whole_ret : (ret (.id a)).Whole ↔ a < 2 ^ 31 := by
  simp +decide [whole_iff, fields, fitsSigned_iff]

theorem whole_store : (store (.id a) (.id b) r).Whole ↔ a < 2 ^ 31 ∧ b < 2 ^ 31 ∧ r < 2 ^ 31 := by
  simp +decide [whole_iff, fields, fitsSigned_iff]

theorem whole_add : (binary .add (.id a) (.id b) r).Whole ↔ a < 2 ^ 31 ∧ b < 2 ^ 31 ∧ r < 2 ^ 31 := by
  simp +decide [whole_iff, fields, fitsSigned_iff]

theorem whole_int64 {k : Int} : (int64 (.id k) r).Whole ↔ fitsSigned 8 k = true ∧ r < 2 ^ 31 := by
  simp +decide [whole_iff, fields, fitsSigned_iff]

theorem whole_float64 {x : Binary64} : (float64 (some x) r).Whole ↔ r < 2 ^ 31 := by
  simp +decide [whole_iff, fields, fitsSigned_iff]

theorem whole_globalText {text : String} : (globalText (some text) r).Whole ↔ text.length < 2 ^ 31 ∧ r < 2 ^ 31 := by
  simp +decide [whole_iff, fields, fitsSigned_iff]

theorem whole_globalVar {id : Int} : (globalVar id r).Whole ↔ fitsSigned 4 id = true ∧ r < 2 ^ 31 := by
  simp +decide [whole_iff, fields, fitsSigned_iff]

theorem whole_ptrCast {type : MachineType} (htype : ∀ f ∈ type.fields, f.Fits) :
    (cast .pointer (.id a) type r).Whole ↔ a < 2 ^ 31 ∧ r < 2 ^ 31 := by
  simpa +decide [whole_iff, fields, fitsSigned_iff, or_imp, forall_and] using fun _ _ => htype

theorem whole_element {type : MachineType} (htype : ∀ f ∈ type.fields, f.Fits) :
    (element type (.id a) [.id b] r).Whole ↔ a < 2 ^ 31 ∧ b < 2 ^ 31 ∧ r < 2 ^ 31 := by
  simpa +decide [whole_iff, fields, fitsSigned_iff, or_imp, forall_and] using fun _ _ _ => htype

theorem whole_call {args : List Operand} :
    (call a args r).Whole ↔ a < 2 ^ 31 ∧ args.length < 2 ^ 31 ∧ (∀ v ∈ args, (Field.word v).Fits) ∧ r < 2 ^ 31 := by
  simp +decide [whole_iff, fields, fitsSigned_iff, or_imp, forall_and]

end Instr
end Lowering
