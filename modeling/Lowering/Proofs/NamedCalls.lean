import Lowering.Proofs.HeldCode

/-!
Calls by name. The object that is called is the one that the name is bound to outside the function, if no value is
left over from what was lowered before the call. Otherwise the name is looked up as a method of the value that is left.
-/
namespace Lowering

open Emit

set_option synthInstance.maxSize 100000000

variable {α β : Type} {p q : Program} {s s' : State} {i f k : Nat} {d e : Instr} {name other : String}

section Held

theorem Block.mem_of_mem_push {b : Block} (h : Item.instr e ∈ (b.push d).1.items) : Item.instr e ∈ b.items ∨ e = d := by
  unfold Block.push at h
  split at h
  · exact .inl (by simpa using h)
  · split at h
    · exact .inl h
    · simpa using h

namespace Program

theorem Holds.of_mapBlock {r : BlockRef} {u : Block → Block} (h : (p.mapBlock r u).Holds f e)
    (hu : ∀ b, Item.instr e ∈ (u b).items → Item.instr e ∈ b.items ∨ e = d) : p.Holds f e ∨ e = d := by
  obtain ⟨g, hg, k, b, hk, hb, he⟩ := h
  rw [mapBlock, getElem?_mapFunc] at hg
  split at hg
  next =>
    obtain ⟨g', hg', rfl⟩ := Option.map_eq_some_iff.1 hg
    rw [Array.getElem?_modify] at hb
    split at hb
    next =>
      obtain ⟨b', hb', rfl⟩ := Option.map_eq_some_iff.1 hb
      exact (hu b' he).imp_left fun he => ⟨g', hg', k, b', hk, hb', he⟩
    next => exact .inl ⟨g', hg', k, b, hk, hb, he⟩
  next => exact .inl ⟨g, hg, k, b, hk, hb, he⟩

theorem Holds.of_mapFunc {u : Func → Func} (h : (p.mapFunc i u).Holds f e) (hu : ∀ g, (u g).Holds e → g.Holds e) :
    p.Holds f e := by
  obtain ⟨g, hg, he⟩ := h
  rw [getElem?_mapFunc] at hg
  split at hg
  next =>
    obtain ⟨g', hg', rfl⟩ := Option.map_eq_some_iff.1 hg
    exact ⟨g', hg', hu g' he⟩
  next => exact ⟨g, hg, he⟩

theorem Kept.holds (h : p.Kept q) (he : q.Holds f e) : p.Holds f e := by
  obtain ⟨g, hg, k, b, hk, hb, he⟩ := he
  rcases h.added f g hg with hg | hdeclared
  · exact ⟨g, hg, k, b, hk, hb, he⟩
  · rw [hdeclared.blocks] at hb
    cases hb

end Program

theorem Program.callee_of_refers (he : e.refers = false) : p.callee e = none := by
  cases e with
  | call => cases he
  | _ => rfl

theorem holds_pushValue {r : BlockRef} (h : (pushValue p i r d).Holds f e) : p.Holds f e ∨ e = d :=
  (h.of_mapFunc fun _ he => he).of_mapBlock fun _ => Block.mem_of_mem_push

theorem Func.holds_addBlock {g : Func} {label : Option String} (h : (g.addBlock label).Holds e) : g.Holds e := by
  obtain ⟨k, b, hk, hb, he⟩ := h
  rw [Func.addBlock, Array.getElem?_push] at hb
  split at hb
  next =>
    cases hb
    simp at he
  next => exact ⟨k, b, hk, hb, he⟩

theorem Emit.Ends.holds {targets : List BlockRef} {leaves : Bool} (h : Ends s s' d targets leaves)
    (he : s'.program.Holds f e) : s.program.Holds f e ∨ e = d := by
  obtain ⟨r, -, -, rfl⟩ := h
  exact Program.Holds.of_mapBlock he fun _ => Block.mem_of_mem_push

end Held

/-- Code has been added to a program, but no call of the function of that name. What a call calls is read off the
program as it is in the end. -/
structure State.Spares (name : String) (p : Program) (s : State) : Prop where
  sound : s.program.Sound
  calls : ∀ (last : Program) (f : Nat) (e : Instr), s.program.Grown last → s.program.Holds f e →
    last.callee e = some name → p.Holds f e

namespace State.Spares

theorem refl (hs : s.program.Sound) : s.Spares name s.program := ⟨hs, fun _ _ _ _ he _ => he⟩

theorem step (hs : s.Spares name p) (hsound : s'.program.Sound) (hgrown : s.program.Grown s'.program)
    (hnew : ∀ (last : Program) (f : Nat) (e : Instr), s'.program.Grown last → s'.program.Holds f e →
      last.callee e = some name → s.program.Holds f e) : s'.Spares name p where
  sound := hsound
  calls last f e hlast he hcallee :=
    hs.calls last f e (hgrown.trans hlast) (hnew last f e hlast he hcallee) hcallee

end State.Spares

/-- No call of the function is added to the program. -/
abbrev silent (name : String) (p : Program) : Regime := .lasting (State.Spares name p)

namespace Emit

section Spared

theorem heeds_spares (x : Emit α) [Grows x]
    (h : ∀ {s s' : State} {a : α}, x s = .ok a s' → ∀ (last : Program) (f : Nat) (e : Instr), s'.program.Holds f e →
      last.callee e = some name → s.program.Holds f e) : Heeds (silent name p) x :=
  heeds_lasting fun hs hx => by
    obtain ⟨hsound, hgrown⟩ := Grows.extends_of_ok hx hs.sound
    exact hs.step hsound hgrown fun last f e _ => h hx last f e

theorem heeds_spares_ends {d : State → Instr} {targets : List BlockRef} {leaves : Bool} (x : Emit Unit) [Grows x]
    (hx : ∀ {s s' : State}, x s = .ok () s' → Ends s s' (d s) targets leaves)
    (hd : ∀ (q : Program) s, q.callee (d s) = none) : Heeds (silent name p) x := by
  refine heeds_spares x fun {s s' _} h last f e he hcallee => ?_
  rcases (hx h).holds he with he | rfl
  · exact he
  · rw [hd] at hcallee
    cases hcallee

theorem heeds_spares_assign {mk : Nat → Instr} (hend : ∀ n, (mk n).isTerminator = false)
    (hcall : ∀ (q : Program) n, q.callee (mk n) = none) : Heeds (silent name p) (assign mk) := by
  have hgrows : Grows (assign mk) := .assign hend
  refine heeds_spares _ fun h last f e he hcallee => ?_
  obtain ⟨r, g, -, -, -, -, rfl⟩ := assign_eq_ok.1 h
  rcases holds_pushValue he with he | rfl
  · exact he
  · rw [hcall] at hcallee
    cases hcallee

instance (ref : Option BlockRef) : Heeds (silent name p) (moveTo ref) := by
  refine heeds_spares _ fun h last f e he _ => ?_
  rw [moveTo_eq_ok.1 h] at he
  exact he

instance : (silent name p).Computes := by
  refine Regime.computes_of_same (fun hs hprogram _ _ _ _ _ => ⟨hprogram ▸ hs.sound, hprogram ▸ hs.calls⟩)
    (fun x => heeds_lasting fun hs h => ?_) (fun mk hend hcall => ?_) fun type nulled => ?_
  · obtain ⟨q, hx, rfl⟩ := build_eq_ok.1 h
    obtain ⟨hsound, hgrown⟩ := Program.Request.extends_of_ok hx hs.sound
    exact hs.step hsound hgrown fun _ _ _ _ he _ => (Program.Request.kept hs.sound hx).holds he
  · exact heeds_spares_assign hend fun _ n => Program.callee_of_refers (hcall n)
  · have hentry : Heeds (silent name p) entryBlock := heeds_entryBlock
    have halloca : Heeds (silent name p) (assign (.alloca type)) :=
      heeds_spares_assign (fun _ => rfl) fun _ _ => rfl
    have hnull : Heeds (silent name p) (assign (.null type)) :=
      heeds_spares_assign (fun _ => rfl) fun _ _ => rfl
    have hstore : ∀ a b, Heeds (silent name p) (assign (.store a b)) :=
      fun _ _ => heeds_spares_assign (fun _ => rfl) fun _ _ => rfl
    unfold entryVar setBlock hereBlock? here alloca null store
    infer_instance

instance : (silent name p).Notes where
  note _ := heeds_lasting fun hs h => by cases h; exact { hs with }

/-- A call of a function with another name. -/
theorem heeds_spares_call (hother : other ≠ name) (result : MachineType) (params : List MachineType)
    (args : List Operand) :
    Heeds (silent name p) (do let f ← external other result params; call f args) :=
  heeds_lasting fun {s s' a} hs h => by
    obtain ⟨n, s1, h1, h⟩ := bind_eq_ok.1 h
    have hs1 : s1.Spares name p :=
      holds_of_ok (R := silent name p) (x := build (Program.func other result params externalLinkage)) hs h1
    obtain ⟨q, hfunc, rfl⟩ := build_eq_ok.1 h1
    obtain ⟨g, hg, hname⟩ := Program.func_named hs.sound hfunc
    obtain ⟨hsound, hgrown⟩ := Grows.extends_of_ok h hs1.sound
    obtain ⟨id, s2, hid, h⟩ := bind_eq_ok.1 h
    obtain ⟨⟨g', hg', rfl⟩, rfl⟩ := funcId_eq_ok.1 hid
    obtain ⟨r, _, -, -, -, -, hs'⟩ := assign_eq_ok.1 h
    refine hs1.step hsound hgrown fun last f e hlast he hcallee => ?_
    rw [hs'] at he
    rcases holds_pushValue he with he | rfl
    · exact he
    · have hcalls : last.Calls n other := .of_grown ⟨g, hg, hname⟩ (hgrown.trans hlast)
      rw [(hs1.sound.listed n g' hg').1, hcalls.callee] at hcallee
      exact absurd (Option.some.inj hcallee) hother

instance (label : Option String) : Heeds (silent name p) (createBlock label) := by
  refine heeds_spares _ fun h last f e he _ => ?_
  obtain ⟨-, rfl⟩ := createBlock_eq_ok.1 h
  exact Program.Holds.of_mapFunc he fun _ => Func.holds_addBlock

instance (r : BlockRef) : Heeds (silent name p) (setBlock r) := by unfold setBlock; infer_instance

instance (r : BlockRef) : Heeds (silent name p) (branch r) :=
  heeds_spares_ends _ (fun h => (branch_eq_ok.1 h).2) fun _ _ => rfl

instance (c : Operand) (yes no : BlockRef) : Heeds (silent name p) (condBranch c yes no) :=
  heeds_spares_ends _ (fun h => condBranch_eq_ok.1 h) fun _ _ => rfl

end Spared

end Emit

/-- The library function that looks a method up. -/
def methodLookup : String := "_PyObject_GetMethod"

namespace Emit

section Calls

variable (a b c : Operand) (args : Batch Operand) (kw : Keywords)

instance : Heeds (silent methodLookup p) newDict := by
  unfold newDict
  exact ⟨.bind Agrees.agree fun t _ => (heeds_spares_call (by decide) _ _ _).agree⟩

instance : Heeds (silent methodLookup p) (dictSet a b c) := by
  unfold dictSet
  exact ⟨.bind Agrees.agree fun t _ => (heeds_spares_call (by decide) _ _ _).agree⟩

instance : Heeds (silent methodLookup p) (dictGet a b) := by
  unfold dictGet callObjects
  exact ⟨.bind Agrees.agree fun t _ => (heeds_spares_call (by decide) _ _ _).agree⟩

instance : Heeds (silent methodLookup p) (callByVector a b args kw c) := by
  unfold callByVector; dsimp only; infer_instance

instance : Heeds (silent methodLookup p) (callByTuple a args kw) := by
  unfold callByTuple; dsimp only; infer_instance

instance : Heeds (silent methodLookup p) (callCallable a b args kw) := by
  unfold callCallable release; infer_instance

end Calls

end Emit

def State.leaving (s : State) (t : Term) : State := { s with tree := { s.tree with last := t } }

namespace Emit

/-- What the action does is the same whatever value is left over. -/
class Forgets (x : Emit α) : Prop where
  of_ok : ∀ {s s' : State} {a : α} (t : Term), x s = .ok a s' → x (s.leaving t) = .ok a (s'.leaving t)

theorem Forgets.eq_ok_iff {x : Emit α} [hx : Forgets x] {a : α} {t : Term} :
    x (s.leaving t) = .ok a s' ↔ ∃ s1, x s = .ok a s1 ∧ s' = s1.leaving t := by
  constructor
  · intro h
    refine ⟨s'.leaving s.tree.last, hx.of_ok (s := s.leaving t) s.tree.last h, ?_⟩
    have hkept : x (s.leaving t) = .ok a (s'.leaving t) := hx.of_ok (s := s.leaving t) t h
    rw [h] at hkept
    injection hkept
  · rintro ⟨s1, h, rfl⟩
    exact hx.of_ok t h

section Forgetting

instance (a : α) : Forgets (pure a : Emit α) where
  of_ok t h := by
    obtain ⟨rfl, rfl⟩ := pure_eq_ok.1 h
    rfl

instance (e : Fault) : Forgets (throw e : Emit α) := ⟨fun _ h => absurd h throw_ne_ok⟩

instance (x : Emit α) (g : α → Emit β) [hx : Forgets x] [hg : ∀ a, Forgets (g a)] : Forgets (x >>= g) where
  of_ok t h := by
    obtain ⟨a, s1, hxa, hga⟩ := bind_eq_ok.1 h
    exact bind_eq_ok.2 ⟨a, s1.leaving t, hx.of_ok t hxa, (hg a).of_ok t hga⟩

instance (c : Prop) [Decidable c] (x y : Emit α) [Forgets x] [Forgets y] : Forgets (if c then x else y) := by
  split <;> infer_instance

instance (x : Except Fault α) : Forgets (lift x) := by
  cases x with
  | ok a => exact inferInstanceAs (Forgets (pure a))
  | error e => exact inferInstanceAs (Forgets (throw e))

instance (x : Build α) : Forgets (build x) where
  of_ok t h := by
    obtain ⟨q, hx, rfl⟩ := build_eq_ok.1 h
    exact build_eq_ok.2 ⟨q, hx, rfl⟩

instance (mk : Nat → Instr) : Forgets (assign mk) where
  of_ok t h := by
    obtain ⟨r, g, hr, hg, hw, rfl, rfl⟩ := assign_eq_ok.1 h
    exact assign_eq_ok.2 ⟨r, g, hr, hg, hw, rfl, rfl⟩

instance (n : Nat) : Forgets (funcId n) where
  of_ok t h := by
    obtain ⟨hid, rfl⟩ := funcId_eq_ok.1 h
    exact funcId_eq_ok.2 ⟨hid, rfl⟩

theorem forgets_program {x : Emit α} {g : Program → Emit α} (hx : ∀ s, x s = g s.program s)
    (hg : ∀ p, Forgets (g p)) : Forgets x where
  of_ok {s _ _} t h := by
    rw [hx] at h ⊢
    exact (hg s.program).of_ok t h

instance (field : Known → Option Nat) : Forgets (knownOrNoMember field) := by
  refine forgets_program (g := fun p => match field p.known with | some i => pure i | none => throw .noMember)
    (fun _ => rfl) fun p => ?_
  cases field p.known <;> infer_instance

instance : Forgets functionStruct := by
  have hread : ∀ i : Nat, Forgets ((get : Emit State) >>= fun s => pure (s.program.structs[i]?.getD default).type) :=
    fun i => forgets_program (g := fun p => pure (p.structs[i]?.getD default).type) (fun _ => rfl) fun _ => inferInstance
  unfold functionStruct
  infer_instance

instance (a : Operand) (n : Nat) : Forgets (functionMember a n) := by
  unfold functionMember memberOf int32 element ptrCast cast load
  infer_instance

instance (l : Label) : Forgets (loadText l) := by unfold loadText globalVar load; infer_instance

instance (l : Label) : Forgets (Lower.globalObject l) := by
  unfold Lower.globalObject functionBuiltins functionGlobals dictGet callObjects objectPtr external call
  infer_instance

end Forgetting

end Emit

namespace Lower

/-- An argument of a call that is not named. -/
def argumentOf (r : Recur) (arg : Node) : Emit Operand := do
  resetLast
  let t ← r.term arg
  setLastType none
  return t.value

/-- The arguments of a call: the names and values of those that are named, and the values of the others. -/
def argumentsOf (r : Recur) (args keywords : Node) : Emit (List (Operand × Operand) × List Operand) := do
  let pairs ← (← each keywords).mapM (keywordArg r)
  let values ← (← each args).mapM (argumentOf r)
  return (pairs, values)

/-- A call of the object that a name is bound to outside the function. -/
def callGlobal (id : Label) (values : List Operand) (pairs : List (Operand × Operand)) : Emit Unit := do
  let callable ← globalObject id
  setLast ⟨some .python, .absent⟩
  setLastValue (← callCallable callable callable values (.pairs pairs))

/-- What a call by name means: nothing is read of what was lowered before. -/
def callNamed (r : Recur) (id : Label) (args keywords : Node) : Emit Unit := do
  resetLast
  let (pairs, values) ← argumentsOf r args keywords
  callGlobal id values pairs

variable {r : Recur} {func args keywords : Node} {id : Label} {usage : Option Usage} {t : Term}

theorem callExpr_name_run (hfunc : func.form = .name id usage) : callExpr r func args keywords s = (do
    let (pairs, values) ← argumentsOf r args keywords
    setLast s.tree.last
    if s.tree.last.value = .absent then
      let callable ← globalObject id
      setLastType (some .python)
      setLastValue (← callCallable callable callable values (.pairs pairs))
    else
      let result ← callMember s.tree.last.value id values (.pairs pairs)
      setLast ⟨some .python, result⟩ : Emit Unit) s := by
  have hcallee : callee r func = pure id := by
    rw [callee, hfunc]
  rw [callExpr, hcallee, pure_bind, get_bind_run]
  simp only [argumentsOf, bind_assoc, pure_bind]
  rfl

theorem mapM_leaving {γ : Type} {g : γ → Emit β} (hg : ∀ c s t, g c (State.leaving s t) = g c s) {cs : List γ}
    {bs : List β} (t : Term) (h : cs.mapM g s = .ok bs s') : ∃ u, cs.mapM g (s.leaving t) = .ok bs (s'.leaving u) := by
  cases cs with
  | nil =>
    obtain ⟨rfl, rfl⟩ := pure_eq_ok.1 h
    exact ⟨t, rfl⟩
  | cons c cs =>
    rw [List.mapM_cons] at h
    obtain ⟨b, s1, hc, h⟩ := bind_eq_ok.1 h
    rw [List.mapM_cons]
    exact ⟨s'.tree.last, bind_eq_ok.2 ⟨b, s1, (hg c s t).trans hc, h⟩⟩

theorem each_eq_ok {n : Node} {items : List Node} : each n s = .ok items s' ↔ n.items? = some items ∧ s' = s := by
  rw [each]
  cases n.items? with
  | none => simp [throw_ne_ok]
  | some _ => simp [pure_eq_ok, eq_comm]

theorem argumentsOf_eq_ok {v : List (Operand × Operand) × List Operand} : argumentsOf r args keywords s = .ok v s' ↔
    ∃ ks as s1, keywords.items? = some ks ∧ args.items? = some as ∧ ks.mapM (keywordArg r) s = .ok v.1 s1 ∧
      as.mapM (argumentOf r) s1 = .ok v.2 s' := by
  simp only [argumentsOf, bind_eq_ok, each_eq_ok, pure_eq_ok]
  constructor
  · rintro ⟨ks, _, ⟨hks, rfl⟩, pairs, s1, hpairs, as, _, ⟨has, rfl⟩, values, s2, hvalues, rfl, rfl⟩
    exact ⟨ks, as, _, hks, has, hpairs, hvalues⟩
  · rintro ⟨ks, as, s1, hks, has, hpairs, hvalues⟩
    exact ⟨ks, s, ⟨hks, rfl⟩, v.1, s1, hpairs, as, s1, ⟨has, rfl⟩, v.2, s', hvalues, rfl, rfl⟩

theorem argumentsOf_leaving {v : List (Operand × Operand) × List Operand} (t : Term)
    (h : argumentsOf r args keywords s = .ok v s') :
    ∃ u, argumentsOf r args keywords (s.leaving t) = .ok v (s'.leaving u) := by
  obtain ⟨ks, as, s1, hks, has, hpairs, hvalues⟩ := argumentsOf_eq_ok.1 h
  obtain ⟨t1, hpairs'⟩ := mapM_leaving (fun _ _ _ => rfl) t hpairs
  obtain ⟨t2, hvalues'⟩ := mapM_leaving (fun _ _ _ => rfl) t1 hvalues
  exact ⟨t2, argumentsOf_eq_ok.2 ⟨ks, as, _, hks, has, hpairs', hvalues'⟩⟩

/-- Where no value is left over, the object that the name is bound to is called. -/
theorem callExpr_of_absent (hfunc : func.form = .name id usage) (hlast : s.tree.last.value = .absent) :
    callExpr r func args keywords s = .ok () s' ↔ callNamed r id args keywords s = .ok () s' := by
  have hset : ∀ (u : Term) (type : Option ValueType) (s : State), u.value = .absent →
      setLastType type (s.leaving u) = .ok () (s.leaving ⟨type, .absent⟩) := by
    rintro ⟨_, _⟩ type s rfl
    rfl
  simp only [callExpr_name_run hfunc, if_pos hlast]
  constructor
  · intro h
    obtain ⟨⟨pairs, values⟩, s1, hargs, h⟩ := bind_eq_ok.1 h
    obtain ⟨_, s2, h2, h⟩ := bind_eq_ok.1 h
    obtain rfl : s1.leaving s.tree.last = s2 := by cases h2; rfl
    obtain ⟨callable, s3, h3, h⟩ := bind_eq_ok.1 h
    obtain ⟨s4, h4, rfl⟩ := Forgets.eq_ok_iff.1 h3
    obtain ⟨u, hargs'⟩ := argumentsOf_leaving ⟨none, .absent⟩ hargs
    refine bind_eq_ok.2 ⟨(), _, rfl, bind_eq_ok.2 ⟨(pairs, values), _, hargs', ?_⟩⟩
    refine bind_eq_ok.2 ⟨callable, _, Forgets.eq_ok_iff.2 ⟨s4, h4, rfl⟩, ?_⟩
    rwa [bind_run_of_ok (hset _ _ _ hlast)] at h
  · intro h
    obtain ⟨_, s0, h0, h⟩ := bind_eq_ok.1 h
    obtain rfl : s.leaving ⟨none, .absent⟩ = s0 := by cases h0; rfl
    obtain ⟨⟨pairs, values⟩, s1, hargs, h⟩ := bind_eq_ok.1 h
    obtain ⟨callable, s2, h2, h⟩ := bind_eq_ok.1 h
    obtain ⟨u, hargs'⟩ := argumentsOf_leaving s.tree.last hargs
    refine bind_eq_ok.2 ⟨(pairs, values), _, hargs', bind_eq_ok.2 ⟨(), _, rfl, ?_⟩⟩
    refine bind_eq_ok.2 ⟨callable, _, Forgets.eq_ok_iff (s := s1).2 ⟨s2, h2, rfl⟩, ?_⟩
    rw [bind_run_of_ok (hset _ _ _ hlast)]
    exact h

theorem callGlobal_spares {values : List Operand} {pairs : List (Operand × Operand)} (hs : s.program.Sound)
    (h : callGlobal id values pairs s = .ok () s') (he : s'.program.Holds f e)
    (hcallee : s'.program.callee e = some methodLookup) : s.program.Holds f e := by
  obtain ⟨callable, s1, h1, h⟩ := bind_eq_ok.1 h
  have hs1 : s1.Spares methodLookup s.program := Preserves.of_ok (.refl hs) h1
  obtain ⟨_, s2, h2, h⟩ := bind_eq_ok.1 h
  have hs2 : s2.Spares methodLookup s.program := by
    cases h2
    exact ⟨hs1.sound, hs1.calls⟩
  obtain ⟨result, s3, h3, h⟩ := bind_eq_ok.1 h
  have hs3 : s3.Spares methodLookup s.program := Preserves.of_ok hs2 h3
  cases h
  exact hs3.calls _ f e (.refl _) he hcallee

/-- A call of a library function goes to the block in hand, if that is open, and is known as such from then on. -/
theorem held_of_call {result : MachineType} {params : List MachineType} {n : Nat} {values : List Operand} {v : Operand}
    {s1 : State} (hs : s.Awaits i f k ⟨f, k⟩) (hfunc : external name result params s = .ok n s1)
    (h : call n values s1 = .ok v s') : ∃ m c, s'.program.Holds f (.call m values c) ∧
      ∀ last : Program, s'.program.Grown last → last.callee (.call m values c) = some name := by
  have hs1 : s1.Awaits i f k ⟨f, k⟩ := Preserves.of_ok hs hfunc
  obtain ⟨q, hq, rfl⟩ := build_eq_ok.1 hfunc
  obtain ⟨g, hg, hname⟩ := Program.func_named hs.sound hq
  have hgrown := (Grows.extends_of_ok h hs1.sound).2
  obtain ⟨m, s2, hm, hassign⟩ := bind_eq_ok.1 h
  obtain ⟨⟨g', hg', rfl⟩, rfl⟩ := funcId_eq_ok.1 hm
  obtain ⟨c, -, hholds⟩ := hs1.assign hassign
  refine ⟨g'.id, c, hholds, fun last hlast => ?_⟩
  rw [(hs1.sound.listed n g' hg').1]
  exact (Program.Calls.of_grown ⟨g, hg, hname⟩ (hgrown.trans hlast)).callee _ _

theorem callMember_looks {object result : Operand} {values : List Operand} {kw : Keywords} (hs : s.Writing i f)
    (h : callMember object id values kw s = .ok result s') :
    ∃ n rest k, s'.program.Holds f (.call n (object :: rest) k) ∧
      s'.program.callee (.call n (object :: rest) k) = some methodLookup := by
  obtain ⟨k, hs⟩ := hs
  obtain ⟨ptr, s1, h1, h⟩ := bind_eq_ok.1 h
  have hs1 : s1.Awaits i f k ⟨f, k⟩ := Preserves.of_ok hs h1
  obtain ⟨out, s2, h2, h⟩ := bind_eq_ok.1 h
  have hs2 : s2.Awaits i f k ⟨f, k⟩ := Preserves.of_ok hs1 h2
  obtain ⟨found, s3, h3, h⟩ := bind_eq_ok.1 h
  have hs3 : s3.Awaits i f k ⟨f, k⟩ := Preserves.of_ok hs2 h3
  obtain ⟨text, s4, h4, h⟩ := bind_eq_ok.1 h
  have hs4 : s4.Awaits i f k ⟨f, k⟩ := Preserves.of_ok hs3 h4
  obtain ⟨n, s5, h5, h⟩ := bind_eq_ok.1 h
  have hs5 : s5.Awaits i f k ⟨f, k⟩ := Preserves.of_ok hs4 h5
  obtain ⟨isMethod, s6, h6, h⟩ := bind_eq_ok.1 h
  obtain ⟨m, c, hholds, hcallee⟩ := held_of_call hs4 h5 h6
  have hgrown := (Grows.extends_of_ok h (Grows.extends_of_ok h6 hs5.sound).1).2
  exact ⟨m, [text, found], c, hholds.of_grown hgrown, hcallee _ hgrown⟩

/-- Where a value is left over, the name is looked up as a method of it. -/
theorem callExpr_of_left (hfunc : func.form = .name id usage) (hlast : s.tree.last.value ≠ .absent)
    (h : callExpr r func args keywords s = .ok () s') :
    ∃ v s1, argumentsOf r args keywords s = .ok v s1 ∧ ∀ i f, s1.Writing i f →
      ∃ n rest k, s'.program.Holds f (.call n (s.tree.last.value :: rest) k) ∧
        s'.program.callee (.call n (s.tree.last.value :: rest) k) = some methodLookup := by
  simp only [callExpr_name_run hfunc, if_neg hlast] at h
  obtain ⟨⟨pairs, values⟩, s1, hargs, h⟩ := bind_eq_ok.1 h
  refine ⟨(pairs, values), s1, hargs, fun i f hs1 => ?_⟩
  obtain ⟨_, s2, h2, h⟩ := bind_eq_ok.1 h
  obtain rfl : s1.leaving s.tree.last = s2 := by cases h2; rfl
  obtain ⟨result, s3, h3, h⟩ := bind_eq_ok.1 h
  obtain ⟨k, hs1⟩ := hs1
  have hleft : (s1.leaving s.tree.last).Writing i f := ⟨k, hs1.of_same rfl rfl⟩
  obtain ⟨n, rest, m, hholds, hcallee⟩ := callMember_looks hleft h3
  cases h
  exact ⟨n, rest, m, hholds, hcallee⟩

end Lower
end Lowering
