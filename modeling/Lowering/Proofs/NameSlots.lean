import Lowering.Proofs.Comprehension
import Lowering.Proofs.Targets

/-!
What names stand for. A name that is read or written stands for a slot of the function, which is made when the name is
first met and kept from then on, whether or not anything is ever stored there; no name is looked up in a dictionary to
be read. A name that is called is always looked up in one, also where it has a slot.
-/
namespace Lowering

open Emit

namespace Lower

variable {scope i f fuel : Nat} {s s' : State} {id : Label} {x : String} {a : Operand}

section Slots

/-- Makes a variable for a name, with its place in the entry block. -/
def newSlot (scope : Nat) (x : String) : Emit Operand := do
  let v ← addVariable scope x (some .python)
  let address ← entryVar (← objectPtr)
  modifyVariable v fun v => { v with slot := .value address }
  return address

theorem lookupScope_run (hs : s.Scoped scope) : lookupScope s = .ok scope s := by
  rw [lookupScope, get_bind_run, hs.lowerer, ← hs.tree]
  rfl

theorem place?_eq (hs : s.Scoped scope) : s.place? x = (s.named? scope x).map s.place := by
  rw [State.place?, hs.tree]

theorem slotFor_of_place? (hs : s.Scoped scope) (hid : id.text? = some x) (ha : s.place? x = some a) :
    slotFor id s = .ok a s := by
  rw [place?_eq hs] at ha
  obtain ⟨v, hv, rfl⟩ := Option.map_eq_some_iff.1 ha
  have hfind : findVariable scope x s = .ok (some v) s := congrArg (EStateM.Result.ok · s) hv
  have hvar : variableFor id s = .ok v s := by
    rw [variableFor, bind_run_of_ok (lookupScope_run hs), hid]
    dsimp only
    rw [bind_run_of_ok hfind]
    rfl
  rw [slotFor, bind_run_of_ok hvar]
  rfl

/-- A variable that is added for a name is found by it, also when code has been emitted since. -/
theorem named?_of_add {v : Nat} {s1 s2 s3 : State} {ptr : MachineType} (hs : s.Scoped scope)
    (hnone : s.named? scope x = none) (h1 : addVariable scope x (some .python) s = .ok v s1)
    (h2 : objectPtr s1 = .ok ptr s2) (h3 : entryVar ptr false s2 = .ok a s3) :
    s3.Scoped scope ∧ s3.named? scope x = some v := by
  obtain ⟨rfl, w, hname, rfl⟩ := addVariable_eq_ok h1
  have hnamed := hs.named?_add (x := x) scope w
  rw [hnone, Option.none_or, if_pos ⟨rfl, hname⟩] at hnamed
  have hholds := holds_bind (holds_of_scoped (hs.add scope w)) hnamed
  obtain ⟨hs3, hplaces⟩ := holds_of_ok (holds_of_ok hholds h2) h3
  exact ⟨hs3, (hplaces x _ _ (if_pos rfl)).1⟩

def withSlot (s : State) (v : Nat) (a : Operand) : State :=
  { s with vars := s.vars.modify v fun w => { w with slot := .value a } }

theorem named?_withSlot (v : Nat) : (withSlot s v a).named? scope x = s.named? scope x :=
  State.named?_modify v (fun w => { w with slot := .value a }) fun _ => rfl

theorem place_withSlot {v : Nat} (hs : s.Scoped scope) (hv : s.named? scope x = some v) :
    (withSlot s v a).place v = a := by
  change slotOperand ((s.vars.modify _ _)[v]?.getD default).slot = _
  rw [Array.getElem?_modify, if_pos rfl, Array.getElem?_eq_getElem (hs.lt_of_named? hv)]
  rfl

theorem slotFor_of_absent (hs : s.Scoped scope) (hid : id.text? = some x) (hnone : s.place? x = none) :
    slotFor id s = newSlot scope x s := by
  rw [place?_eq hs, Option.map_eq_none_iff] at hnone
  have hfind : findVariable scope x s = .ok none s := congrArg (EStateM.Result.ok · s) hnone
  rw [slotFor, variableFor, bind_assoc, bind_run_of_ok (lookupScope_run hs), hid]
  dsimp only
  rw [bind_assoc, bind_run_of_ok hfind]
  simp only [newSlot, bind_assoc, pure_bind]
  refine bind_run_congr fun v s1 h1 => bind_run_congr fun ptr s2 h2 => bind_run_congr fun address s3 h3 => ?_
  refine bind_run_congr fun _ s4 h4 => ?_
  obtain ⟨hs3, hv⟩ := named?_of_add hs hnone h1 h2 h3
  obtain rfl : s4 = withSlot s3 v address := by cases h4; rfl
  exact congrArg (EStateM.Result.ok · _) (place_withSlot hs3 hv)

theorem place?_of_newSlot (hs : s.Scoped scope) (hnone : s.place? x = none) (h : newSlot scope x s = .ok a s') :
    s'.Scoped scope ∧ s'.place? x = some a := by
  rw [place?_eq hs, Option.map_eq_none_iff] at hnone
  obtain ⟨v, s1, h1, h⟩ := bind_eq_ok.1 h
  obtain ⟨ptr, s2, h2, h⟩ := bind_eq_ok.1 h
  obtain ⟨address, s3, h3, h⟩ := bind_eq_ok.1 h
  obtain ⟨hs3, hv⟩ := named?_of_add hs hnone h1 h2 h3
  obtain ⟨_, s4, h4, h⟩ := bind_eq_ok.1 h
  obtain rfl : s4 = withSlot s3 v address := by cases h4; rfl
  obtain ⟨rfl, rfl⟩ := pure_eq_ok.1 h
  have hs' : (withSlot s3 v a).Scoped scope := hs3.modify v _
  rw [place?_eq hs', named?_withSlot, hv, Option.map_some, place_withSlot hs3 hv]
  exact ⟨hs', rfl⟩

theorem place?_of_slotFor (hs : s.Scoped scope) (hid : id.text? = some x) (h : slotFor id s = .ok a s') :
    s'.Scoped scope ∧ s'.place? x = some a := by
  cases hplace : s.place? x with
  | none =>
    rw [slotFor_of_absent hs hid hplace] at h
    exact place?_of_newSlot hs hplace h
  | some b =>
    rw [slotFor_of_place? hs hid hplace] at h
    cases h
    exact ⟨hs, hplace⟩

/-- Whatever is lowered, a name keeps its slot. -/
theorem place?_of_visit {m : Node} {u : Unit} (hs : s.Scoped scope) (ha : s.place? x = some a)
    (h : (recur fuel).visit m s = .ok u s') : s'.Scoped scope ∧ s'.place? x = some a := by
  rw [place?_eq hs] at ha
  obtain ⟨v, hv, rfl⟩ := Option.map_eq_some_iff.1 ha
  obtain ⟨hs', hplaces⟩ := holds_of_ok (holds_bind (holds_of_scoped hs) hv) h
  obtain ⟨hv', hplace⟩ := hplaces x v _ (if_pos rfl)
  rw [place?_eq hs', hv', Option.map_some, hplace]
  exact ⟨hs', rfl⟩

end Slots

section Calls

variable {name : String} {p : Program}

instance (id : Label) (u : Option Usage) : Heeds (silent name p) ((Reference.named id).use u) := by
  have hread : Heeds (silent name p) (Reference.named id).read :=
    inferInstanceAs (Heeds _ (do setLastType (some .python); setLastValue (← load (← slotFor id))))
  have hwrite : ∀ v, Heeds (silent name p) (Reference.write v (.named id)) := fun v =>
    inferInstanceAs (Heeds _ (do discard (store v (← slotFor id))))
  have hpass : Heeds (silent name p) (Reference.named id).pass := inferInstanceAs (Heeds _ (pure ()))
  unfold Reference.use
  split <;> infer_instance

/-- The library function that looks a name up in a dictionary. -/
def dictLookup : String := "PyDict_GetItem"

/-- The dictionary in which a name is looked up that is bound outside the function. -/
def dictOf (x : String) : Emit Operand := if isBuiltin x then functionBuiltins 0 else functionGlobals 0

theorem globalObject_eq (hid : id.text? = some x) :
    globalObject id = (do let dict ← dictOf x; let text ← loadText x; dictGet dict text) := by
  have hname : lift id.required = pure x := by rw [Label.required, hid]; rfl
  rw [globalObject, hname, pure_bind, dictOf]
  dsimp only
  split <;> rfl

/-- The object that a name is bound to outside the function is looked up in a dictionary. -/
theorem globalObject_looks {v : Operand} (hid : id.text? = some x) (hs : s.Writing i f)
    (h : globalObject id s = .ok v s') : ∃ dict text s1 s2 m k, dictOf x s = .ok dict s1 ∧ loadText x s1 = .ok text s2 ∧
      s'.program.Sound ∧ s'.program.Holds f (.call m [dict, text] k) ∧
      ∀ last : Program, s'.program.Grown last → last.callee (.call m [dict, text] k) = some dictLookup := by
  obtain ⟨k, hs⟩ := hs
  rw [globalObject_eq hid] at h
  obtain ⟨dict, s1, h1, h⟩ := bind_eq_ok.1 h
  have hdict : Preserves (State.Awaits i f k ⟨f, k⟩) (dictOf x) := by
    unfold dictOf
    infer_instance
  have hs1 : s1.Awaits i f k ⟨f, k⟩ := Preserves.of_ok hs h1
  obtain ⟨text, s2, h2, h⟩ := bind_eq_ok.1 h
  have hs2 : s2.Awaits i f k ⟨f, k⟩ := Preserves.of_ok hs1 h2
  obtain ⟨ptr, s3, h3, h⟩ := bind_eq_ok.1 h
  have hs3 : s3.Awaits i f k ⟨f, k⟩ := Preserves.of_ok hs2 h3
  obtain ⟨n, s4, h4, h⟩ := bind_eq_ok.1 h
  have hs4 : s4.Awaits i f k ⟨f, k⟩ := Preserves.of_ok hs3 h4
  obtain ⟨m, c, hholds, hcallee⟩ := held_of_call hs3 h4 h
  exact ⟨dict, text, s1, s2, m, c, h1, h2, (Grows.extends_of_ok h hs4.sound).1, hholds, hcallee⟩

end Calls

section Parameters

open Twins (bindAt bindFrom bindArguments_tuple bindArguments_vector tuplePlace vectorPlace parametersOf
  bindParameters_eq_ok keywordsOf)

/-- The scope has a variable of the name, wherever that is. -/
def knowing (scope : Nat) (x : String) : Regime where
  Holds s := s.Scoped scope ∧ ∃ v, s.named? scope x = some v
  Room _ := True
  Loose _ := True

instance : (knowing scope x).Basic where
  lowerer hs := hs.1.lowerer
  __ := Regime.Writes.of_blind (R := knowing scope x) (fun _ => trivial) fun _ hs => ⟨{ hs.1 with }, hs.2⟩
  beside := by
    rintro s t ⟨hs, v, hv⟩ hprogram hcursor hlowerer hentry himpl hscope himpls hvars hscopes
    have ht := Regime.Basic.beside (R := resolving scope fun _ => none) (holds_of_scoped hs) hprogram hcursor hlowerer
      hentry himpl hscope himpls hvars hscopes
    refine ⟨ht.1, v, ?_⟩
    rw [← hv, State.named?, State.named?, hvars, hscopes]
  addVariable := by
    rintro s added w ⟨hs, v, hv⟩
    exact ⟨⟨hs.add added w, v, by rw [hs.named?_add, hv, Option.some_or]⟩, trivial⟩
  setSlot := by
    rintro s i slot ⟨hs, v, hv⟩ -
    exact ⟨hs.modify i _, v, (State.named?_modify i (fun w => { w with slot }) fun _ => rfl).trans hv⟩
  setUsed := by
    rintro s i used ⟨hs, v, hv⟩
    exact ⟨hs.modify i _, v, (State.named?_modify i (fun w => { w with used }) fun _ => rfl).trans hv⟩

instance : (knowing scope x).Lax := ⟨fun _ => trivial⟩
instance : (resolving scope fun _ => none).Lax := ⟨fun _ _ _ _ h => by cases h⟩

section Places

variable {R : Regime} [R.Basic] [hL : R.Lax] (place : Nat → Emit Operand) [∀ i, Heeds R (place i)]

instance (i : Nat) (param : Node) : Heeds R (bindAt place i param) := by
  have hset : ∀ v slot, Heeds R (modifyVariable v fun w => { w with slot }) := fun v =>
    Regime.Computes.setSlot (hL.loose v)
  unfold bindAt
  infer_instance

instance (i : Nat) (params : List Node) : Heeds R (bindFrom place i params) := by
  induction params generalizing i with
  | nil => exact inferInstanceAs (Heeds R (pure ()))
  | cons param params ih => unfold bindFrom; infer_instance

instance (i : Nat) : Heeds R (tuplePlace i) := by unfold tuplePlace; infer_instance
instance (i : Nat) : Heeds R (vectorPlace i) := by unfold vectorPlace; infer_instance

end Places

theorem knows_of_variableFor {v : Nat} (hs : s.Scoped scope) (hid : id.text? = some x)
    (h : variableFor id s = .ok v s') : (knowing scope x).Holds s' := by
  have hslot : slotFor id s = .ok (s'.place v) s' := by
    rw [slotFor, bind_run_of_ok h]
    rfl
  obtain ⟨hs', hplace⟩ := place?_of_slotFor hs hid hslot
  rw [place?_eq hs'] at hplace
  obtain ⟨w, hw, -⟩ := Option.map_eq_some_iff.1 hplace
  exact ⟨hs', w, hw⟩

theorem knows_of_bindFrom {place : Nat → Emit Operand} [∀ i, Heeds (knowing scope x) (place i)]
    [∀ i, Heeds (resolving scope fun _ => none) (place i)] {params : List Node} {param : Node} {note : Node} {u : Unit}
    (hparam : param.form = .arg id note) (hid : id.text? = some x) (hmem : param ∈ params) (hs : s.Scoped scope)
    (h : bindFrom place i params s = .ok u s') : (knowing scope x).Holds s' := by
  induction params generalizing i s with
  | nil => cases hmem
  | cons first rest ih =>
    obtain ⟨_, s1, hfirst, hrest⟩ := bind_eq_ok.1 h
    rcases List.mem_cons.1 hmem with rfl | hmem
    · obtain ⟨l, s2, hl, hbind⟩ := bind_eq_ok.1 hfirst
      rw [parameterName, hparam] at hl
      obtain ⟨rfl, rfl⟩ := pure_eq_ok.1 hl
      obtain ⟨v, s3, hv, hset⟩ := bind_eq_ok.1 hbind
      obtain ⟨address, s4, haddress, hset⟩ := bind_eq_ok.1 hset
      have hheeds : Heeds (knowing scope x) (modifyVariable v fun w => { w with slot := .value address }) :=
        Regime.Computes.setSlot (R := knowing scope x) trivial _
      exact holds_of_ok (holds_of_ok (holds_of_ok (knows_of_variableFor hs hid hv) haddress) hset) hrest
    · exact ih hmem (holds_of_ok (holds_of_scoped hs) hfirst).1 hrest

theorem bindArguments_eq (c : Convention) (params : List Node) :
    bindArguments c params = bindFrom (if c = .tuple then tuplePlace else vectorPlace) 0 params := by
  cases c with
  | tuple => exact bindArguments_tuple params
  | _ => exact bindArguments_vector params

theorem place?_of_bindParameters {d : Nat} {params : List Node} {param note : Node} {u : Unit} (hs : s.Scoped scope)
    (hparent : (s.impls[i]?.getD default).parent = some d)
    (hparams : parametersOf (s.definitions[d]?.getD default).node = some params) (hmem : param ∈ params)
    (hparam : param.form = .arg id note) (hid : id.text? = some x) (h : bindParameters i s = .ok u s') :
    s'.Scoped scope ∧ ∃ a, s'.place? x = some a := by
  obtain ⟨params', s1, hparams', hbind, hmatch⟩ := (bindParameters_eq_ok hparent rfl).1 h
  obtain rfl := Option.some.inj (hparams.symm.trans hparams')
  have hknown : (knowing scope x).Holds s1 := by
    rw [bindArguments_eq] at hbind
    split at hbind <;> exact knows_of_bindFrom hparam hid hmem hs hbind
  obtain ⟨hs', v, hv⟩ := holds_of_ok hknown hmatch
  exact ⟨hs', _, by rw [place?_eq hs', hv]; rfl⟩

end Parameters

section Names

variable {r : Recur} {n c args keywords : Node} {usage : Option Usage}

theorem construct_name (hn : n.form = .name id usage) (hs : s.lowerer = .tree) :
    construct r n s = (Reference.named id).use (usageUnder s.tree.replaced n) s := by
  have hplace : isPlace n = true := by rw [isPlace, hn]
  rw [construct_of_isPlace hplace hs, evaluate, hn, pure_bind]
  rfl

theorem spares_of_name {name : String} {u : Unit} (hn : n.form = .name id usage) (hs : s.lowerer = .tree)
    (hsound : s.program.Sound) (h : construct r n s = .ok u s') : s'.Spares name s.program := by
  rw [construct_name hn hs] at h
  exact Preserves.of_ok (.refl hsound) h

/-- A call by name looks the name up in a dictionary. -/
theorem callGlobal_looks {values : List Operand} {pairs : List (Operand × Operand)} {u : Unit} (hid : id.text? = some x)
    (hs : s.Writing i f) (h : callGlobal id values pairs s = .ok u s') :
    ∃ dict text s1 s2 m k, dictOf x s = .ok dict s1 ∧ loadText x s1 = .ok text s2 ∧
      s'.program.Holds f (.call m [dict, text] k) ∧ s'.program.callee (.call m [dict, text] k) = some dictLookup := by
  obtain ⟨callable, t, hglobal, h⟩ := bind_eq_ok.1 h
  obtain ⟨dict, text, s1, s2, m, k, hdict, htext, hsound, hholds, hcallee⟩ := globalObject_looks hid hs hglobal
  have hgrown := (Grows.extends_of_ok h hsound).2
  exact ⟨dict, text, s1, s2, m, k, hdict, htext, hholds.of_grown hgrown, hcallee _ hgrown⟩

/-- A name that is loaded or stored stands for the slot that the function has for it, as it has for each of its
parameters, and otherwise for a new one, which is kept: nothing is looked up, not even for a name that is never stored.
A name that is called is looked up in the builtins or the globals, whether or not it has a slot. -/
theorem name_resolution (hn : n.form = .name id usage) (hid : id.text? = some x) (hs : s.Scoped scope) :
    (usageUnder s.tree.replaced n = some .load → construct r n s = (do
      setLastType (some .python)
      setLastValue (← load (← slotFor id)) : Emit Unit) s) ∧
    (usageUnder s.tree.replaced n = some .store →
      construct r n s = (do discard (store s.tree.assigned.value (← slotFor id)) : Emit Unit) s) ∧
    slotFor id s = (s.place? x).elim (newSlot scope x s) (EStateM.Result.ok · s) ∧
    (∀ a s', slotFor id s = .ok a s' → s'.place? x = some a ∧
      ∀ fuel m t, (recur fuel).visit m s' = .ok () t → t.place? x = some a) ∧
    (s.program.Sound → ∀ s', construct r n s = .ok () s' → ∀ f e name, s'.program.Holds f e →
      s'.program.callee e = some name → s.program.Holds f e) ∧
    (∀ c args keywords s', c.form = .call n args keywords → s.tree.last.value = .absent →
      construct r c s = .ok () s' → ∃ pairs values s₁,
        argumentsOf r args keywords (s.leaving ⟨none, .absent⟩) = .ok (pairs, values) s₁ ∧
        callGlobal id values pairs s₁ = .ok () s' ∧ ∀ i f, s₁.Writing i f → ∃ dict text s₂ s₃ m k,
          dictOf x s₁ = .ok dict s₂ ∧ loadText x s₂ = .ok text s₃ ∧ s'.program.Holds f (.call m [dict, text] k) ∧
            s'.program.callee (.call m [dict, text] k) = some dictLookup) ∧
    ∀ i d params param l note s', (s.impls[i]?.getD default).parent = some d →
      Twins.parametersOf (s.definitions[d]?.getD default).node = some params → param ∈ params →
      param.form = .arg l note → l.text? = some x → bindParameters i s = .ok () s' →
        s'.Scoped scope ∧ ∃ a, s'.place? x = some a := by
  refine ⟨fun husage => ?_, fun husage => ?_, ?_, fun a s' h => ?_, fun hsound s' h f e name he hcallee => ?_,
    fun c args keywords s' hc hlast h => ?_, fun i d params param l note s' hparent hparams hmem hparam hl h =>
      place?_of_bindParameters hs hparent hparams hmem hparam hl h⟩
  · rw [construct_name hn hs.lowerer, husage]
    rfl
  · rw [construct_name hn hs.lowerer, husage]
    rfl
  · cases hplace : s.place? x with
    | none => exact slotFor_of_absent hs hid hplace
    | some a => exact slotFor_of_place? hs hid hplace
  · obtain ⟨hs', ha⟩ := place?_of_slotFor hs hid h
    exact ⟨ha, fun fuel m t hvisit => (place?_of_visit hs' ha hvisit).2⟩
  · have hspares : s'.Spares name s.program := spares_of_name hn hs.lowerer hsound h
    exact hspares.calls _ f e (.refl _) he hcallee
  · rw [construct, hc] at h
    obtain ⟨_, _, hreset, h⟩ := bind_eq_ok.1 ((callExpr_of_absent hn hlast).1 h)
    cases hreset
    obtain ⟨⟨pairs, values⟩, s₁, hargs, hcall⟩ := bind_eq_ok.1 h
    exact ⟨pairs, values, s₁, hargs, hcall, fun i f hs₁ => callGlobal_looks hid hs₁ hcall⟩

theorem argumentsOf_nil : argumentsOf r (.group []) (.group []) s = .ok ([], []) s := rfl

theorem writing_leaving (hs : s.Writing i f) (t : Term) : (s.leaving t).Writing i f :=
  hs.imp fun _ hk => hk.of_same rfl rfl

def loadNode (x : String) : Node := .mk {} (.name x (some .load))

/-- The parameter `x` is loaded from where the caller puts the argument, and `g`, which the function does not have, from
a new slot; but a call of `x` looks the name up. -/
theorem loadNode_resolution : begunState.place? "x" = some 8 ∧ begunState.place? "g" = none ∧
    completes (construct (recur 0) (loadNode "g") begunState) = true ∧
    (∀ y, construct (recur 0) (loadNode y) begunState = (do
        setLastType (some .python)
        setLastValue (← load (← slotFor y)) : Emit Unit) begunState ∧
      slotFor y begunState = (begunState.place? y).elim
        (newSlot (unaryState.impls[0]?.getD default).scope y begunState) (EStateM.Result.ok · begunState)) ∧
    ∃ s' f dict text m k,
      construct (recur 0) (.mk {} (.call (loadNode "x") (.group []) (.group []))) begunState = .ok () s' ∧
      s'.program.Holds f (.call m [dict, text] k) ∧ s'.program.callee (.call m [dict, text] k) = some dictLookup := by
  have hresolved := fun y => name_resolution (r := recur 0) (n := loadNode y) (x := y) rfl rfl scoped_begunState
  have hnone : begunState.tree.replaced = none := by decide +kernel
  refine ⟨by decide +kernel, by decide +kernel, by decide +kernel, fun y => ?_, ?_⟩
  · obtain ⟨hload, -, hslot, -⟩ := hresolved y
    exact ⟨hload (by rw [hnone]; rfl), hslot⟩
  · obtain ⟨_, s', hrun⟩ := exists_of_completes (show completes (construct (recur 0)
      (.mk {} (.call (loadNode "x") (.group []) (.group []))) begunState) = true by decide +kernel)
    obtain ⟨_, t, hstart⟩ := exists_of_completes (show completes (start 0 unaryState) = true by decide +kernel)
    have ht : begunState = t := congrArg leftBy hstart
    have hsound : unaryState.program.Sound := Compile.sound_ready
    obtain ⟨j, f, hwriting⟩ : ∃ j f, begunState.Writing j f := ht ▸ writing_start hsound hstart
    obtain ⟨-, -, -, -, -, hcalls, -⟩ := hresolved "x"
    obtain ⟨pairs, values, s₁, hargs, -, hlooks⟩ := hcalls _ _ _ s' rfl (by decide +kernel) hrun
    rw [argumentsOf_nil] at hargs
    injection hargs with _ hs₁
    obtain ⟨dict, text, -, -, m, k, -, -, hholds, hcallee⟩ := hlooks j f (hs₁ ▸ writing_leaving hwriting _)
    exact ⟨s', f, dict, text, m, k, hrun, hholds, hcallee⟩

end Names

end Lower
end Lowering
