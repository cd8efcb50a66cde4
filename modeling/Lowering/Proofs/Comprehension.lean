import Lowering.Proofs.Framing.Run
import Mathlib.Data.List.Find

/-!
Which place a name loads from inside a comprehension. A target gets a variable of its own, but a name is
looked up from the first variable of the scope on: the loop's own place is loaded where the scope had no
variable of that name before, and the place of the earlier variable where it had one.

The rule is given as a second lowering, in which names are resolved as the comprehension binds them and the
scope is not searched. The two lowerings are the same.
-/
namespace Lowering

/-- The first variable of a scope with a name. -/
def State.named? (s : State) (scope : Nat) (x : String) : Option Nat :=
  (s.scopes[scope]?.getD #[]).toList.find? fun i => (s.vars[i]?.map (·.name)) == some x

def State.place (s : State) (i : Nat) : Operand := Lower.slotOperand (s.vars[i]?.getD default).slot

/-- Where the name is found by a lowering, if anywhere yet. -/
def State.place? (s : State) (x : String) : Option Operand := (s.named? s.tree.scope x).map s.place

namespace Lower

open Emit

/-- The places that names are bound to. -/
abbrev Bindings := String → Option Operand

def Bindings.bind (env : Bindings) (x : String) (place : Operand) : Bindings :=
  fun y => if y = x then some place else env y

/-- A name that is bound is loaded from the place it is bound to. -/
def nameIn (env : Bindings) (n : Node) (id : Label) : Emit Unit :=
  match id.text?.bind env with
  | none => name n id
  | some place => do
    match ← usageOf n with
    | some .load =>
      setLastType (some .python)
      setLastValue (← load place)
    | _ => name n id

/-- Lowers a tree of at most `fuel` levels with names bound. -/
def lowerIn (env : Bindings) : Nat → Node → Emit Unit
  | 0, _ => return ()
  | fuel + 1, n =>
    match n.form with
    | .name id _ => nameIn env n id
    | _ => construct ⟨announced (lowerIn env fuel)⟩ n

def recurIn (env : Bindings) (fuel : Nat) : Recur := ⟨announced (lowerIn env fuel)⟩

/-- Starts a loop over what a node iterates, up to where there is a next item. Gives what is iterated, the item and
the first block of the loop. -/
@[reducible] def nextItem (r : Recur) (iter : Node) (done : BlockRef) : Emit (Term × Term × BlockRef) := do
  let source ← r.term iter
  let iterator ← callMethod "__iter__" source.value source.type .empty .empty
  let loop ← createBlock
  branch loop
  setBlock loop
  let item ← callMethod "__next__" iterator.value iterator.type .empty .empty
  let zero ← null (← objectPtr)
  discard clearError
  let isNull ← eq item.value zero
  let inside ← createBlock
  condBranch isNull done inside
  setBlock inside
  return (source, item, loop)

section Binding

variable (taken : Operand → Emit Operand) (fuel : Nat) (node : Node)

/-- Binds the target of a loop to an item, and a name to the place that the item is stored to. Where the scope
has the name already, `taken` says what becomes of it. -/
def bindIn (env : Bindings) (target : Node) (type : Option ValueType) (item : Term) : Emit Bindings := do
  match target.form with
  | .name id _ =>
    let earlier := (← get).place? id.plain
    let address ← newVariable id type
    discard (store item.value address)
    match earlier with
    | none => return env.bind id.plain address
    | some place => return env.bind id.plain (← taken place)
  | _ =>
    bindTarget (recurIn env fuel) node target type item
    return env

/-- One loop of a comprehension. The iterable is lowered before the target is bound, the conditions after. -/
def openLoopIn (env : Bindings) (generator : Node) (done : BlockRef) : Emit (BlockRef × Bindings) := do
  match generator.form with
  | .comprehension target iter ifs =>
    let (source, item, loop) ← nextItem (recurIn env fuel) iter done
    let env ← bindIn taken fuel node env target source.type item
    for test in ← each ifs do
      guardBy (recurIn env fuel) loop test
    return (loop, env)
  | _ => throw .noMember

/-- The loops of a comprehension, each with what the outer ones bind, and the action with what all bind. -/
def openLoopsIn (action : Recur → Emit Unit) (env : Bindings) : List Node → BlockRef → Emit Unit
  | [], _ => return ()
  | [generator], done => do
    let (loop, env) ← openLoopIn taken fuel node env generator done
    action (recurIn env fuel)
    branch loop
  | generator :: rest, done => do
    let (loop, env) ← openLoopIn taken fuel node env generator done
    openLoopsIn action env rest loop

def comprehendIn (generators : Node) (action : Recur → Emit Unit) : Emit Unit := do
  let done ← createBlock
  openLoopsIn taken fuel node action (fun _ => none) (← each generators) done
  setBlock done

def comprehensionIn : Emit Unit :=
  match node.form with
  | .listComp elt generators => do
    let zero ← int64 0
    let list ← newList zero
    comprehendIn taken fuel node generators fun r => do
      let t ← r.term elt
      let item ← box t.value t.type
      listAppend list item.type item.value
    setLast ⟨some .python, list⟩
  | .setComp elt generators => do
    let zero ← null (← objectPtr)
    let set ← newSet zero
    comprehendIn taken fuel node generators fun r => do
      let t ← r.term elt
      let item ← box t.value t.type
      discard (setAdd set item.value)
    setLast ⟨some .python, set⟩
  | .dictComp key value generators => do
    let dict ← newDict
    comprehendIn taken fuel node generators fun r => do
      let k ← r.term key
      let v ← r.term value
      let k ← box k.value k.type
      let v ← box v.value v.type
      discard (dictSet dict k.value v.value)
    setLast ⟨some .python, dict⟩
  | _ => construct (recur fuel) node

end Binding

end Lower

/-- A tree is being lowered, and the scope it looks names up in is that of the implementation. -/
structure State.Scoped (scope : Nat) (s : State) : Prop where
  lowerer : s.lowerer = .tree
  tree : s.tree.scope = scope
  impl : (s.impls[s.tree.impl]?.getD default).scope = scope
  stands : scope < s.scopes.size
  vars : ∀ i ∈ s.scopes[scope]?.getD #[], i < s.vars.size

section Lookup

variable {s t : State} {scope : Nat} {x : String}

theorem State.named?_congr (hscopes : t.scopes[scope]?.getD #[] = s.scopes[scope]?.getD #[])
    (hnames : ∀ i ∈ s.scopes[scope]?.getD #[], t.vars[i]?.map (·.name) = s.vars[i]?.map (·.name)) :
    t.named? scope x = s.named? scope x := by
  rw [named?, named?, hscopes]
  refine List.find?_congr fun i hi => ?_
  rw [hnames i (Array.mem_toList_iff.1 hi)]

/-- A variable that is found is one of the table. -/
theorem State.Scoped.lt_of_named? (hs : s.Scoped scope) {i : Nat} (h : s.named? scope x = some i) : i < s.vars.size :=
  hs.vars i (Array.mem_toList_iff.1 (List.mem_of_find?_eq_some h))

theorem State.Scoped.named?_add (hs : s.Scoped scope) (added : Nat) (v : Variable) :
    ({ s with vars := s.vars.push v, scopes := s.scopes.modify added (·.push s.vars.size) } : State).named? scope x =
      (s.named? scope x).or (if added = scope ∧ v.name = x then some s.vars.size else none) := by
  have hold : ∀ i ∈ s.scopes[scope]?.getD #[], (s.vars.push v)[i]?.map (·.name) = s.vars[i]?.map (·.name) := by
    intro i hi
    rw [Array.getElem?_push_lt (hs.vars i hi), Array.getElem?_eq_getElem (hs.vars i hi)]
  by_cases hadded : added = scope
  · subst hadded
    have hlist : ((s.scopes.modify added (·.push s.vars.size))[added]?.getD #[]).toList =
        (s.scopes[added]?.getD #[]).toList ++ [s.vars.size] := by
      rw [Array.getElem?_modify, if_pos rfl, Array.getElem?_eq_getElem hs.stands]
      simp
    have hfirst : (s.scopes[added]?.getD #[]).toList.find? (fun i => ((s.vars.push v)[i]?.map (·.name)) == some x) =
        s.named? added x :=
      List.find?_congr fun i hi => by rw [hold i (Array.mem_toList_iff.1 hi)]
    rw [named?, hlist, List.find?_append, hfirst]
    congr 1
    by_cases hname : v.name = x <;> simp [hname]
  · have hscope : (s.scopes.modify added (·.push s.vars.size))[scope]?.getD #[] = s.scopes[scope]?.getD #[] := by
      rw [Array.getElem?_modify, if_neg hadded]
    rw [named?_congr hscope hold, if_neg fun h => hadded h.1, Option.or_none]

theorem State.named?_modify (i : Nat) (f : Variable → Variable) (hf : ∀ v, (f v).name = v.name) :
    ({ s with vars := s.vars.modify i f } : State).named? scope x = s.named? scope x := by
  refine named?_congr rfl fun j _ => ?_
  change (s.vars.modify i f)[j]?.map (·.name) = _
  rw [Array.getElem?_modify]
  split
  · cases s.vars[j]? with
    | none => rfl
    | some v => exact congrArg some (hf v)
  · rfl

theorem State.place_modify (i j : Nat) (f : Variable → Variable) (h : i ≠ j ∨ ∀ v, (f v).slot = v.slot) :
    ({ s with vars := s.vars.modify i f } : State).place j = s.place j := by
  change Lower.slotOperand ((s.vars.modify i f)[j]?.getD default).slot = _
  rw [Array.getElem?_modify, State.place]
  split
  · cases s.vars[j]? with
    | none => rfl
    | some v => exact congrArg Lower.slotOperand (h.elim (absurd ‹i = j›) fun h => h v)
  · rfl

theorem State.Scoped.modify (hs : s.Scoped scope) (i : Nat) (f : Variable → Variable) :
    ({ s with vars := s.vars.modify i f } : State).Scoped scope :=
  { hs with vars := fun j hj => by simpa using hs.vars j hj }

theorem State.Scoped.add (hs : s.Scoped scope) (added : Nat) (v : Variable) :
    ({ s with vars := s.vars.push v, scopes := s.scopes.modify added (·.push s.vars.size) } : State).Scoped scope where
  lowerer := hs.lowerer
  tree := hs.tree
  impl := hs.impl
  stands := by simpa using hs.stands
  vars := by
    intro i hi
    change i < (s.vars.push v).size
    rw [Array.size_push]
    change i ∈ (s.scopes.modify added _)[scope]?.getD #[] at hi
    rw [Array.getElem?_modify, Array.getElem?_eq_getElem hs.stands] at hi
    have hvars := hs.vars i
    rw [Array.getElem?_eq_getElem hs.stands] at hvars
    split at hi
    · obtain hi | rfl := Array.mem_push.1 hi
      · exact Nat.lt_succ_of_lt (hvars hi)
      · exact Nat.lt_succ_self _
    · exact Nat.lt_succ_of_lt (hvars hi)

end Lookup

namespace Lower

open Emit

/-- The variables that names are found at, and where they are. -/
abbrev Places := String → Option (Nat × Operand)

def Places.bindings (places : Places) : Bindings := fun x => (places x).map (·.2)

/-- The names are found at their variables, which stay where they are. -/
def resolving (scope : Nat) (places : Places) : Regime where
  Holds s := s.Scoped scope ∧ ∀ x v a, places x = some (v, a) → s.named? scope x = some v ∧ s.place v = a
  Room _ := True
  Loose i := ∀ x v a, places x = some (v, a) → v ≠ i

instance (scope : Nat) (places : Places) (r : BlockRef) : Inside (resolving scope places) r := ⟨trivial⟩

set_option synthInstance.maxSize 100000000

variable {scope : Nat} {places : Places}

theorem holds_modify {s : State} (hs : (resolving scope places).Holds s) {i : Nat} {f : Variable → Variable}
    (hname : ∀ v, (f v).name = v.name) (hslot : ∀ x v a, places x = some (v, a) → i ≠ v ∨ ∀ w, (f w).slot = w.slot) :
    (resolving scope places).Holds { s with vars := s.vars.modify i f } := by
  refine ⟨hs.1.modify i f, fun x v a hx => ?_⟩
  obtain ⟨hv, ha⟩ := hs.2 x v a hx
  exact ⟨(State.named?_modify i f hname).trans hv, (State.place_modify i v f (hslot x v a hx)).trans ha⟩

instance : (resolving scope places).Basic where
  lowerer hs := hs.1.lowerer
  __ := Regime.Writes.of_blind (R := resolving scope places) (fun _ => trivial) fun _ hs => ⟨{ hs.1 with }, hs.2⟩
  beside := by
    rintro s t ⟨hs, hplaces⟩ - - hlowerer - himpl hscope himpls hvars hscopes
    refine ⟨⟨hlowerer.trans hs.lowerer, hscope.trans hs.tree, ?_, hscopes ▸ hs.stands, ?_⟩, ?_⟩
    · rw [himpls, himpl]
      exact hs.impl
    · rw [hscopes, hvars]
      exact hs.vars
    · simpa only [State.named?, State.place, hvars, hscopes] using hplaces
  addVariable := by
    rintro s added v ⟨hs, hplaces⟩
    refine ⟨⟨hs.add added v, ?_⟩, ?_⟩
    · intro x w a hx
      obtain ⟨hw, ha⟩ := hplaces x w a hx
      refine ⟨by rw [hs.named?_add, hw, Option.some_or], ?_⟩
      rw [← ha, State.place, State.place, Array.getElem?_push_lt (hs.lt_of_named? hw),
        Array.getElem?_eq_getElem (hs.lt_of_named? hw)]
    · intro x w a hx
      exact (hs.lt_of_named? (hplaces x w a hx).1).ne
  setSlot slot hs hi := holds_modify hs (fun _ => rfl) fun x v a hx => .inl (hi x v a hx).symm
  setUsed i used hs := holds_modify hs (fun _ => rfl) fun _ _ _ _ => .inr fun _ => rfl

variable {n : Node} {id : Label}

theorem name_run_of_named {s : State} {x : String} {v : Nat} (hs : s.Scoped scope)
    (hload : usageUnder s.tree.replaced n = some .load) (hid : id.text? = some x) (hv : s.named? scope x = some v) :
    name n id s = (do setLastType (some .python); setLastValue (← load (s.place v)) : Emit Unit) s := by
  have husage : usageOf n s = .ok (some .load) s := congrArg (EStateM.Result.ok · s) hload
  rw [name, bind_run_of_ok husage]
  let t : State := { s with tree := { s.tree with last := { s.tree.last with type := some .python } } }
  have htype : setLastType (some .python) s = .ok () t := rfl
  have hvar : variableFor id t = .ok v t := by
    have hscope : lookupScope t = .ok scope t := by
      have hlowerer : t.lowerer = .tree := hs.lowerer
      rw [lookupScope, get_bind_run, hlowerer, ← hs.tree]
      rfl
    have hfind : findVariable scope x t = .ok (some v) t := congrArg (EStateM.Result.ok · t) hv
    rw [variableFor, bind_run_of_ok hscope, hid]
    dsimp only
    rw [bind_run_of_ok hfind]
    rfl
  have hat : varAt v t = .ok (s.vars[v]?.getD default) t := rfl
  dsimp only
  rw [bind_run_of_ok htype, bind_run_of_ok htype, bind_run_of_ok hvar, bind_run_of_ok hat]
  rfl

/-- Where names are bound to the places they are found at, a name is loaded from there. -/
instance : Agrees (resolving scope places) (name n id) (nameIn places.bindings n id) := by
  have hkept : Heeds (resolving scope places) (name n id) := inferInstance
  refine ⟨agree_of_same fun s hs => ⟨?_, (hkept.agree.left rfl not_false hs).2⟩⟩
  unfold nameIn
  cases hplace : id.text?.bind places.bindings with
  | none => rfl
  | some place =>
    obtain ⟨x, hid, hx⟩ := Option.bind_eq_some_iff.1 hplace
    obtain ⟨⟨v, a⟩, hva, rfl⟩ := Option.map_eq_some_iff.1 hx
    obtain ⟨hv, rfl⟩ := hs.2 x v a hva
    have husage : usageOf n s = .ok (usageUnder s.tree.replaced n) s := rfl
    dsimp only
    rw [bind_run_of_ok husage]
    match hload : usageUnder s.tree.replaced n with
    | some .load => exact (name_run_of_named hs.1 hload hid hv).symm
    | some .store | some (.other _) | none => rfl

instance (fuel : Nat) : Agrees (resolving scope places) (lowerWithin fuel n) (lowerIn places.bindings fuel n) := by
  induction fuel generalizing n with
  | zero => exact inferInstanceAs (Heeds _ (pure ()))
  | succ fuel ih =>
    have hvisit : ∀ n, Agrees (resolving scope places) (Recur.visit ⟨announced (lowerWithin fuel)⟩ n)
        (Recur.visit ⟨announced (lowerIn places.bindings fuel)⟩ n) := fun n =>
      inferInstanceAs (Agrees _ (announced (lowerWithin fuel) n) (announced (lowerIn places.bindings fuel) n))
    unfold lowerWithin lowerIn
    split
    · next id _ hform =>
      have hname : construct ⟨announced (lowerWithin fuel)⟩ n = name n id := by rw [construct, hform]
      rw [hname]
      infer_instance
    · infer_instance

instance (fuel : Nat) :
    Agrees (resolving scope places) ((recur fuel).visit n) ((recurIn places.bindings fuel).visit n) :=
  inferInstanceAs (Agrees _ (announced (lowerWithin fuel) n) (announced (lowerIn places.bindings fuel) n))

def Places.bind (places : Places) (x : String) (v : Nat) (a : Operand) : Places :=
  fun y => if y = x then some (v, a) else places y

theorem Places.bindings_bind (x : String) (v : Nat) (a : Operand) :
    (places.bind x v a).bindings = places.bindings.bind x a := by
  funext y
  rw [bindings, bind, Bindings.bind]
  split <;> rfl

section Bind

variable {s : State} {x : String} {v : Nat}

theorem holds_bind (hs : (resolving scope places).Holds s) (hv : s.named? scope x = some v) :
    (resolving scope (places.bind x v (s.place v))).Holds s := by
  refine ⟨hs.1, fun y w a hy => ?_⟩
  rw [Places.bind] at hy
  split at hy
  · next hyx =>
    cases hy
    exact ⟨hyx ▸ hv, rfl⟩
  · exact hs.2 y w a hy

theorem holds_of_bind (hs : (resolving scope places).Holds s) (hv : s.named? scope x = some v) {u : State}
    (hu : (resolving scope (places.bind x v (s.place v))).Holds u) : (resolving scope places).Holds u := by
  refine ⟨hu.1, fun y w a hy => ?_⟩
  refine hu.2 y w a ?_
  rw [Places.bind]
  split
  · next hyx =>
    obtain ⟨hw, rfl⟩ := hs.2 y w a hy
    rw [hyx, hv] at hw
    rw [Option.some.inj hw]
  · exact hy

end Bind

section NewVariables

variable {s t : State} {id : Label} {type : Option ValueType} {address : Operand}

theorem holds_of_scoped (hs : s.Scoped scope) : (resolving scope fun _ => none).Holds s :=
  ⟨hs, fun _ _ _ hx => by cases hx⟩

theorem addVariable_eq_ok {name : String} {v : Nat} (h : addVariable scope name type s = .ok v t) :
    v = s.vars.size ∧ ∃ w : Variable, w.name = name ∧
      t = { s with vars := s.vars.push w, scopes := s.scopes.modify scope (·.push s.vars.size) } := by
  cases type with
  | none => cases h
  | some type =>
    cases h
    exact ⟨rfl, _, rfl, rfl⟩

/-- Room is made for a variable, which is still found. -/
theorem giveRoom_eq_ok {x : String} {v : Nat} (hs : s.Scoped scope) (hv : s.named? scope x = some v) (h : (do
      let address ← entryVar (← machineType (← known type))
      modifyVariable v fun v => { v with slot := .value address }
      return address : Emit Operand) s = .ok address t) : t.named? scope x = some v ∧ t.place v = address := by
  obtain ⟨_, _, hknown, h⟩ := bind_eq_ok.1 h
  obtain ⟨_, _, htype, h⟩ := bind_eq_ok.1 h
  obtain ⟨_, s1, haddress, h⟩ := bind_eq_ok.1 h
  have hholds := holds_bind (holds_of_scoped hs) hv
  obtain ⟨hs1, hplaces⟩ := holds_of_ok (holds_of_ok (holds_of_ok hholds hknown) htype) haddress
  obtain ⟨hv1, -⟩ := hplaces x v _ (if_pos rfl)
  obtain ⟨_, _, hset, h⟩ := bind_eq_ok.1 h
  cases hset
  obtain ⟨rfl, rfl⟩ := pure_eq_ok.1 h
  constructor
  · rw [← hv1]
    exact State.named?_modify v _ fun _ => rfl
  · change slotOperand ((s1.vars.modify _ _)[v]?.getD default).slot = _
    rw [Array.getElem?_modify, if_pos rfl, Array.getElem?_eq_getElem (hs1.lt_of_named? hv1)]
    rfl

/-- A name that no variable of the scope has is found at the variable made for it, at the place that is given. -/
theorem newVariable_fresh (hs : s.Scoped scope) (hfresh : s.named? scope id.plain = none)
    (h : newVariable id type s = .ok address t) : ∃ v, t.named? scope id.plain = some v ∧ t.place v = address := by
  have himpl : currentImpl s = .ok s.tree.impl s := by
    rw [currentImpl, get_bind_run, hs.lowerer]
    rfl
  have hof : implOf s.tree.impl s = .ok (s.impls[s.tree.impl]?.getD default) s := rfl
  rw [newVariable, bind_run_of_ok himpl, bind_run_of_ok hof, hs.impl] at h
  obtain ⟨v, s1, hadd, h⟩ := bind_eq_ok.1 h
  obtain ⟨rfl, w, hname, rfl⟩ := addVariable_eq_ok hadd
  have hnamed := hs.named?_add (x := id.plain) scope w
  rw [hfresh, Option.none_or, if_pos ⟨rfl, hname⟩] at hnamed
  exact ⟨_, giveRoom_eq_ok (hs.add scope w) hnamed h⟩

/-- A name that a variable of the scope has is found where it was. -/
theorem newVariable_taken (hs : s.Scoped scope) {v : Nat} (htaken : s.named? scope id.plain = some v)
    (h : newVariable id type s = .ok address t) : t.named? scope id.plain = some v ∧ t.place v = s.place v := by
  have hafter := holds_of_ok (holds_bind (holds_of_scoped hs) htaken) h
  exact hafter.2 id.plain v _ (if_pos rfl)

end NewVariables

theorem newVariable_place {s t : State} {type : Option ValueType} {address : Operand}
    (hs : s.Scoped scope) (h : newVariable id type s = .ok address t) :
    ∃ v, t.named? scope id.plain = some v ∧ t.place v = (s.place? id.plain).getD address := by
  rw [State.place?, hs.tree]
  cases hv : s.named? scope id.plain with
  | none => exact newVariable_fresh hs hv h
  | some v => exact ⟨v, newVariable_taken hs hv h⟩

/-- The second action is the first, and gives the names bound to where they are then found. -/
def Widens (scope : Nat) (places : Places) {α β : Type} (x : Emit α) (y : Emit β) (p : α → Bindings → β) : Prop :=
  ∀ s, (resolving scope places).Holds s →
    match x s with
    | .ok a t => ∃ wider : Places, y s = .ok (p a wider.bindings) t ∧ (resolving scope wider).Holds t ∧
        ∀ u, (resolving scope wider).Holds u → (resolving scope places).Holds u
    | .error e t => y s = .error e t ∧ (resolving scope places).Holds t

namespace Widens

variable {α β γ δ : Type} {p : α → Bindings → β} {q : γ → Bindings → δ}

theorem pure (a : α) : Widens scope places (Pure.pure a) (Pure.pure (p a places.bindings)) p :=
  fun _ hs => ⟨places, rfl, hs, fun _ => id⟩

theorem bind {x : Emit α} {y : Emit β} {f : α → Emit γ} {g : β → Emit δ} (hx : Widens scope places x y p)
    (hf : ∀ a wider, Widens scope wider (f a) (g (p a wider.bindings)) q) :
    Widens scope places (x >>= f) (y >>= g) q := by
  intro s hs
  have hxs := hx s hs
  cases h : x s with
  | error e t =>
    rw [h] at hxs
    rw [bind_eq_error.2 (.inl h), bind_eq_error.2 (.inl hxs.1)]
    exact ⟨rfl, hxs.2⟩
  | ok a t =>
    rw [h] at hxs
    obtain ⟨wider, hy, ht, hback⟩ := hxs
    rw [bind_run_of_ok h, bind_run_of_ok hy]
    have hfs := hf a wider t ht
    cases h' : f a t with
    | error e u =>
      rw [h'] at hfs
      exact ⟨hfs.1, hback u hfs.2⟩
    | ok c u =>
      rw [h'] at hfs
      obtain ⟨widest, hg, hu, hback'⟩ := hfs
      exact ⟨widest, hg, hu, fun w hw => hback w (hback' w hw)⟩

theorem agree_bind {x y : Emit α} {Q : α → Prop} {f : α → Emit γ} {g : α → Emit δ}
    (hx : Agree (resolving scope places) x y Q) (hf : ∀ a, Widens scope places (f a) (g a) q) :
    Widens scope places (x >>= f) (y >>= g) q := by
  intro s hs
  obtain ⟨hsame, hholds, -⟩ := hx.left rfl not_false hs
  cases h : x s with
  | error e t =>
    rw [h] at hsame hholds
    rw [bind_eq_error.2 (.inl h), bind_eq_error.2 (.inl hsame)]
    exact ⟨rfl, hholds⟩
  | ok a t =>
    rw [h] at hsame hholds
    rw [bind_run_of_ok h, bind_run_of_ok hsame]
    exact hf a t hholds

theorem of_agree {x y : Emit α} {Q : α → Prop} (h : Agree (resolving scope places) x y Q) :
    Widens scope places x y fun a _ => a := by
  intro s hs
  obtain ⟨hsame, hholds, -⟩ := h.left rfl not_false hs
  rw [hsame]
  cases hx : x s with
  | error e t => rw [hx] at hholds; exact ⟨rfl, hholds⟩
  | ok a t => rw [hx] at hholds; exact ⟨places, rfl, hholds, fun _ => id⟩

theorem agree {x y : Emit α} (h : Widens scope places x y fun a _ => a) :
    Agree (resolving scope places) x y fun _ => True := by
  refine agree_of_same fun s hs => ?_
  have hxs := h s hs
  cases hx : x s with
  | error e t =>
    rw [hx] at hxs
    exact ⟨hxs.1, hxs.2, fun _ _ _ => trivial⟩
  | ok a t =>
    rw [hx] at hxs
    obtain ⟨wider, hy, ht, hback⟩ := hxs
    exact ⟨hy, hback t ht, fun _ _ _ => trivial⟩

end Widens

theorem widens_newVariable (id : Label) (type : Option ValueType) : Widens scope places (newVariable id type) (do
      let earlier := (← get).place? id.plain
      let address ← newVariable id type
      return (address, places.bindings.bind id.plain (earlier.getD address))) Prod.mk := by
  intro s hs
  rw [get_bind_run]
  have hafter := ((inferInstance : Heeds (resolving scope places) (newVariable id type)).agree.left rfl not_false hs).2.1
  cases hnew : newVariable id type s with
  | error e t =>
    rw [hnew] at hafter
    exact ⟨bind_eq_error.2 (.inl hnew), hafter⟩
  | ok address t =>
    rw [hnew] at hafter
    obtain ⟨v, hv, hplace⟩ := newVariable_place hs.1 hnew
    refine ⟨places.bind id.plain v (t.place v), ?_, holds_bind hafter hv, fun u => holds_of_bind hafter hv⟩
    rw [bind_run_of_ok hnew, Places.bindings_bind, hplace]
    rfl

theorem bindIn_name (fuel : Nat) (env : Bindings) (node target : Node) (type : Option ValueType) (item : Term)
    {usage : Option Usage} (h : target.form = .name id usage) : bindIn Pure.pure fuel node env target type item = (do
      let earlier := (← get).place? id.plain
      let address ← newVariable id type
      return (address, env.bind id.plain (earlier.getD address)) : Emit (Operand × Bindings)) >>= fun (address, env) => do
        discard (store item.value address)
        return env := by
  rw [bindIn, h]
  simp only [bind_assoc, pure_bind]
  congr
  funext s
  cases s.place? id.plain <;> rfl

theorem widens_bindIn (fuel : Nat) (node target : Node) (type : Option ValueType) (item : Term) :
    Widens scope places (bindTarget (recur fuel) node target type item)
      (bindIn Pure.pure fuel node places.bindings target type item) fun _ env => env := by
  by_cases hname : ∃ id usage, target.form = .name id usage
  · obtain ⟨id, usage, hform⟩ := hname
    rw [bindTarget, hform, bindIn_name fuel _ node target type item hform]
    refine (widens_newVariable id type).bind fun address wider => ?_
    have hstore : Heeds (resolving scope wider) (discard (store item.value address)) := inferInstance
    have hbound := Widens.agree_bind hstore.agree fun a => Widens.pure (p := fun _ env => env) a
    rwa [bind_pure] at hbound
  · have hother : bindIn Pure.pure fuel node places.bindings target type item = do
        bindTarget (recurIn places.bindings fuel) node target type item
        return places.bindings := by
      rw [bindIn]
      split
      · exact absurd ⟨_, _, ‹_›⟩ hname
      · rfl
    rw [hother]
    have hsame : Agrees (resolving scope places) (bindTarget (recur fuel) node target type item)
      (bindTarget (recurIn places.bindings fuel) node target type item) := inferInstance
    have hpure := Widens.agree_bind hsame.agree fun a => Widens.pure (p := fun _ env => env) a
    rwa [bind_pure] at hpure

theorem openLoop_eq (r : Recur) (node generator : Node) (done : BlockRef) :
    openLoop r node generator done = match generator.form with
    | .comprehension target iter ifs => do
      let (source, item, loop) ← nextItem r iter done
      bindTarget r node target source.type item
      for test in ← each ifs do
        guardBy r loop test
      return loop
    | _ => throw .noMember := by
  unfold openLoop nextItem
  cases generator.form <;> simp only [bind_assoc, pure_bind]

theorem widens_openLoopIn (fuel : Nat) (node generator : Node) (done : BlockRef) :
    Widens scope places (openLoop (recur fuel) node generator done)
      (openLoopIn Pure.pure fuel node places.bindings generator done) Prod.mk := by
  rw [openLoop_eq, openLoopIn]
  split
  · next target iter ifs _ =>
    refine .agree_bind (Agrees.agree : Agree (resolving scope places) (nextItem (recur fuel) iter done) _ _) ?_
    rintro ⟨source, item, loop⟩
    refine (widens_bindIn fuel node target source.type item).bind fun _ wider => ?_
    refine .agree_bind (Agrees.agree : Agree (resolving scope wider) (each ifs) _ _) fun tests => ?_
    exact .agree_bind (Agrees.agree : Agree (resolving scope wider) (forIn tests _ _) _ _) fun _ => .pure loop
  · exact fun s hs => ⟨rfl, hs⟩

theorem agree_openLoopsIn (places : Places) (fuel : Nat) (node : Node) (action : Recur → Emit Unit)
    (haction : ∀ places : Places,
      Agrees (resolving scope places) (action (recur fuel)) (action (recurIn places.bindings fuel)))
    (generators : List Node) (done : BlockRef) :
    Agree (resolving scope places) (openLoops (recur fuel) node (action (recur fuel)) generators done)
      (openLoopsIn Pure.pure fuel node action places.bindings generators done) fun _ => True := by
  induction generators generalizing places done with
  | nil => exact .pure trivial
  | cons generator rest ih =>
    have hloop : Widens scope places _ _ _ := widens_openLoopIn fuel node generator done
    cases rest with
    | nil => exact (hloop.bind fun loop wider => .of_agree Agrees.agree).agree
    | cons next rest => exact (hloop.bind fun loop wider => .of_agree (ih wider loop)).agree

theorem agrees_comprehendIn (scope fuel : Nat) (node generators : Node) (action : Recur → Emit Unit)
    (haction : ∀ places : Places,
      Agrees (resolving scope places) (action (recur fuel)) (action (recurIn places.bindings fuel))) :
    Agrees (resolving scope fun _ => none) (comprehend (recur fuel) node generators (action (recur fuel)))
      (comprehendIn Pure.pure fuel node generators action) := by
  have hloops : ∀ gs done, Agrees (resolving scope fun _ => none)
      (openLoops (recur fuel) node (action (recur fuel)) gs done)
      (openLoopsIn Pure.pure fuel node action (fun _ => none) gs done) := fun gs done =>
    ⟨agree_openLoopsIn (fun _ => none) fuel node action haction gs done⟩
  unfold comprehend comprehendIn
  infer_instance

theorem agrees_comprehensionIn (scope fuel : Nat) (node : Node) :
    Agrees (resolving scope fun _ => none) (construct (recur fuel) node) (comprehensionIn Pure.pure fuel node) := by
  have hvisit : ∀ n, Heeds (resolving scope fun _ => none) ((recur fuel).visit n) := fun n =>
    inferInstanceAs (Heeds _ (announced (lowerWithin fuel) n))
  have hloops := agrees_comprehendIn scope fuel node
  unfold comprehensionIn
  split
  · next elt generators hform =>
    have hitems := fun list => hloops generators (fun r => do
      let t ← r.term elt
      let item ← box t.value t.type
      listAppend list item.type item.value) fun _ => inferInstance
    rw [construct, hform]
    dsimp only
    unfold listComp
    infer_instance
  · next elt generators hform =>
    have hitems := fun set => hloops generators (fun r => do
      let t ← r.term elt
      let item ← box t.value t.type
      discard (setAdd set item.value)) fun _ => inferInstance
    rw [construct, hform]
    dsimp only
    unfold setComp
    infer_instance
  · next key value generators hform =>
    have hitems := fun dict => hloops generators (fun r => do
      let k ← r.term key
      let v ← r.term value
      let k ← box k.value k.type
      let v ← box v.value v.type
      discard (dictSet dict k.value v.value)) fun _ => inferInstance
    rw [construct, hform]
    dsimp only
    unfold dictComp
    infer_instance
  · infer_instance

section Untaken

/-- Where the second action completes the first does the same. -/
def Covers {α : Type} (x y : Emit α) : Prop := ∀ s a t, y s = .ok a t → x s = .ok a t

variable {α β : Type} {taken taken' : Operand → Emit Operand}

theorem Covers.refl (x : Emit α) : Covers x x := fun _ _ _ h => h

theorem Covers.bind {x y : Emit α} {f g : α → Emit β} (hx : Covers x y) (hf : ∀ a, Covers (f a) (g a)) :
    Covers (x >>= f) (y >>= g) := by
  intro s b t h
  obtain ⟨a, u, hy, hg⟩ := bind_eq_ok.1 h
  exact bind_eq_ok.2 ⟨a, u, hx s a u hy, hf a u b t hg⟩

variable (htaken : ∀ a, Covers (taken a) (taken' a))
include htaken

theorem covers_bindIn (fuel : Nat) (node : Node) (env : Bindings) (target : Node) (type : Option ValueType)
    (item : Term) : Covers (bindIn taken fuel node env target type item) (bindIn taken' fuel node env target type item) := by
  unfold bindIn
  split
  · refine .bind (.refl _) fun s => .bind (.refl _) fun address => .bind (.refl _) fun _ => ?_
    cases s.place? _ with
    | none => exact .refl _
    | some place => exact .bind (htaken place) fun _ => .refl _
  · exact .refl _

theorem covers_openLoopIn (fuel : Nat) (node : Node) (env : Bindings) (generator : Node) (done : BlockRef) :
    Covers (openLoopIn taken fuel node env generator done) (openLoopIn taken' fuel node env generator done) := by
  unfold openLoopIn
  split
  · exact .bind (.refl _) fun _ => .bind (covers_bindIn htaken fuel node env _ _ _) fun _ => .refl _
  · exact .refl _

theorem covers_openLoopsIn (fuel : Nat) (node : Node) (action : Recur → Emit Unit) (env : Bindings)
    (generators : List Node) (done : BlockRef) : Covers (openLoopsIn taken fuel node action env generators done)
      (openLoopsIn taken' fuel node action env generators done) := by
  induction generators generalizing env done with
  | nil => exact .refl _
  | cons generator rest ih =>
    have hloop := covers_openLoopIn htaken fuel node env generator done
    cases rest with
    | nil => exact hloop.bind fun _ => .refl _
    | cons next rest => exact hloop.bind fun _ => ih _ _

theorem covers_comprehensionIn (fuel : Nat) (node : Node) :
    Covers (comprehensionIn taken fuel node) (comprehensionIn taken' fuel node) := by
  have hloops : ∀ generators action, Covers (comprehendIn taken fuel node generators action)
      (comprehendIn taken' fuel node generators action) := fun generators action =>
    .bind (.refl _) fun done => .bind (.refl _) fun gs =>
      .bind (covers_openLoopsIn htaken fuel node action _ gs done) fun _ => .refl _
  unfold comprehensionIn
  split
  · exact .bind (.refl _) fun _ => .bind (.refl _) fun _ => .bind (hloops _ _) fun _ => .refl _
  · exact .bind (.refl _) fun _ => .bind (.refl _) fun _ => .bind (.refl _) fun _ => .bind (hloops _ _) fun _ => .refl _
  · exact .bind (.refl _) fun _ => .bind (hloops _ _) fun _ => .refl _
  · exact .refl _

end Untaken

section Start

instance (i : Nat) : Heeds (resolving scope places) (declare i) := by
  refine heeds_declare fun {s} f hs => ⟨{ hs.1 with impl := ?_ }, hs.2⟩
  rw [← hs.1.impl]
  change ((s.impls.modify i _)[s.tree.impl]?.getD default).scope = _
  rw [Array.getElem?_modify]
  split
  · cases s.impls[s.tree.impl]? <;> rfl
  · rfl

instance (f : Nat) : Heeds (resolving scope places) (enter f) :=
  heeds_enter (fun _ hs => ⟨{ hs.1 with }, hs.2⟩) fun _ hs => ⟨{ hs.1 with }, hs.2⟩

theorem scoped_start {s : State} {i : Nat} (hstands : (s.impls[i]?.getD default).scope < s.scopes.size)
    (hvars : ∀ j ∈ s.scopes[(s.impls[i]?.getD default).scope]?.getD #[], j < s.vars.size) :
    (leftBy (start i s)).Scoped (s.impls[i]?.getD default).scope := by
  generalize hscope : (s.impls[i]?.getD default).scope = scope at *
  let t : State := { s with lowerer := .tree, tree := { impl := i, scope := scope } }
  have ht : t.Scoped scope := ⟨rfl, rfl, hscope, hstands, hvars⟩
  have hrun : start i s = (do
      let blocks ← openFunction i
      let cursor := (← get).cursor
      modifyTree fun f => { f with entry := blocks.1, content := blocks.2, cursor }
      bindParameters i : Emit Unit) t := by
    subst hscope
    rfl
  have hlax : (resolving scope fun _ => none).Lax := ⟨fun _ _ _ _ hx => by cases hx⟩
  have hplaced : ∀ entry content cursor, Heeds (resolving scope fun _ => none)
      (modifyTree fun f => { f with entry, content, cursor }) := fun _ _ _ =>
    heeds_modify fun s hs => ⟨{ hs.1 with }, hs.2⟩
  have hrest : Heeds (resolving scope fun _ => none) (do
      let blocks ← openFunction i
      let cursor := (← get).cursor
      modifyTree fun f => { f with entry := blocks.1, content := blocks.2, cursor }
      bindParameters i : Emit Unit) := by
    unfold openFunction
    infer_instance
  rw [hrun]
  exact (hrest.agree.left rfl not_false (holds_of_scoped ht)).2.1.1

end Start

/-- A comprehension loads a target from where the scope already has a variable of that name, and otherwise from where
the innermost loop that binds it stores its items. -/
theorem comprehension_loads {s : State} {scope : Nat} (hs : s.Scoped scope) (fuel : Nat) (node : Node) :
    construct (recur fuel) node s = comprehensionIn pure fuel node s ∧
      ∀ e t, comprehensionIn (fun _ => throw e) fuel node s = .ok () t → construct (recur fuel) node s = .ok () t := by
  have hsame := ((agrees_comprehensionIn scope fuel node).agree.left rfl not_false (holds_of_scoped hs)).1.symm
  refine ⟨hsame, fun e t h => hsame.trans ?_⟩
  exact covers_comprehensionIn (fun _ _ _ _ h => absurd h throw_ne_ok) fuel node s () t h

/-- The parameter has been bound and the body is to come. -/
def begunState : State := leftBy (start 0 unaryState)

theorem scoped_begunState : begunState.Scoped (unaryState.impls[0]?.getD default).scope :=
  scoped_start (by decide +kernel) (by decide +kernel)

/-- The items of `x`, one after the other. -/
def itemsNode (target : Label) : Node :=
  .mk {} (.listComp (.mk {} (.name target (some .load))) (.group [.mk {} (.comprehension
    (.mk {} (.name target (some .store))) (.mk {} (.name "x" (some .load))) (.group []))]))

/-- A target whose name the function does not have yet is loaded from its own place. One with the name of the parameter
is loaded from where the caller puts the argument. -/
theorem itemsNode_loads : begunState.place? "y" = none ∧ begunState.place? "x" = some 8 ∧
    completes (comprehensionIn (fun _ => throw .misuse) 3 (itemsNode "y") begunState) = true ∧
    completes (comprehensionIn (fun _ => throw .misuse) 3 (itemsNode "x") begunState) = false ∧
    ∀ target, construct (recur 3) (itemsNode target) begunState = comprehensionIn pure 3 (itemsNode target) begunState ∧
      ∀ e t, comprehensionIn (fun _ => throw e) 3 (itemsNode target) begunState = .ok () t →
        construct (recur 3) (itemsNode target) begunState = .ok () t :=
  ⟨by decide +kernel, by decide +kernel, by decide +kernel, by decide +kernel, fun target =>
    comprehension_loads scoped_begunState 3 (itemsNode target)⟩

end Lower
end Lowering
