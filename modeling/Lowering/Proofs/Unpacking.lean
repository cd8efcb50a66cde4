import Lowering.Proofs.Augmented
import Lowering.Proofs.Steady

/-!
Taking values apart. The items of a value are given to the targets of a tuple or list one after the other, and those of
an item to the targets in it. Each place in the targets is written once, with a value that is new when it is taken.
-/
namespace Lowering

open Emit

set_option synthInstance.maxSize 100000000

namespace Lower

variable {α β γ : Type} {k : Option (Nat × Option Usage)} {s s' : State} {n : Node} {targets : List Node} {t : Term}

theorem bind_map_run {x : Emit β} {y : Emit α} {g : α → β} {h : β → Emit γ} {h' : α → Emit γ}
    (hxy : x s = (do return g (← y) : Emit β) s) (hh : ∀ a s', y s = .ok a s' → h (g a) s' = h' a s') :
    (x >>= h) s = (y >>= h') s := by
  refine (bind_run_eq hxy fun _ _ _ => rfl).trans ?_
  rw [bind_assoc]
  exact bind_run_congr hh

theorem bind_discard_run {x : Emit Unit} {y : Emit α} {h : Unit → Emit γ} {h' : α → Emit γ}
    (hxy : x s = discard y s) (hh : ∀ a s', y s = .ok a s' → h () s' = h' a s') : (x >>= h) s = (y >>= h') s :=
  bind_map_run (g := fun _ => ()) (by rw [hxy, discard_eq]) hh

section Items

/-- Where items are taken from, and the blocks for a wrong number of them and for what comes after. -/
inductive Source
  | iterator (it : Term) (count : Nat) (error rest : BlockRef)
  | sequence (value : Term) (error rest : BlockRef)

def iterated (t : Term) (count : Nat) : Emit Source := do
  let error ← createBlock (some "Unpack Error")
  let rest ← createBlock (some "After Unpack")
  let it ← callMethod "__iter__" t.value t.type .empty .empty
  return .iterator it count error rest

def indexed (t : Term) (count : Nat) : Emit Source := do
  let unpack ← createBlock (some "Unpack")
  let error ← createBlock (some "Unpack Error")
  let rest ← createBlock (some "After Unpack")
  let count ← int64 count
  let length ← listLength t.value
  let test ← eq length count
  condBranch test unpack error
  setBlock unpack
  return .sequence t error rest

/-- Starts to take a value apart, into so many items. -/
def sourceOf (t : Term) (count : Nat) : Emit Source := do
  let type ← known t.type
  if type.isList || type.isTuple then indexed t count
  else if type.isDict then indexed ⟨some .python, ← dictKeys t.value⟩ count
  else iterated t count

namespace Source

/-- Takes the item at a place; an iterator is at that place when those before it have been taken. -/
def item : Source → Nat → Emit Term
  | iterator it _ error _, _ => do
    let test ← createBlock (some "Test Next")
    branch test
    setBlock test
    let next ← callMethod "__next__" it.value it.type .empty .empty
    let zero ← null (← objectPtr)
    discard clearError
    let isNull ← eq next.value zero
    let unpack ← createBlock (some "Unpack")
    condBranch isNull error unpack
    setBlock unpack
    return next
  | sequence value _ _, i => do
    let index ← int64 i
    let item ← callMethod "__getitem__" value.value value.type [index]
      [some (ValueType.integer.addHint (.constant .integer (.int i)))]
    let type ← known item.type
    unless type.isIncremented do retain item.type item.value
    return item

/-- An iterator must have no item after the last one. -/
def taken : Source → Nat → Emit Unit
  | iterator it count error rest, i =>
    if i + 1 = count then do
      let next ← callMethod "__next__" it.value it.type .empty .empty
      let zero ← null (← objectPtr)
      discard clearError
      let isNull ← eq next.value zero
      condBranch isNull rest error
    else return ()
  | sequence .., _ => return ()

def close : Source → Emit Unit
  | iterator _ _ error rest => do
    setBlock error
    raiseIndexError
    setBlock rest
  | sequence _ error rest => do
    branch rest
    setBlock error
    raiseIndexError
    setBlock rest

end Source

/-- Gives each target the item at its place. Collects what was done with the items. -/
def deliver (source : Source) (give : Node → Term → Emit (List α)) : Nat → List Node → Emit (List α)
  | _, [] => return []
  | i, target :: targets => do
    let item ← source.item i
    let done ← give target item
    source.taken i
    return done ++ (← deliver source give (i + 1) targets)

/-- Takes all items and gives them to targets. -/
def deliverAll (give : Node → Term → Emit (List α)) (targets : List Node) (source : Source) : Emit (List α) := do
  let done ← deliver source give 0 targets
  source.close
  return done

/-- Takes a value apart and gives its items to targets. -/
def splitItems (give : Node → Term → Emit (List α)) (targets : List Node) (t : Term) : Emit (List α) := do
  deliverAll give targets (← sourceOf t targets.length)

variable {source : Source}

instance (i : Nat) : Preserves (State.Marked k) (source.item i) := by
  cases source <;> unfold Source.item <;> infer_instance
instance (i : Nat) : Preserves (State.Marked k) (source.taken i) := by
  cases source <;> unfold Source.taken <;> infer_instance
instance : Preserves (State.Marked k) source.close := by
  cases source <;> unfold Source.close <;> infer_instance
instance (count : Nat) : Preserves (State.Marked k) (sourceOf t count) := by
  unfold sourceOf indexed iterated; infer_instance

theorem forIn_run {assign : Node → Term → Emit Unit} {give : Node → Term → Emit (List α)}
    [∀ n t, Preserves (State.Marked k) (give n t)] {i : Nat}
    (hgive : ∀ n ∈ targets, ∀ t s, s.Marked k → assign n t s = discard (give n t) s) (hs : s.Marked k) :
    (forIn (targets.zipIdx i) PUnit.unit fun (e : Node × Nat) _ => do
      let item ← source.item e.2
      assign e.1 item
      source.taken e.2
      return ForInStep.yield PUnit.unit) s = discard (deliver source give i targets) s := by
  induction targets generalizing i s with
  | nil => rfl
  | cons target targets ih =>
    rw [List.zipIdx_cons, List.forIn_cons, deliver, discard_eq]
    simp only [bind_assoc, pure_bind]
    refine bind_run_congr fun item s1 h1 => ?_
    have hs1 : s1.Marked k := Preserves.of_ok hs h1
    refine bind_discard_run (hgive target List.mem_cons_self item s1 hs1) fun done s2 h2 => ?_
    have hs2 : s2.Marked k := Preserves.of_ok hs1 h2
    refine bind_run_congr fun _ s3 h3 => ?_
    have hs3 : s3.Marked k := Preserves.of_ok hs2 h3
    rw [ih (fun n hn => hgive n (List.mem_cons_of_mem _ hn)) hs3, discard_eq]

theorem starredPlaces_eq (h : ∀ n ∈ targets, isStarred n = false) :
    starredPlaces targets = pure (targets.length, -1) := by
  have hloop : ∀ (targets : List Node) (before : Nat), (∀ n ∈ targets, isStarred n = false) →
      (forIn targets (before, (-1 : Int), false) fun target (p : Nat × Int × Bool) =>
        if isStarred target = true then
          if p.2.2 = true then do
            raiseIndexError
            return ForInStep.yield (p.1, 0, true)
          else return ForInStep.yield (p.1, 0, true)
        else if p.2.2 = true then return ForInStep.yield (p.1, p.2.1 + 1, p.2.2)
        else return ForInStep.yield (p.1 + 1, p.2.1, p.2.2) : Emit (Nat × Int × Bool)) =
          pure (before + targets.length, -1, false) := by
    intro targets
    induction targets with
    | nil => intro before _; rfl
    | cons target targets ih =>
      intro before h
      obtain ⟨hfirst, hrest⟩ := List.forall_mem_cons.1 h
      simp only [List.forIn_cons, hfirst, Bool.false_eq_true, if_false, pure_bind]
      rw [ih (before + 1) hrest, List.length_cons, Nat.add_right_comm, Nat.add_assoc]
  have hrun := hloop targets 0 h
  rw [Nat.zero_add] at hrun
  exact (congrArg (fun x => x >>= fun p : Nat × Int × Bool => pure (p.1, p.2.1)) hrun).trans (pure_bind _ _)

section Agreement

variable {assign : Node → Term → Emit Unit} {give : Node → Term → Emit (List α)}
  [∀ n t, Preserves (State.Marked k) (give n t)]

/-- A loop that assigns all items, and what comes after it. -/
def assignAll (assign : Node → Term → Emit Unit) (targets : List Node) (source : Source) : Emit Unit := do
  forIn targets.zipIdx PUnit.unit fun (e : Node × Nat) _ => do
    let item ← source.item e.2
    assign e.1 item
    source.taken e.2
    return ForInStep.yield PUnit.unit
  source.close

theorem unpackIterable_eq : unpackIterable assign targets t targets.length (-1) =
    iterated t targets.length >>= assignAll assign targets := by
  simp only [unpackIterable, iterated, List.take_length, bind_assoc, pure_bind]
  refine bind_congr fun error => bind_congr fun rest => bind_congr fun it => ?_
  rw [if_neg (not_not_intro rfl)]
  refine congrArg (· >>= _) (congrArg (forIn targets.zipIdx PUnit.unit) (funext fun e => funext fun _ => ?_))
  by_cases hlast : e.2 + 1 = targets.length <;> simp [Source.item, Source.taken, hlast]

theorem unpackSized_eq : unpackSized assign targets t targets.length (-1) =
    indexed t targets.length >>= assignAll assign targets := by
  simp only [unpackSized, indexed, bind_assoc, pure_bind]
  rw [if_neg (by decide)]
  refine bind_congr fun unpack => bind_congr fun error => bind_congr fun rest => bind_congr fun count => ?_
  refine bind_congr fun length => bind_congr fun test => bind_congr fun _ => bind_congr fun _ => ?_
  refine congrArg (· >>= _) (congrArg (forIn targets.zipIdx PUnit.unit) (funext fun e => funext fun _ => ?_))
  simp only [Source.item, Source.taken, bind_assoc, pure_bind]
  refine bind_congr fun index => bind_congr fun item => bind_congr fun type => ?_
  cases type.isIncremented <;> simp

/-- Without a starred target, the items are assigned one after the other. -/
theorem unpackTo_eq (hplain : ∀ n ∈ targets, isStarred n = false) :
    unpackTo assign targets t = sourceOf t targets.length >>= assignAll assign targets := by
  rw [unpackTo, starredPlaces_eq hplain, pure_bind, sourceOf]
  dsimp only
  rw [bind_assoc]
  refine bind_congr fun type => ?_
  split
  · exact unpackSized_eq
  · split
    · rw [bind_assoc]
      exact bind_congr fun keys => unpackSized_eq
    · exact unpackIterable_eq

theorem assignAll_run {source : Source}
    (hgive : ∀ n ∈ targets, ∀ t s, s.Marked k → assign n t s = discard (give n t) s) (hs : s.Marked k) :
    assignAll assign targets source s = discard (deliverAll give targets source) s := by
  rw [discard_eq, deliverAll, bind_assoc]
  refine bind_discard_run (forIn_run hgive hs) fun done s1 _ => ?_
  simp only [bind_assoc, pure_bind]
  exact congrFun (bind_pure _).symm s1

theorem unpackTo_run (hplain : ∀ n ∈ targets, isStarred n = false)
    (hgive : ∀ n ∈ targets, ∀ t s, s.Marked k → assign n t s = discard (give n t) s) (hs : s.Marked k) :
    unpackTo assign targets t s = discard (splitItems give targets t) s := by
  rw [unpackTo_eq hplain, discard_eq, splitItems, bind_assoc]
  refine bind_run_congr fun source s1 h1 => ?_
  have hs1 : s1.Marked k := Preserves.of_ok hs h1
  rw [assignAll_run hgive hs1, discard_eq]

end Agreement

end Items

section Places

variable {node : Node} {leaves : List Node} {v : Operand} {fuel depth : Nat}

/-- The places in targets, from the first to the last. They are written, and what has to be evaluated to get at them
assigns nothing. -/
inductive Leaves (k : Option (Nat × Option Usage)) : List Node → List Node → Prop
  | nil : Leaves k [] []
  | place {n : Node} {rest leaves : List Node} (hn : isPlace n = true) (hstore : usageUnder k n = some .store)
      (hbases : ∀ b ∈ bases n, Steady b) (hrest : Leaves k rest leaves) : Leaves k (n :: rest) (n :: leaves)
  | group {n : Node} {items inner rest leaves : List Node} (hn : itemsIn? n = some items)
      (hitems : Leaves k items inner) (hrest : Leaves k rest leaves) : Leaves k (n :: rest) (inner ++ leaves)

theorem itemsIn?_of_isPlace (hn : isPlace n = true) : itemsIn? n = none := by
  unfold isPlace at hn
  unfold itemsIn?
  split at hn <;> simp_all

theorem Leaves.plain (h : Leaves k targets leaves) : ∀ n ∈ targets, isStarred n = false := by
  induction h with
  | nil => simp
  | place hn _ _ _ ih =>
    refine List.forall_mem_cons.2 ⟨?_, ih⟩
    unfold isPlace at hn
    unfold isStarred
    split at hn <;> simp_all
  | group hn _ _ _ ih =>
    refine List.forall_mem_cons.2 ⟨?_, ih⟩
    unfold itemsIn? at hn
    unfold isStarred
    split at hn <;> simp_all

theorem depth_lt_of_itemsIn? {items : List Node} {m : Node} (hn : itemsIn? n = some items) (hm : m ∈ items) :
    m.depth < n.depth := by
  have hitems : ∀ elts : Node, elts.items? = some items → m.depth ≤ elts.depth := by
    intro elts helts
    unfold Node.items? at helts
    split at helts
    · next ms hform =>
      cases helts
      rw [elts.depth_eq, hform, Node.formDepth]
      exact Nat.le_succ_of_le (Node.depth_le_listDepth hm)
    · next text hform =>
      obtain ⟨x, -, rfl⟩ := Option.map_eq_some_iff.1 helts
      obtain ⟨c, -, rfl⟩ := List.mem_map.1 hm
      exact elts.one_lt_depth
    · cases helts
  unfold itemsIn? at hn
  split at hn
  · next elts u hform =>
    rw [n.depth_eq, hform, Node.formDepth]
    exact Nat.lt_succ_of_le (hitems elts hn)
  · next elts u hform =>
    rw [n.depth_eq, hform, Node.formDepth]
    exact Nat.lt_succ_of_le (hitems elts hn)
  · cases hn

theorem depth_le_of_itemsIn? {items : List Node} (hn : itemsIn? n = some items) (hdepth : n.depth ≤ depth + 1) :
    ∀ m ∈ items, m.depth ≤ depth := fun m hm => by
  have := depth_lt_of_itemsIn? hn hm
  omega

/-- Writes a value to a place. Says where it was written. -/
@[reducible] def writeTo (fuel : Nat) (n : Node) (v : Operand) : Emit (List (Node × Operand)) := do
  let p ← evaluate (recur fuel) n
  p.write v
  return [(n, v)]

theorem construct_run (hn : isPlace n = true) (hstore : usageUnder k n = some .store) (hbases : ∀ b ∈ bases n, Steady b)
    (hs : s.Marked k) (hv : s.Assigning v) : construct (recur fuel) n s = discard (writeTo fuel n v) s := by
  have hevaluate := preserves_evaluate (v := v) fun b hb => (hbases b hb).preserves fuel
  rw [construct_of_isPlace hn hs.lowerer, discard_eq, writeTo, bind_assoc]
  refine bind_run_congr fun p s1 h1 => ?_
  have hs1 : s1.Marked k := Preserves.of_ok hs h1
  have hv1 : s1.Assigning v := Preserves.of_ok hv h1
  have husage : usageOf n s1 = .ok (some .store) s1 := by
    rw [← hstore, ← hs1.replaced]
    rfl
  have hassigned : assigned s1 = .ok s1.tree.assigned s1 := rfl
  rw [bind_run_of_ok husage, Reference.use, bind_run_of_ok hassigned, hv1.value]
  simp only [bind_assoc, pure_bind]
  exact congrFun (bind_pure _).symm s1

/-- Gives a value to a target: to the place that it is, and else its items to the targets in it. -/
def split (fuel : Nat) : Nat → Node → Term → Emit (List (Node × Operand))
  | 0, _, _ => return []
  | depth + 1, n, t =>
    match itemsIn? n with
    | some items => splitItems (split fuel depth) items t
    | none => do
      setAssigned t
      announce n
      writeTo fuel n t.value

instance (give : Node → Term → Emit (List α)) [∀ n t, Preserves (State.Marked k) (give n t)] (targets : List Node)
    (t : Term) : Preserves (State.Marked k) (splitItems give targets t) := by
  have hdeliver : ∀ source i, Preserves (State.Marked k) (deliver source give i targets) := fun source i => by
    induction targets generalizing i with
    | nil => exact inferInstanceAs (Preserves _ (pure []))
    | cons target targets ih => unfold deliver; infer_instance
  unfold splitItems deliverAll
  infer_instance

instance (n : Node) (v : Operand) : Preserves (State.Marked k) (writeTo fuel n v) := by
  have hwrite : ∀ p : Reference, Preserves (State.Marked k) (p.write v) := fun p => by
    cases p <;> unfold Reference.write <;> infer_instance
  unfold writeTo
  infer_instance

instance (n : Node) (t : Term) : Preserves (State.Marked k) (split fuel depth n t) := by
  induction depth generalizing n t with
  | zero => exact inferInstanceAs (Preserves _ (pure []))
  | succ depth ih =>
    unfold split
    split <;> infer_instance

/-- A target that is given an item takes it apart again, down to the places. -/
theorem assignTo_run (h : Leaves k targets leaves) (hdepth : ∀ n ∈ targets, n.depth ≤ depth) :
    ∀ n ∈ targets, ∀ t s, s.Marked k → assignTo (recur (fuel + 1)) node depth n t s = discard (split fuel depth n t) s := by
  induction h generalizing depth with
  | nil => simp
  | @place n rest leaves hn hstore hbases _ ih =>
    obtain ⟨hfirst, hrest⟩ := List.forall_mem_cons.1 hdepth
    refine List.forall_mem_cons.2 ⟨fun t s hs => ?_, ih hrest⟩
    obtain ⟨depth, rfl⟩ : ∃ d, depth = d + 1 := ⟨depth - 1, by have := n.depth_pos; omega⟩
    have hplace : assignTo (recur (fuel + 1)) node (depth + 1) n t = (do
        requireTree
        setAssigned t
        (recur (fuel + 1)).visit n) := by
      unfold isPlace at hn
      rw [assignTo]
      split at hn <;> simp_all
    have htree : requireTree s = .ok () s := by
      rw [requireTree, get_bind_run, hs.lowerer]
      rfl
    rw [hplace, bind_run_of_ok htree, split, itemsIn?_of_isPlace hn, visit_of_isConstruct (isConstruct_of_isPlace hn)]
    dsimp only
    rw [discard_eq, bind_assoc, bind_assoc]
    refine bind_run_congr fun _ s1 h1 => bind_run_congr fun _ s2 h2 => ?_
    have hs1 : s1.Marked k := Preserves.of_ok hs h1
    have hv1 : s1.Assigning t.value := by
      cases h1
      exact ⟨hs.lowerer, rfl⟩
    rw [construct_run hn hstore hbases (Preserves.of_ok hs1 h2) (Preserves.of_ok hv1 h2), discard_eq]
  | @group n items inner rest leaves hn hitems _ ihitems ih =>
    obtain ⟨hfirst, hrest⟩ := List.forall_mem_cons.1 hdepth
    refine List.forall_mem_cons.2 ⟨fun t s hs => ?_, ih hrest⟩
    obtain ⟨depth, rfl⟩ : ∃ d, depth = d + 1 := ⟨depth - 1, by have := n.depth_pos; omega⟩
    have hgroup : assignTo (recur (fuel + 1)) node (depth + 1) n t =
        unpackTo (assignTo (recur (fuel + 1)) node depth) items t := by
      unfold itemsIn? at hn
      rw [assignTo]
      split at hn <;> simp_all [each_eq]
    rw [hgroup, split, hn]
    exact unpackTo_run hitems.plain (ihitems (depth_le_of_itemsIn? hn hfirst)) hs

end Places

section Fresh

/-- Whatever else the action does, it gives that value. -/
class Gives (v : Operand) (x : Emit Term) : Prop where
  value_eq : ∀ {s s' : State} {t : Term}, x s = .ok t s' → t.value = v

instance (t : Term) : Gives t.value (pure t) := ⟨fun h => by cases h; rfl⟩
variable {type : Option ValueType} {v : Operand} {source : Source}

instance : Gives v (pure ⟨type, v⟩) := ⟨fun h => by cases h; rfl⟩

instance (x : Emit α) (g : α → Emit Term) [hg : ∀ a, Gives v (g a)] : Gives v (x >>= g) where
  value_eq h := by
    obtain ⟨a, s1, -, h⟩ := bind_eq_ok.1 h
    exact (hg a).value_eq h

instance (c : Prop) [Decidable c] (x y : Emit Term) [Gives v x] [Gives v y] : Gives v (if c then x else y) := by
  split <;> infer_instance

theorem fresh_bind {value : α → Operand} {x : Emit α} [hx : Fresh value x] {g : α → Emit Term}
    [hg : ∀ a f m, Heeds (counting f m) (g a)] (hgives : ∀ a, Gives (value a) (g a)) : Fresh Term.value (x >>= g) where
  number hs h := by
    obtain ⟨a, s1, ha, h⟩ := bind_eq_ok.1 h
    obtain ⟨i, hi, hm, hs1⟩ := hx.number hs ha
    exact ⟨i, ((hgives a).value_eq h).trans hi, hm, Preserves.of_ok hs1 h⟩

theorem fresh_operand {x : Emit Operand} [Fresh id x] {g : Operand → Emit Term}
    [∀ a f m, Heeds (counting f m) (g a)] [hgives : ∀ a, Gives a (g a)] : Fresh Term.value (x >>= g) :=
  fresh_bind (show ∀ a, Gives (id a) (g a) from hgives)

theorem fresh_term {x : Emit Term} [Fresh Term.value x] {g : Term → Emit Term}
    [∀ t f m, Heeds (counting f m) (g t)] [hgives : ∀ t : Term, Gives t.value (g t)] : Fresh Term.value (x >>= g) :=
  fresh_bind hgives

instance (name : String) (slot : Nat) (object : Operand) : Fresh id (callIteration name slot object) := by
  unfold callIteration; infer_instance
instance (list index : Operand) : Fresh id (listItem type list index) := by
  unfold listItem listItemUnchecked; infer_instance

theorem callMethod_next (object : Operand) (type : Option ValueType) :
    callMethod "__next__" object type .empty .empty = (do
      let t ← known type
      requireCallable t "__next__"
      let o ← boxObject t object
      return ⟨some .python, ← callIteration "__next__" iterNextSlot o.value⟩) := by
  rfl

theorem callMethod_getitem (object index : Operand) (type : Option ValueType) (t : ValueType) :
    callMethod "__getitem__" object type [index] [some t] = (do
      let type ← known type
      requireCallable type "__getitem__"
      let o ← boxObject type object
      if ← Shortcut.listGet.applies o.type [some t] then Shortcut.listGet.lower o.type o.value [some t] [index]
      else callDefault "__getitem__" o.value [index] [some t] .none) := by
  have hfind : ∀ type, findShortcut type [some t] "__getitem__" = (do
      return if ← Shortcut.listGet.applies type [some t] then some .listGet else none) := fun _ => rfl
  unfold callMethod
  refine bind_congr fun type => bind_congr fun _ => bind_congr fun o => ?_
  change (findShortcut o.type [some t] "__getitem__" >>= _) = _
  rw [hfind, bind_assoc]
  refine bind_congr fun applies => ?_
  cases applies <;> rfl

instance (object : Operand) : Fresh Term.value (callMethod "__next__" object type .empty .empty) := by
  have hcall : ∀ o, Fresh Term.value (do return ⟨some .python, ← callIteration "__next__" iterNextSlot o⟩) :=
    fun o => fresh_operand
  rw [callMethod_next]
  infer_instance

instance (object index : Operand) (t : ValueType) :
    Fresh Term.value (callMethod "__getitem__" object type [index] [some t]) := by
  have hget : ∀ type o, Fresh Term.value (Shortcut.listGet.lower type o [some t] [index]) := fun type o => by
    have hitem : ∀ i, Fresh Term.value (do
        let item ← listItem type o i
        return ⟨(← known type).content, item⟩) := fun i => fresh_operand
    unfold Shortcut.lower
    infer_instance
  have hcall : ∀ o, Fresh Term.value (callDefault "__getitem__" o [index] [some t] .none) := fun o => by
    have hresult : ∀ values, Fresh Term.value (do
        let result ← callAttribute o "__getitem__" values .none
        if (← lift (Batch.list [some t]).each).length < (← lift (Batch.list [index]).each).length then throw .outOfRange
        return ⟨some retainedObject, result⟩) := fun values => fresh_operand
    unfold callDefault
    infer_instance
  rw [callMethod_getitem]
  infer_instance

instance (i : Nat) : Fresh Term.value (source.item i) := by
  cases source with
  | iterator it count error rest =>
    have hnext : Fresh Term.value (do
        let next ← callMethod "__next__" it.value it.type .empty .empty
        let zero ← null (← objectPtr)
        discard clearError
        let isNull ← eq next.value zero
        let unpack ← createBlock (some "Unpack")
        condBranch isNull error unpack
        setBlock unpack
        return next) := fresh_term
    unfold Source.item
    infer_instance
  | sequence value error rest =>
    have hitem : ∀ index : Operand, Fresh Term.value (do
        let item ← callMethod "__getitem__" value.value value.type [index]
          [some (ValueType.integer.addHint (.constant .integer (.int i)))]
        let type ← known item.type
        unless type.isIncremented do retain item.type item.value
        return item) := fun index => fresh_term
    unfold Source.item
    infer_instance

variable {f m m' l : Nat} {vs ws : List Operand} {leaves : List Node} {fuel depth : Nat}

/-- Values of a range, each with a greater number than the one before. -/
def Ascending (m m' : Nat) (vs : List Operand) : Prop :=
  ∃ ids : List Nat, vs = ids.map (fun i : Nat => .id i) ∧ ids.Pairwise (· < ·) ∧ ∀ i ∈ ids, m ≤ i ∧ i < m'

namespace Ascending

theorem nil : Ascending m m' [] := ⟨[], rfl, .nil, by simp⟩

theorem single {i : Nat} (hm : m ≤ i) : Ascending m (i + 1) [.id i] := ⟨[i], rfl, by simp, by simpa using hm⟩

theorem append (hm : m ≤ m') (hl : m' ≤ l) (hvs : Ascending m m' vs) (hws : Ascending m' l ws) :
    Ascending m l (vs ++ ws) := by
  obtain ⟨is, rfl, his, hrange⟩ := hvs
  obtain ⟨js, rfl, hjs, hrange'⟩ := hws
  refine ⟨is ++ js, by simp, List.pairwise_append.2 ⟨his, hjs, fun i hi j hj => ?_⟩, fun i hi => ?_⟩
  · have := hrange i hi
    have := hrange' j hj
    omega
  · rcases List.mem_append.1 hi with hi | hi
    · have := hrange i hi
      omega
    · have := hrange' i hi
      omega

theorem mono (hm : l ≤ m) (h : Ascending m m' vs) : Ascending l m' vs := by
  obtain ⟨ids, rfl, hids, hrange⟩ := h
  refine ⟨ids, rfl, hids, fun i hi => ?_⟩
  have := hrange i hi
  omega

theorem nodup (h : Ascending m m' vs) : vs.Nodup := by
  obtain ⟨ids, rfl, hids, -⟩ := h
  refine List.pairwise_map.2 (hids.imp fun hlt heq => ?_)
  have := Operand.id.inj heq
  omega

theorem ranges (h : Ascending m m' vs) : ∀ v ∈ vs, Ranges m m' v := by
  obtain ⟨ids, rfl, -, hrange⟩ := h
  intro v hv
  obtain ⟨i, hi, rfl⟩ := List.mem_map.1 hv
  exact ⟨i, rfl, hrange i hi⟩

end Ascending

instance (i : Nat) : Heeds (counting f m) (source.taken i) := by
  cases source <;> unfold Source.taken <;> infer_instance
instance : Heeds (counting f m) source.close := by
  cases source <;> unfold Source.close <;> infer_instance
instance (count : Nat) : Heeds (counting f m) (sourceOf t count) := by
  unfold sourceOf indexed iterated; infer_instance

/-- The places that were written, with new values one after the other. -/
def Stored (f m : Nat) (leaves : List Node) (stores : List (Node × Operand)) (s : State) : Prop :=
  stores.map Prod.fst = leaves ∧ ∃ m', m ≤ m' ∧ s.Counts f m' ∧ Ascending m m' (stores.map Prod.snd)

theorem Stored.append {ls ls' : List Node} {done more : List (Node × Operand)} (h : Stored f m ls done s)
    (hmore : ∀ m', s.Counts f m' → Stored f m' ls' more s') : Stored f m (ls ++ ls') (done ++ more) s' := by
  obtain ⟨hdone, m1, hm1, hs, hvs⟩ := h
  obtain ⟨hleaves, m2, hm2, hs', hws⟩ := hmore m1 hs
  refine ⟨by rw [List.map_append, hdone, hleaves], m2, Nat.le_trans hm1 hm2, hs', ?_⟩
  rw [List.map_append]
  exact hvs.append hm1 hm2 hws

theorem Stored.keep {ls : List Node} {done : List (Node × Operand)} {x : Emit α} [∀ m, Heeds (counting f m) x] {a : α}
    (h : Stored f m ls done s) (hx : x s = .ok a s') : Stored f m ls done s' := by
  obtain ⟨hdone, m', hm', hs, hvs⟩ := h
  exact ⟨hdone, m', hm', Preserves.of_ok hs hx, hvs⟩

theorem Stored.mono {ls : List Node} {done : List (Node × Operand)} (hm : l ≤ m) (h : Stored f m ls done s) :
    Stored f l ls done s := by
  obtain ⟨hdone, m', hm', hs, hvs⟩ := h
  exact ⟨hdone, m', Nat.le_trans hm hm', hs, hvs.mono hm⟩

theorem stored_place {stores : List (Node × Operand)} {j : Nat} (hn : isPlace n = true) (ht : t.value = .id j)
    (hm : m ≤ j) (hs : s.Counts f (j + 1)) (hrun : split fuel (depth + 1) n t s = .ok stores s') :
    Stored f m [n] stores s' := by
  rw [split, itemsIn?_of_isPlace hn] at hrun
  obtain ⟨_, s1, h1, hrun⟩ := bind_eq_ok.1 hrun
  obtain ⟨_, s2, h2, hrun⟩ := bind_eq_ok.1 hrun
  have hs2 : s2.Counts f (j + 1) := Preserves.of_ok (Preserves.of_ok hs h1) h2
  have hs' : s'.Counts f (j + 1) := Preserves.of_ok hs2 hrun
  obtain ⟨p, s3, -, hrun⟩ := bind_eq_ok.1 hrun
  obtain ⟨_, s4, -, hrun⟩ := bind_eq_ok.1 hrun
  obtain ⟨rfl, rfl⟩ := pure_eq_ok.1 hrun
  rw [ht]
  exact ⟨rfl, j + 1, by omega, hs', .single hm⟩

section Delivery

variable {give : Node → Term → Emit (List (Node × Operand))} {source : Source} {i : Nat}
  {stores : List (Node × Operand)} {ls ls' : List Node}

theorem stored_cons (hfirst : ∀ t j s s' done, t.value = .id j → m ≤ j → s.Counts f (j + 1) →
      give n t s = .ok done s' → Stored f m ls done s')
    (hrest : ∀ m s s' more, s.Counts f m → deliver source give (i + 1) targets s = .ok more s' → Stored f m ls' more s')
    (hs : s.Counts f m) (hrun : deliver source give i (n :: targets) s = .ok stores s') :
    Stored f m (ls ++ ls') stores s' := by
  obtain ⟨item, s1, hitem, hrun⟩ := bind_eq_ok.1 hrun
  obtain ⟨j, hj, hm, hs1⟩ := (inferInstance : Fresh Term.value (source.item i)).number hs hitem
  obtain ⟨done, s2, hdone, hrun⟩ := bind_eq_ok.1 hrun
  obtain ⟨_, s3, htaken, hrun⟩ := bind_eq_ok.1 hrun
  obtain ⟨more, s4, hmore, hrun⟩ := bind_eq_ok.1 hrun
  obtain ⟨rfl, rfl⟩ := pure_eq_ok.1 hrun
  have hstored := (hfirst item j s1 s2 done hj hm hs1 hdone).keep htaken
  exact hstored.append fun m' hs3 => hrest m' s3 _ more hs3 hmore

theorem stored_splitItems (hdeliver : ∀ source s s' stores, s.Counts f m →
      deliver source give 0 targets s = .ok stores s' → Stored f m ls stores s')
    (hs : s.Counts f m) (hrun : splitItems give targets t s = .ok stores s') : Stored f m ls stores s' := by
  obtain ⟨source, s1, hsource, hrun⟩ := bind_eq_ok.1 hrun
  obtain ⟨done, s2, hdone, hrun⟩ := bind_eq_ok.1 hrun
  obtain ⟨_, s3, hclose, hrun⟩ := bind_eq_ok.1 hrun
  obtain ⟨rfl, rfl⟩ := pure_eq_ok.1 hrun
  exact (hdeliver source s1 s2 _ (Preserves.of_ok hs hsource) hdone).keep hclose

end Delivery

/-- The places in targets that items are given to get values one after the other, all of them new. -/
theorem stored_of_deliver (h : Leaves k targets leaves) (hdepth : ∀ n ∈ targets, n.depth ≤ depth)
    {i : Nat} {stores : List (Node × Operand)} (hs : s.Counts f m)
    (hrun : deliver source (split fuel depth) i targets s = .ok stores s') : Stored f m leaves stores s' := by
  induction h generalizing depth source i s s' m stores with
  | nil =>
    cases hrun
    exact ⟨rfl, m, Nat.le_refl m, hs, .nil⟩
  | @place n rest leaves hn hstore hbases _ ih =>
    obtain ⟨hfirst, hrest⟩ := List.forall_mem_cons.1 hdepth
    obtain ⟨depth, rfl⟩ : ∃ d, depth = d + 1 := ⟨depth - 1, by have := n.depth_pos; omega⟩
    change Stored f m ([n] ++ leaves) stores s'
    refine stored_cons (fun t j s s' done ht hm hs => stored_place hn ht hm hs) ?_ hs hrun
    exact fun m s s' more hs hmore => ih hrest hs hmore
  | @group n items inner rest leaves hn hitems _ ihitems ih =>
    obtain ⟨hfirst, hrest⟩ := List.forall_mem_cons.1 hdepth
    obtain ⟨depth, rfl⟩ : ∃ d, depth = d + 1 := ⟨depth - 1, by have := n.depth_pos; omega⟩
    have hinner := depth_le_of_itemsIn? hn hfirst
    refine stored_cons (fun t j s s' done ht hm hs hdone => ?_) (fun m s s' more hs hmore => ih hrest hs hmore) hs hrun
    rw [split, hn] at hdone
    have hm' : m ≤ j + 1 := by omega
    exact (stored_splitItems (fun source s s' stores hs hdeliver => ihitems hinner hs hdeliver) hs hdone).mono hm'

end Fresh

end Lower
end Lowering
