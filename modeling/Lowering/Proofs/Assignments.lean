import Lowering.Proofs.Unpacking

/-!
Assignments. The first target decides: if it is a tuple or list of other than one item, its items get the items of the
value, and so do those of tuples and lists inside it, while the other targets get nothing. Otherwise all targets are
lowered as expressions, and each place in them gets the value as a whole, also in a tuple or list.
-/
namespace Lowering

open Emit

set_option synthInstance.maxSize 100000000

namespace Lower

variable {α β γ : Type} {k : Option (Nat × Option Usage)} {s s' : State} {n : Node} {targets : List Node} {t : Term}

section Displays

variable {items leaves : List Node} {v : Operand} {fuel : Nat} {r : Recur}

def fillTuple (terms : List Term) : Emit Unit := do
  let size ← int64 terms.length
  let tuple ← newTuple size
  setLast ⟨some (ValueType.python.addHint .refIncr), tuple⟩
  for (t, i) in terms.zipIdx do
    let item ← box t.value t.type
    retain item.type item.value
    let index ← int64 i
    tupleFill tuple index item.value

def fillList (terms : List Term) : Emit Unit := do
  let size ← int64 terms.length
  let list ← newList size
  setLast ⟨some .python, list⟩
  for (t, i) in terms.zipIdx do
    let item ← box t.value t.type
    let index ← int64 i
    discard (listSet list index item.value)
    retain item.type item.value

/-- Makes the tuple or list of what its items have left. -/
def fill (n : Node) (terms : List Term) : Emit Unit :=
  match n.form with
  | .tuple .. => fillTuple terms
  | _ => fillList terms

theorem construct_display (hn : itemsIn? n = some items) : construct r n = (do
    let terms ← items.mapM fun e => do
      let t ← r.term e
      setLastValue .absent
      return t
    fill n terms) := by
  unfold itemsIn? at hn
  split at hn
  · next elts u hform =>
    simp only [construct, fill, hform]
    change (elements r elts >>= fillTuple) = _
    rw [elements, each_eq hn, pure_bind]
  · next elts u hform =>
    simp only [construct, fill, hform]
    change (elements r elts >>= fillList) = _
    rw [elements, each_eq hn, pure_bind]
  · cases hn

/-- Lowers an item of a tuple or list that stands as a target. -/
@[reducible] def spreadItem (give : Node → Emit (List (Node × Operand))) (n : Node) : Emit (List (Node × Operand) × Term) := do
  announce n
  let done ← give n
  let t := (← get).tree.last
  setLastValue .absent
  return (done, t)

/-- Gives a value to a target as a whole: to the place that it is, and else to all places in it, of which a tuple or
list is made then. -/
def spread : Nat → Operand → Node → Emit (List (Node × Operand))
  | 0, v, n => writeTo 0 n v
  | fuel + 1, v, n =>
    match itemsIn? n with
    | some items => do
      let parts ← items.mapM (spreadItem (spread fuel v))
      fill n (parts.map Prod.snd)
      return parts.flatMap Prod.fst
    | none => writeTo (fuel + 1) n v

theorem spread_place (hn : isPlace n = true) : spread fuel v n = writeTo fuel n v := by
  cases fuel with
  | zero => rfl
  | succ fuel => rw [spread, itemsIn?_of_isPlace hn]

theorem mapM_run {I : State → Prop} {xs : List α} {x : α → Emit β} {y : α → Emit γ} {g : γ → β}
    (hxy : ∀ a ∈ xs, ∀ s, I s → x a s = (do return g (← y a) : Emit β) s) (hy : ∀ a ∈ xs, Preserves I (y a)) (hs : I s) :
    xs.mapM x s = (do return (← xs.mapM y).map g : Emit (List β)) s := by
  induction xs generalizing s with
  | nil => rfl
  | cons a xs ih =>
    obtain ⟨hfirst, hrest⟩ := List.forall_mem_cons.1 hxy
    obtain ⟨hya, hys⟩ := List.forall_mem_cons.1 hy
    simp only [List.mapM_cons, bind_assoc, pure_bind]
    refine bind_map_run (hfirst s hs) fun c s1 h1 => ?_
    exact bind_map_run (ih hrest hys (Preserves.of_ok hs h1)) fun cs s2 _ => rfl

theorem forM_eq (xs : List α) (x : α → Emit Unit) : xs.forM x = discard (xs.mapM x) := by
  induction xs with
  | nil => rfl
  | cons a xs ih =>
    change (do x a; xs.forM x) = _
    rw [discard_eq, List.mapM_cons, ih, discard_eq]
    simp only [bind_assoc, pure_bind]

instance (terms : List Term) : Preserves (State.Marked k) (fill n terms) := by
  unfold fill
  split
  · unfold fillTuple; infer_instance
  · unfold fillList; infer_instance

instance (terms : List Term) : Retains v (fill n terms) := by
  unfold fill
  split
  · unfold fillTuple; infer_instance
  · unfold fillList; infer_instance

instance (n : Node) : Preserves (State.Marked k) (spread fuel v n) := by
  induction fuel generalizing n with
  | zero => exact inferInstanceAs (Preserves _ (writeTo 0 n v))
  | succ fuel ih =>
    unfold spread
    split <;> infer_instance

theorem Leaves.isConstruct (h : Leaves k targets leaves) : ∀ n ∈ targets, n.isConstruct = true := by
  induction h with
  | nil => simp
  | place hn _ _ _ ih => exact List.forall_mem_cons.2 ⟨isConstruct_of_isPlace hn, ih⟩
  | group hn _ _ _ ih =>
    refine List.forall_mem_cons.2 ⟨?_, ih⟩
    unfold itemsIn? at hn
    split at hn <;> simp_all [Node.isConstruct]

theorem preserves_spread (h : Leaves k targets leaves) (hdepth : ∀ n ∈ targets, n.depth ≤ fuel + 1) :
    ∀ n ∈ targets, Retains v (spread fuel v n) := by
  induction h generalizing fuel with
  | nil => simp
  | place hn _ hbases _ ih =>
    refine List.forall_mem_cons.2 ⟨?_, ih (List.forall_mem_cons.1 hdepth).2⟩
    have hevaluate := preserves_evaluate (v := v) fun b hb => (hbases b hb).preserves fuel
    rw [spread_place hn, writeTo]
    infer_instance
  | @group n items inner rest leaves hn _ _ ihitems ih =>
    obtain ⟨hfirst, hrest⟩ := List.forall_mem_cons.1 hdepth
    refine List.forall_mem_cons.2 ⟨?_, ih hrest⟩
    obtain ⟨fuel, rfl⟩ : ∃ d, fuel = d + 1 := ⟨fuel - 1, by have := n.one_lt_depth; omega⟩
    have hinner := depth_le_of_itemsIn? hn hfirst
    have hparts : Retains v (items.mapM (spreadItem (spread fuel v))) := by
      refine preserves_mapM fun m hm => ?_
      have := ihitems hinner m hm
      infer_instance
    rw [spread, hn]
    infer_instance

/-- A target that is lowered as an expression gives the whole value to all places in it. -/
theorem spread_run (h : Leaves k targets leaves) (hdepth : ∀ n ∈ targets, n.depth ≤ fuel + 1) :
    ∀ n ∈ targets, ∀ s, s.Marked k ∧ s.Assigning v → construct (recur fuel) n s = discard (spread fuel v n) s := by
  induction h generalizing fuel with
  | nil => simp
  | place hn hstore hbases _ ih =>
    refine List.forall_mem_cons.2 ⟨fun s hs => ?_, ih (List.forall_mem_cons.1 hdepth).2⟩
    rw [spread_place hn]
    exact construct_run hn hstore hbases hs.1 hs.2
  | @group n items inner rest leaves hn hitems _ ihitems ih =>
    obtain ⟨hfirst, hrest⟩ := List.forall_mem_cons.1 hdepth
    refine List.forall_mem_cons.2 ⟨fun s hs => ?_, ih hrest⟩
    obtain ⟨fuel, rfl⟩ : ∃ d, fuel = d + 1 := ⟨fuel - 1, by have := n.one_lt_depth; omega⟩
    have hinner := depth_le_of_itemsIn? hn hfirst
    rw [construct_display hn, spread, hn]
    dsimp only
    rw [discard_eq, bind_assoc]
    have hterms : (items.mapM fun e => do
        let t ← (recur (fuel + 1)).term e
        setLastValue .absent
        return t : Emit (List Term)) s =
          (do return (← items.mapM (spreadItem (spread fuel v))).map Prod.snd : Emit (List Term)) s := by
      refine mapM_run (I := fun s => s.Marked k ∧ s.Assigning v) (fun e he s hs => ?_) (fun e he => ?_) hs
      · rw [Recur.term, visit_of_isConstruct (hitems.isConstruct e he), spreadItem]
        simp only [bind_assoc, pure_bind]
        refine bind_run_congr fun _ s1 h1 => ?_
        have hs1 : s1.Marked k ∧ s1.Assigning v := ⟨Preserves.of_ok hs.1 h1, Preserves.of_ok hs.2 h1⟩
        exact bind_discard_run (ihitems hinner e he s1 hs1) fun _ _ _ => rfl
      · have := preserves_spread (v := v) hitems hinner e he
        exact heeds_lasting fun hs h => ⟨Preserves.of_ok hs.1 h, Preserves.of_ok hs.2 h⟩
    refine bind_map_run hterms fun parts s1 _ => ?_
    simp only [bind_assoc, pure_bind]
    exact congrFun (bind_pure _).symm s1

/-- All places in targets get the value as a whole. -/
theorem stores_of_spread (h : Leaves k targets leaves) (hdepth : ∀ n ∈ targets, n.depth ≤ fuel + 1)
    {give : Node → Emit α} {stores : α → List (Node × Operand)} {done : List α}
    (hgive : ∀ n s a s', give n s = .ok a s' → ∃ s1 s2, spread fuel v n s1 = .ok (stores a) s2)
    (hrun : targets.mapM give s = .ok done s') : done.flatMap stores = leaves.map (·, v) := by
  induction h generalizing α fuel s s' with
  | nil =>
    cases hrun
    rfl
  | place hn _ _ _ ih =>
    rw [List.mapM_cons] at hrun
    obtain ⟨a, s1, ha, hrun⟩ := bind_eq_ok.1 hrun
    obtain ⟨more, s2, hmore, hrun⟩ := bind_eq_ok.1 hrun
    obtain ⟨rfl, rfl⟩ := pure_eq_ok.1 hrun
    obtain ⟨t1, t2, hspread⟩ := hgive _ _ _ _ ha
    rw [spread_place hn] at hspread
    obtain ⟨p, t3, -, hspread⟩ := bind_eq_ok.1 hspread
    obtain ⟨_, t4, -, hspread⟩ := bind_eq_ok.1 hspread
    obtain ⟨hstores, -⟩ := pure_eq_ok.1 hspread
    rw [List.flatMap_cons, hstores, ih (List.forall_mem_cons.1 hdepth).2 hgive hmore]
    rfl
  | @group n items inner rest leaves hn _ _ ihitems ih =>
    obtain ⟨hfirst, hrest⟩ := List.forall_mem_cons.1 hdepth
    rw [List.mapM_cons] at hrun
    obtain ⟨a, s1, ha, hrun⟩ := bind_eq_ok.1 hrun
    obtain ⟨more, s2, hmore, hrun⟩ := bind_eq_ok.1 hrun
    obtain ⟨rfl, rfl⟩ := pure_eq_ok.1 hrun
    obtain ⟨t1, t2, hspread⟩ := hgive _ _ _ _ ha
    have hmore := ih hrest hgive hmore
    obtain ⟨fuel, rfl⟩ : ∃ d, fuel = d + 1 := ⟨fuel - 1, by have := n.one_lt_depth; omega⟩
    rw [spread, hn] at hspread
    obtain ⟨parts, t3, hparts, hspread⟩ := bind_eq_ok.1 hspread
    obtain ⟨_, t4, -, hspread⟩ := bind_eq_ok.1 hspread
    obtain ⟨hstores, -⟩ := pure_eq_ok.1 hspread
    have hinner : parts.flatMap Prod.fst = inner.map (·, v) := by
      refine ihitems (depth_le_of_itemsIn? hn hfirst) (fun m s a s' ha => ?_) hparts
      obtain ⟨_, s1, -, ha⟩ := bind_eq_ok.1 ha
      obtain ⟨done, s2, hdone, ha⟩ := bind_eq_ok.1 ha
      obtain ⟨_, s3, -, ha⟩ := bind_eq_ok.1 ha
      obtain ⟨_, s4, -, ha⟩ := bind_eq_ok.1 ha
      obtain ⟨rfl, -⟩ := pure_eq_ok.1 ha
      exact ⟨s1, s2, hdone⟩
    rw [List.flatMap_cons, hmore, hstores, hinner, List.map_append]

end Displays

section Statements

variable {value first : Node} {items rest inner outer : List Node} {fuel : Nat}

/-- An assignment that takes the value apart. Gives the value and what was stored. -/
def assignSplit (fuel : Nat) (items : List Node) (value : Node) : Emit (Term × List (Node × Operand)) := do
  enterAssign
  requireItems value
  let t ← (recur (fuel + 1)).term value
  let stores ← splitItems (split fuel (Node.listDepth items)) items t
  resetLast
  leaveAssign
  return (t, stores)

/-- An assignment of the value as a whole. Gives the value and what was stored. -/
def assignWhole (fuel : Nat) (list : Node) (targets : List Node) (value : Node) :
    Emit (Term × List (Node × Operand)) := do
  enterAssign
  requireItems value
  let t ← (recur (fuel + 1)).term value
  setAssigned t
  takeAssigned t
  resetLast
  announce list
  let stores ← targets.mapM (spread fuel t.value)
  resetLast
  leaveAssign
  return (t, stores.flatten)

variable {list : Node}

theorem assignStmt_eq (hlist : list.form = .suite (first :: rest)) (r : Recur) : assignStmt r n list value = (do
      enterAssign
      let places ← assignPlaces first
      requireItems value
      let t ← r.term value
      match places with
      | none =>
        setAssigned t
        takeAssigned t
        resetLast
        r.visit list
      | some places => unpack r places t n
      resetLast
      leaveAssign) := by
  have hitems : list.items? = some (first :: rest) := by rw [Node.items?, hlist]
  rw [assignStmt, each_eq hitems]
  rfl

theorem assignPlaces_of_items (h : itemsIn? first = some items) :
    assignPlaces first = pure (if items.length = 1 then none else some items) := by
  unfold itemsIn? at h
  unfold assignPlaces
  split at h
  · next elts u hform => simp only [hform, each_eq h, pure_bind]
  · next elts u hform => simp only [hform, each_eq h, pure_bind]
  · cases h

theorem assignPlaces_of_place (h : isPlace first = true) : assignPlaces first = pure none := by
  unfold isPlace at h
  unfold assignPlaces
  split at h <;> simp_all

theorem Leaves.append (h : Leaves k targets inner) (hrest : Leaves k rest outer) :
    Leaves k (targets ++ rest) (inner ++ outer) := by
  induction h with
  | nil => exact hrest
  | place hn hstore hbases _ ih => exact .place hn hstore hbases ih
  | group hn hitems _ _ ih =>
    rw [List.append_assoc]
    exact .group hn hitems ih

theorem Leaves.of_items (h : Leaves k [first] inner) (hitems : itemsIn? first = some items) : Leaves k items inner := by
  cases h with
  | place hn => rw [itemsIn?_of_isPlace hn] at hitems; cases hitems
  | group hn hinner hrest =>
    cases hrest
    cases hn.symm.trans hitems
    rwa [List.append_nil]

theorem assignPlaces_of_whole (h : Leaves k [first] inner)
    (hwhole : ∀ items, itemsIn? first = some items → items.length = 1) : assignPlaces first = pure none := by
  cases h with
  | place hn => exact assignPlaces_of_place hn
  | group hn _ _ => rw [assignPlaces_of_items hn, if_pos (hwhole _ hn)]

theorem visit_suite (hlist : list.form = .suite targets) :
    (recur (fuel + 1)).visit list = (do announce list; targets.forM (construct (recur fuel))) := by
  change announced (lowerWithin (fuel + 1)) list = _
  rw [announced, announce, bind_assoc, hlist]
  rfl

instance (t : Term) : Retains t.value (takeAssigned t) := by
  have hset : ∀ type, Retains t.value (setAssigned ⟨type, t.value⟩) := fun type =>
    heeds_lasting fun hs h => by cases h; exact ⟨hs.lowerer, rfl⟩
  unfold takeAssigned
  infer_instance

theorem construct_split (hn : n.form = .assign list value) (hlist : list.form = .suite (first :: rest))
    (hs : s.Marked k) (hfirst : Leaves k [first] inner) (hitems : itemsIn? first = some items)
    (hlength : items.length ≠ 1) : construct (recur (fuel + 1)) n s = discard (assignSplit fuel items value) s := by
  have hinner := hfirst.of_items hitems
  rw [construct, hn]
  dsimp only
  rw [assignStmt_eq hlist, assignPlaces_of_items hitems, if_neg hlength, discard_eq, assignSplit]
  simp only [bind_assoc, pure_bind]
  refine bind_run_congr fun _ s1 h1 => bind_run_congr fun _ s2 h2 => bind_run_congr fun t s3 h3 => ?_
  have hs3 : s3.Marked k := Preserves.of_ok (Preserves.of_ok (Preserves.of_ok hs h1) h2) h3
  have hunpack : unpack (recur (fuel + 1)) items t n s3 =
      discard (splitItems (split fuel (Node.listDepth items)) items t) s3 :=
    unpackTo_run hinner.plain (assignTo_run hinner fun m hm => Node.depth_le_listDepth hm) hs3
  refine bind_discard_run hunpack fun stores s4 _ => ?_
  refine bind_run_congr fun _ s5 _ => ?_
  exact congrFun (bind_pure _).symm s5

theorem depth_le_of_assign (hn : n.form = .assign list value) (hlist : list.form = .suite targets)
    (hdepth : n.depth ≤ fuel + 2) : ∀ m ∈ targets, m.depth ≤ fuel + 1 := by
  intro m hm
  have hm := Node.depth_le_listDepth hm
  rw [n.depth_eq, hn, Node.formDepth, list.depth_eq, hlist, Node.formDepth] at hdepth
  omega

theorem construct_whole (hn : n.form = .assign list value) (hlist : list.form = .suite (first :: rest))
    (hdepth : n.depth ≤ fuel + 2) (hs : s.Marked k) (hfirst : Leaves k [first] inner) (hrest : Leaves k rest outer)
    (hwhole : ∀ items, itemsIn? first = some items → items.length = 1) :
    construct (recur (fuel + 1)) n s = discard (assignWhole fuel list (first :: rest) value) s := by
  have hleaves : Leaves k (first :: rest) (inner ++ outer) := hfirst.append hrest
  have htargets := depth_le_of_assign hn hlist hdepth
  rw [construct, hn]
  dsimp only
  rw [assignStmt_eq hlist, assignPlaces_of_whole hfirst hwhole, discard_eq, assignWhole]
  simp only [bind_assoc, pure_bind, visit_suite hlist, forM_eq, discard_eq]
  refine bind_run_congr fun _ s1 h1 => bind_run_congr fun _ s2 h2 => bind_run_congr fun t s3 h3 => ?_
  refine bind_run_congr fun _ s4 h4 => bind_run_congr fun _ s5 h5 => bind_run_congr fun _ s6 h6 => ?_
  refine bind_run_congr fun _ s7 h7 => ?_
  have hs3 : s3.Marked k := Preserves.of_ok (Preserves.of_ok (Preserves.of_ok hs h1) h2) h3
  have hs4 : s4.Marked k ∧ s4.Assigning t.value := by
    refine ⟨Preserves.of_ok hs3 h4, ?_⟩
    cases h4
    exact ⟨hs3.lowerer, rfl⟩
  have hs7 : s7.Marked k ∧ s7.Assigning t.value :=
    ⟨Preserves.of_ok (Preserves.of_ok (Preserves.of_ok hs4.1 h5) h6) h7,
      Preserves.of_ok (Preserves.of_ok (Preserves.of_ok hs4.2 h5) h6) h7⟩
  have hstores : (first :: rest).mapM (construct (recur fuel)) s7 =
      (do return (← (first :: rest).mapM (spread fuel t.value)).map fun _ => () : Emit (List Unit)) s7 := by
    refine mapM_run (I := fun s => s.Marked k ∧ s.Assigning t.value) (fun m hm s hs => ?_) (fun m hm => ?_) hs7
    · rw [spread_run hleaves htargets m hm s hs, discard_eq]
    · have := preserves_spread (v := t.value) hleaves htargets m hm
      exact heeds_lasting fun hs h => ⟨Preserves.of_ok hs.1 h, Preserves.of_ok hs.2 h⟩
  refine bind_map_run hstores fun stores s8 _ => bind_run_congr fun _ s9 _ => ?_
  exact congrFun (bind_pure _).symm s9

/-- What a value that is taken apart is stored as: one new value after the other. -/
theorem stored_of_assignSplit {f m : Nat} {stores : List (Node × Operand)} (hs : s.Marked k) (hcounts : s.Counts f m)
    (hinner : Leaves k items inner) (hrun : assignSplit fuel items value s = .ok (t, stores) s') :
    ∃ m' s1, m ≤ m' ∧ Stored f m' inner stores s1 ∧
      (isComputed value = true → untouched k value → Ranges m m' t.value) := by
  obtain ⟨_, s1, h1, hrun⟩ := bind_eq_ok.1 hrun
  obtain ⟨_, s2, h2, hrun⟩ := bind_eq_ok.1 hrun
  obtain ⟨t', s3, h3, hrun⟩ := bind_eq_ok.1 hrun
  obtain ⟨stores', s4, h4, hrun⟩ := bind_eq_ok.1 hrun
  obtain ⟨_, s5, -, hrun⟩ := bind_eq_ok.1 hrun
  obtain ⟨_, s6, -, hrun⟩ := bind_eq_ok.1 hrun
  cases hrun
  have hs2 : s2.Marked k := Preserves.of_ok (Preserves.of_ok hs h1) h2
  have hcounts2 : s2.Counts f m := Preserves.of_ok (Preserves.of_ok hcounts h1) h2
  have hstored : ∀ m', s3.Counts f m' → Stored f m' inner stores s4 := fun m' hs3 =>
    stored_splitItems (fun source s s' stores hs h =>
      stored_of_deliver hinner (fun m hm => Node.depth_le_listDepth hm) hs h) hs3 h4
  by_cases hvalue : isComputed value = true ∧ untouched k value
  · obtain ⟨m', hm, hs3, hrange⟩ := ranges_of_term hvalue.1 (hs2.replaced ▸ hvalue.2) hcounts2 h3
    exact ⟨m', s4, hm, hstored m' hs3, fun _ _ => hrange⟩
  · exact ⟨m, s4, Nat.le_refl m, hstored m (Preserves.of_ok hcounts2 h3), fun hc hk => absurd ⟨hc, hk⟩ hvalue⟩

theorem stores_of_assignWhole {stores : List (Node × Operand)} (hleaves : Leaves k targets inner)
    (hdepth : ∀ n ∈ targets, n.depth ≤ fuel + 1)
    (hrun : assignWhole fuel list targets value s = .ok (t, stores) s') : stores = inner.map (·, t.value) := by
  obtain ⟨_, s1, -, hrun⟩ := bind_eq_ok.1 hrun
  obtain ⟨_, s2, -, hrun⟩ := bind_eq_ok.1 hrun
  obtain ⟨t', s3, -, hrun⟩ := bind_eq_ok.1 hrun
  obtain ⟨_, s4, -, hrun⟩ := bind_eq_ok.1 hrun
  obtain ⟨_, s5, -, hrun⟩ := bind_eq_ok.1 hrun
  obtain ⟨_, s6, -, hrun⟩ := bind_eq_ok.1 hrun
  obtain ⟨_, s7, -, hrun⟩ := bind_eq_ok.1 hrun
  obtain ⟨parts, s8, hparts, hrun⟩ := bind_eq_ok.1 hrun
  obtain ⟨_, s9, -, hrun⟩ := bind_eq_ok.1 hrun
  obtain ⟨_, s10, -, hrun⟩ := bind_eq_ok.1 hrun
  cases hrun
  rw [← List.flatMap_id]
  exact stores_of_spread hleaves hdepth (fun n s a s' h => ⟨s, s', h⟩) hparts

/-- An assignment stores to the places in its targets, to each once and in order. If the first target is a tuple or list
of other than one item, it is the only one that is stored to: each place in it gets the item at its position, a new
value that no other place gets and that is not the value itself. Otherwise all targets are stored to, and each place
gets the value itself, also in a tuple or list. -/
theorem assignment_stores {list : Node} (hn : n.form = .assign list value)
    (hlist : list.form = .suite (first :: rest)) (hdepth : n.depth ≤ fuel + 2) (hs : s.Marked k)
    (hfirst : Leaves k [first] inner) (hrest : Leaves k rest outer) :
    (∀ items, itemsIn? first = some items → items.length ≠ 1 →
      construct (recur (fuel + 1)) n s = discard (assignSplit fuel items value) s ∧
      ∀ f m t stores s', s.Counts f m → assignSplit fuel items value s = .ok (t, stores) s' →
        stores.map Prod.fst = inner ∧ (stores.map Prod.snd).Nodup ∧
        (∀ v ∈ stores.map Prod.snd, ∃ i : Nat, v = .id i ∧ m ≤ i) ∧
        (isComputed value = true → untouched k value → t.value ∉ stores.map Prod.snd)) ∧
    ((∀ items, itemsIn? first = some items → items.length = 1) →
      construct (recur (fuel + 1)) n s = discard (assignWhole fuel list (first :: rest) value) s ∧
      ∀ t stores s', assignWhole fuel list (first :: rest) value s = .ok (t, stores) s' →
        stores = (inner ++ outer).map (·, t.value)) := by
  refine ⟨fun items hitems hlength => ⟨construct_split hn hlist hs hfirst hitems hlength, ?_⟩, fun hwhole =>
    ⟨construct_whole hn hlist hdepth hs hfirst hrest hwhole, fun t stores s' hrun =>
      stores_of_assignWhole (hfirst.append hrest) (depth_le_of_assign hn hlist hdepth) hrun⟩⟩
  intro f m t stores s' hcounts hrun
  obtain ⟨m', s₁, hm, ⟨hleaves, m'', -, -, hascending⟩, hvalue⟩ :=
    stored_of_assignSplit hs hcounts (hfirst.of_items hitems) hrun
  refine ⟨hleaves, hascending.nodup, fun v hv => ?_, fun hcomputed hk => ?_⟩
  · obtain ⟨i, rfl, hi, -⟩ := hascending.ranges v hv
    exact ⟨i, rfl, Nat.le_trans hm hi⟩
  · have hrange := List.forall_mem_singleton.2 (hvalue hcomputed hk)
    exact not_mem_of_ranges hrange hascending.ranges (Nat.le_refl m') t.value (List.mem_singleton.2 rfl)

/-- Names that are stored to, items of `x` that are, and tuples of such targets. -/
def nameTarget (x : String) : Node := .mk {} (.name x (some .store))
def itemTarget (i : Int) : Node :=
  .mk {} (.subscript (.mk {} (.name "x" (some .load))) (.mk {} (.constant (.int i))) (some .store))
def tupleTarget (items : List Node) : Node := .mk {} (.tuple (.group items) (some .store))

/-- The parameter is assigned to targets. -/
def assignNode (targets : List Node) : Node := .mk {} (.assign (.group targets) (.mk {} (.name "x" (some .load))))

theorem leaves_nameTarget (x : String) (h : Leaves none targets inner) :
    Leaves none (nameTarget x :: targets) (nameTarget x :: inner) :=
  .place rfl rfl (by simp [bases, nameTarget, Node.form]) h

theorem leaves_itemTarget (i : Int) (h : Leaves none targets inner) :
    Leaves none (itemTarget i :: targets) (itemTarget i :: inner) := by
  refine .place rfl rfl (fun b hb => ?_) h
  rcases List.mem_pair.1 hb with rfl | rfl
  · exact .place rfl (by simp [bases, Node.form])
  · exact .constant rfl

theorem leaves_tupleTarget (hitems : Leaves none items inner) (h : Leaves none targets outer) :
    Leaves none (tupleTarget items :: targets) (inner ++ outer) :=
  .group rfl hitems h

/-- In `a, b = d = x` two new values are stored, and nothing to `d`; in `d = x[0], x[1] = x` the value of `x` is stored
three times. -/
theorem assignNode_stores :
    (∃ t stores s', construct (recur 7) (assignNode [tupleTarget [nameTarget "a", nameTarget "b"], nameTarget "d"])
        begunState = .ok () s' ∧
      assignSplit 6 [nameTarget "a", nameTarget "b"] (.mk {} (.name "x" (some .load))) begunState =
        .ok (t, stores) s' ∧
      stores.map Prod.fst = [nameTarget "a", nameTarget "b"] ∧ (stores.map Prod.snd).Nodup ∧
      t.value ∉ stores.map Prod.snd) ∧
    ∃ t s', construct (recur 7) (assignNode [nameTarget "d", tupleTarget [itemTarget 0, itemTarget 1]]) begunState =
        .ok () s' ∧
      assignWhole 6 (.group [nameTarget "d", tupleTarget [itemTarget 0, itemTarget 1]])
        [nameTarget "d", tupleTarget [itemTarget 0, itemTarget 1]] (.mk {} (.name "x" (some .load))) begunState =
          .ok (t, [(nameTarget "d", t.value), (itemTarget 0, t.value), (itemTarget 1, t.value)]) s' := by
  obtain ⟨f, hcounts⟩ := counts_begunState
  have hs : begunState.Marked none := ⟨hcounts.lowerer, by decide +kernel⟩
  constructor
  · have hfirst := leaves_tupleTarget (leaves_nameTarget "a" (leaves_nameTarget "b" .nil)) .nil
    have hdepth : (assignNode [tupleTarget [nameTarget "a", nameTarget "b"], nameTarget "d"]).depth ≤ 6 + 2 := by decide
    obtain ⟨⟨t, stores⟩, s', hrun⟩ := exists_of_completes (show completes (assignSplit 6
      [nameTarget "a", nameTarget "b"] (.mk {} (.name "x" (some .load))) begunState) = true by decide +kernel)
    obtain ⟨hsame, hstores⟩ := (assignment_stores rfl rfl hdepth hs hfirst (leaves_nameTarget "d" .nil)).1 _ rfl
      (by decide)
    obtain ⟨hleaves, hnodup, -, hvalue⟩ := hstores f 0 t stores s' hcounts hrun
    refine ⟨t, stores, s', ?_, hrun, hleaves, hnodup, hvalue rfl (by simp [untouched])⟩
    rw [hsame, discard_eq, bind_run_of_ok hrun]
    rfl
  · have hrest := leaves_tupleTarget (leaves_itemTarget 0 (leaves_itemTarget 1 .nil)) .nil
    have hdepth : (assignNode [nameTarget "d", tupleTarget [itemTarget 0, itemTarget 1]]).depth ≤ 6 + 2 := by decide
    obtain ⟨⟨t, stores⟩, s', hrun⟩ := exists_of_completes (show completes (assignWhole 6
      (.group [nameTarget "d", tupleTarget [itemTarget 0, itemTarget 1]])
      [nameTarget "d", tupleTarget [itemTarget 0, itemTarget 1]] (.mk {} (.name "x" (some .load))) begunState) = true
        by decide +kernel)
    obtain ⟨hsame, hstores⟩ := (assignment_stores rfl rfl hdepth hs (leaves_nameTarget "d" .nil) hrest).2
      fun items hitems => by cases hitems
    obtain rfl := hstores t stores s' hrun
    refine ⟨t, s', ?_, hrun⟩
    rw [hsame, discard_eq, bind_run_of_ok hrun]
    rfl

end Statements

end Lower
end Lowering
