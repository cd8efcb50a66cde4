import Lowering.Proofs.Targets

/-!
What is being assigned. Emitting code does not change it, and neither does an expression in which nothing is assigned.
-/
namespace Lowering

open Emit

set_option synthInstance.maxSize 100000000

variable {α : Type} {v : Operand}

/-- A tree is being lowered, and this is the value to be stored next. -/
structure State.Assigning (v : Operand) (s : State) : Prop where
  lowerer : s.lowerer = .tree
  value : s.tree.assigned.value = v

/-- The action leaves alone what is being assigned. -/
abbrev Retains (v : Operand) (x : Emit α) : Prop := Preserves (State.Assigning v) x

instance (priority := low) (x : Emit α) [∀ f, Heeds (framed f) x] : Retains v x :=
  heeds_lasting fun hs h => by
    obtain ⟨hlowerer, htree⟩ := tree_of_ok hs.lowerer h
    exact ⟨hlowerer, htree ▸ hs.value⟩

namespace Lower

theorem preserves_modifyTree_assigned {u : TreeFrame → TreeFrame} (hu : ∀ f, (u f).assigned = f.assigned) :
    Retains v (modifyTree u) :=
  heeds_lasting fun hs h => by
    cases h
    exact ⟨hs.lowerer, (congrArg Term.value (hu _)).trans hs.value⟩

instance (t : Term) : Retains v (setLast t) := preserves_modifyTree_assigned fun _ => rfl
instance (t : Option ValueType) : Retains v (setLastType t) :=
  preserves_modifyTree_assigned fun _ => rfl
instance (a : Operand) : Retains v (setLastValue a) := preserves_modifyTree_assigned fun _ => rfl
instance (n : Node) : Retains v (announce n) :=
  .bind inferInstance fun _ => preserves_modifyTree_assigned fun _ => rfl

instance (p : Reference) : Retains v p.read := by
  cases p <;> unfold Reference.read <;> infer_instance
instance (p : Reference) (a : Operand) : Retains v (p.write a) := by
  cases p <;> unfold Reference.write <;> infer_instance
instance (p : Reference) : Retains v p.pass := by
  cases p <;> unfold Reference.pass <;> infer_instance
instance (p : Reference) (u : Option Usage) : Retains v (p.use u) := by
  unfold Reference.use
  split <;> infer_instance

/-- The items of a tuple or list. -/
def itemsIn? (n : Node) : Option (List Node) :=
  match n.form with
  | .tuple elts _ | .list elts _ => elts.items?
  | _ => none

/-- Expressions in which nothing is assigned. -/
inductive Steady : Node → Prop
  | place {n : Node} (hn : isPlace n = true) (hbases : ∀ b ∈ bases n, Steady b) : Steady n
  | constant {n : Node} {c : Constant} (hn : n.form = .constant c) : Steady n
  | display {n : Node} {items : List Node} (hn : itemsIn? n = some items) (hitems : ∀ m ∈ items, Steady m) : Steady n
  | slice {n a b c : Node} (hn : n.form = .slice a b c) (hparts : ∀ m ∈ [a, b, c], m.isAbsent = false → Steady m) :
      Steady n
  | unaryOp {n a : Node} {op : Option Operator} (hn : n.form = .unaryOp op a) (ha : Steady a) : Steady n
  | binOp {n a b : Node} {op : Option Operator} (hn : n.form = .binOp a op b) (ha : Steady a) (hb : Steady b) : Steady n
  | boolOp {n values : Node} {items : List Node} {op : Option Operator} (hn : n.form = .boolOp op values)
      (hvalues : values.items? = some items) (hitems : ∀ m ∈ items, Steady m) : Steady n
  | compare {n a others : Node} {items : List Node} {ops : Option (List (Option Operator))}
      (hn : n.form = .compare a ops others) (hothers : others.items? = some items)
      (hitems : ∀ m ∈ a :: items, Steady m) : Steady n
  | call {n func args keywords : Node} {values named : List Node} (hn : n.form = .call func args keywords)
      (hfunc : ∀ b attr u, func.form = .memberOf b attr u → Steady b) (hargs : args.items? = some values)
      (hvalues : ∀ m ∈ values, Steady m) (hkeywords : keywords.items? = some named)
      (hnamed : ∀ m ∈ named, ∀ l b, m.form = .keyword l b → Steady b) : Steady n

section Constructs

variable {r : Recur} {n a b c : Node} {items : List Node}

instance [Retains v (r.visit a)] : Retains v (r.term a) := by
  unfold Recur.term; infer_instance

theorem each_eq {items : List Node} (h : n.items? = some items) : each n = pure items := by rw [each, h]

theorem preserves_evaluate (h : ∀ b ∈ bases n, Retains v (r.visit b)) :
    Retains v (evaluate r n) := by
  unfold bases at h
  unfold evaluate
  split
  · infer_instance
  · next value attr u hform =>
    simp only [hform, List.forall_mem_singleton] at h
    infer_instance
  · next value slice u hform =>
    simp only [hform, List.forall_mem_cons] at h
    obtain ⟨hvalue, hslice, -⟩ := h
    infer_instance
  · infer_instance

theorem preserves_place (hn : isPlace n = true) (h : ∀ b ∈ bases n, Retains v (r.visit b)) :
    Retains v (construct r n) :=
  heeds_lasting fun {s s' u} hs hrun => by
    have := preserves_evaluate h
    rw [construct_of_isPlace hn hs.lowerer] at hrun
    exact Preserves.of_ok hs hrun

theorem preserves_elements (ha : a.items? = some items)
    (h : ∀ m ∈ items, Retains v (r.visit m)) : Retains v (elements r a) := by
  rw [elements, each_eq ha, pure_bind]
  refine preserves_mapM fun m hm => ?_
  have := h m hm
  infer_instance

theorem preserves_display (hn : itemsIn? n = some items)
    (h : ∀ m ∈ items, Retains v (r.visit m)) : Retains v (construct r n) := by
  unfold itemsIn? at hn
  split at hn
  · next elts u hform =>
    have := preserves_elements hn h
    rw [construct, hform]
    change Preserves _ (tuple r elts)
    unfold tuple
    infer_instance
  · next elts u hform =>
    have := preserves_elements hn h
    rw [construct, hform]
    change Preserves _ (list r elts)
    unfold list
    infer_instance
  · cases hn

theorem preserves_slicePart (h : a.isAbsent = false → Retains v (r.visit a)) :
    Retains v (slicePart r a) := by
  unfold slicePart
  split
  · infer_instance
  · next ha =>
    have := h (eq_false_of_ne_true ha)
    infer_instance

theorem preserves_keywordArg (hname : ∀ c, Retains v (r.visit (.mk {} (.constant c))))
    (h : ∀ l b, n.form = .keyword l b → Retains v (r.visit b)) :
    Retains v (keywordArg r n) := by
  have hkey : ∀ l, Retains v (keywordName r l) := fun l => by
    unfold keywordName
    split <;> infer_instance
  refine .bind inferInstance fun _ => .bind inferInstance fun l => .bind (hkey l) fun key => ?_
  split
  · next l' b hform =>
    have := h l' b hform
    infer_instance
  · infer_instance

theorem preserves_call {values named : List Node} (hargs : b.items? = some values) (hkeywords : c.items? = some named)
    (hfunc : ∀ b attr u, a.form = .memberOf b attr u → Retains v (r.visit b))
    (hvalues : ∀ m ∈ values, Retains v (r.visit m))
    (hname : ∀ c, Retains v (r.visit (.mk {} (.constant c))))
    (hnamed : ∀ m ∈ named, ∀ l b, m.form = .keyword l b → Retains v (r.visit b)) :
    Retains v (callExpr r a b c) := by
  have hcallee : Retains v (callee r a) := by
    unfold callee
    split
    · next value attr u hform =>
      have := hfunc value attr u hform
      infer_instance
    · infer_instance
    · infer_instance
  have hpairs : Retains v (named.mapM (keywordArg r)) :=
    preserves_mapM fun m hm => preserves_keywordArg hname (hnamed m hm)
  have hlist : Retains v (values.mapM fun a => do
      resetLast
      let t ← r.term a
      setLastType none
      return t.value) := by
    refine preserves_mapM fun m hm => ?_
    have := hvalues m hm
    infer_instance
  unfold callExpr
  simp only [each_eq hargs, each_eq hkeywords, pure_bind]
  infer_instance

end Constructs

/-- What a construct leaves alone is left alone when it is lowered, to any depth. -/
theorem preserves_visit {n : Node} {I : State → Prop} [Preserves I (announce n)] (hn : ∀ items, n.form ≠ .suite items)
    (h : ∀ fuel, Preserves I (construct (recur fuel) n)) (fuel : Nat) : Preserves I ((recur fuel).visit n) := by
  have hlower : Preserves I (lowerWithin fuel n) := by
    cases fuel with
    | zero => exact inferInstanceAs (Preserves I (pure ()))
    | succ fuel => exact h fuel
  rw [visit_of_ne_suite hn]
  infer_instance

/-- An operator is lowered like an expression, but stands for nothing. -/
theorem preserves_operator (op : Option Operator) (fuel : Nat) : Retains v
    ((recur fuel).visit (match op with | some op => .leaf op.className | none => .absent)) := by
  cases op with
  | none => exact preserves_visit (fun _ h => by cases h) (fun _ => inferInstanceAs (Preserves _ (throw _))) fuel
  | some op => exact preserves_visit (fun _ h => by cases h) (fun _ => inferInstanceAs (Preserves _ (pure _))) fuel

theorem Steady.preserves {n : Node} (h : Steady n) (fuel : Nat) :
    Retains v ((recur fuel).visit n) := by
  have hconstant : ∀ (n : Node) (c : Constant), n.form = .constant c → ∀ fuel,
      Retains v ((recur fuel).visit n) := by
    intro n c hn
    refine preserves_visit (by simp [hn]) fun fuel => ?_
    rw [construct, hn]
    change Preserves _ (Lower.constant c)
    cases c <;> unfold Lower.constant <;> infer_instance
  induction h generalizing fuel with
  | place hn _ ih =>
    refine preserves_visit (fun items hitems => ?_) (fun fuel => preserves_place hn fun b hb => ih b hb fuel) fuel
    simp [isPlace, hitems] at hn
  | constant hn => exact hconstant _ _ hn fuel
  | display hn _ ih =>
    refine preserves_visit (fun items hitems => ?_) (fun fuel => preserves_display hn fun m hm => ih m hm fuel) fuel
    simp [itemsIn?, hitems] at hn
  | slice hn _ ih =>
    refine preserves_visit (by simp [hn]) (fun fuel => ?_) fuel
    obtain ⟨ha, hb, hc, -⟩ : _ ∧ _ ∧ _ ∧ _ := by simpa only [List.forall_mem_cons] using ih
    have := preserves_slicePart (v := v) (ha · fuel)
    have := preserves_slicePart (v := v) (hb · fuel)
    have := preserves_slicePart (v := v) (hc · fuel)
    rw [construct, hn]
    change Preserves _ (Lower.slice _ _ _ _)
    unfold Lower.slice
    infer_instance
  | unaryOp hn _ ih =>
    refine preserves_visit (by simp [hn]) (fun fuel => ?_) fuel
    have := ih fuel
    rw [construct, hn]
    refine .bind inferInstance fun o => .bind inferInstance fun ptr => ?_
    dsimp only
    split <;> infer_instance
  | binOp hn _ _ iha ihb =>
    refine preserves_visit (by simp [hn]) (fun fuel => ?_) fuel
    have := iha fuel
    have := ihb fuel
    have hop := fun op => preserves_operator (v := v) op fuel
    rw [construct, hn]
    change Preserves _ (Lower.binOp _ _ _ _)
    unfold Lower.binOp
    infer_instance
  | boolOp hn hvalues _ ih =>
    refine preserves_visit (by simp [hn]) (fun fuel => ?_) fuel
    have hterms : Retains v (_) := preserves_mapM fun m hm =>
      have := ih m hm fuel
      (inferInstance : Retains v ((recur fuel).term m))
    rw [construct, hn]
    change Preserves _ (Lower.boolOp _ _ _)
    rw [Lower.boolOp, each_eq hvalues, pure_bind]
    refine .bind hterms fun terms => ?_
    split <;> infer_instance
  | compare hn hothers _ ih =>
    refine preserves_visit (by simp [hn]) (fun fuel => ?_) fuel
    have hterms : Retains v (_) := preserves_mapM fun m hm =>
      have := ih m hm fuel
      (inferInstance : Retains v ((recur fuel).term m))
    rw [construct, hn]
    change Preserves _ (Lower.compare _ _ _ _)
    rw [Lower.compare, compareTerm, each_eq hothers, pure_bind]
    infer_instance
  | call hn _ hargs _ hkeywords _ ihfunc ihvalues ihnamed =>
    refine preserves_visit (by simp [hn]) (fun fuel => ?_) fuel
    rw [construct, hn]
    exact preserves_call hargs hkeywords (fun b attr u hb => ihfunc b attr u hb fuel) (fun m hm => ihvalues m hm fuel)
      (fun c => hconstant _ c rfl fuel) (fun m hm l b hb => ihnamed m hm l b hb fuel)

end Lower
end Lowering
