import Lowering.Proofs.Follows.Expression

/-!
The lowering of a statement follows itself, and so does the lowering of a whole tree.
-/
namespace Lowering.Lower

open Emit

set_option synthInstance.maxSize 10000000000000000000

variable {θ : Likeness} {β β' : Type} {t t' : Term} {r r' : BlockRef}
variable [ht : TermLike θ t t'] [RefLike θ r r']

variable {node target test value body : Node} {fuel : Nat}

instance (message : String) : Alike θ (reportAt message node) (reportAt message node) Eq := ⟨by
  unfold reportAt
  cases node.span <;> infer_instance⟩

instance (targets : List Node) (i : Nat) : Alike θ (targetAt targets i) (targetAt targets i) Eq := ⟨by
  unfold targetAt
  cases targets[i]? <;> infer_instance⟩

instance (n : Node) : Alike θ (starredTarget n) (starredTarget n) Eq := ⟨by
  unfold starredTarget
  cases n.form <;> infer_instance⟩

section Unpack

variable {assign : Node → Term → Emit Unit} (hgrows : ∀ n t, Grows (assign n t))

include hgrows

theorem grows_unpackIterable (targets : List Node) (t : Term) (before : Nat) (after : Int) :
    Grows (unpackIterable assign targets t before after) := by
  unfold unpackIterable
  dsimp only
  infer_instance

theorem grows_unpackSized (targets : List Node) (t : Term) (before : Nat) (after : Int) :
    Grows (unpackSized assign targets t before after) := by
  have := grows_unpackIterable hgrows targets t before after
  unfold unpackSized
  dsimp only
  infer_instance

theorem grows_unpackTo (targets : List Node) (t : Term) : Grows (unpackTo assign targets t) := by
  have := grows_unpackIterable hgrows
  have := grows_unpackSized hgrows
  unfold unpackTo
  infer_instance

variable (hassign : ∀ n (t t' : Term) [TermLike θ t t'], Follows θ (assign n t) (assign n t') Eq)

include hassign

theorem follows_unpackIterable (targets : List Node) (t t' : Term) [ht : TermLike θ t t']
    (before : Nat) (after : Int) : Follows θ (unpackIterable assign targets t before after)
      (unpackIterable assign targets t' before after) Eq := by
  cases ht
  unfold unpackIterable
  dsimp only
  infer_instance

theorem follows_unpackSized (targets : List Node) (t t' : Term) [ht : TermLike θ t t']
    (before : Nat) (after : Int) : Follows θ (unpackSized assign targets t before after)
      (unpackSized assign targets t' before after) Eq := by
  have := follows_unpackIterable hgrows hassign targets t t' before after
  cases ht
  unfold unpackSized
  dsimp only
  infer_instance

theorem follows_unpackTo (targets : List Node) (t t' : Term) [ht : TermLike θ t t'] :
    Follows θ (unpackTo assign targets t) (unpackTo assign targets t') Eq := by
  have := grows_unpackSized hgrows
  have := follows_unpackIterable hgrows hassign
  have := follows_unpackSized hgrows hassign
  cases ht
  unfold unpackTo
  infer_instance

end Unpack

variable (rec : Recur) [hrec : rec.Lowers] [hθ : OfTree θ]

instance (target : Node) (t : Term) : Grows (assignTo rec node fuel target t) := by
  induction fuel generalizing target t with
  | zero => unfold assignTo; infer_instance
  | succ fuel ih =>
    have := grows_unpackTo ih
    unfold assignTo
    cases target.form <;> infer_instance

instance (target : Node) : Alike θ (assignTo rec node fuel target t) (assignTo rec node fuel target t') Eq := ⟨by
  induction fuel generalizing target t t' with
  | zero => exact .pure rfl
  | succ fuel ih =>
    have := follows_unpackTo inferInstance fun n t t' ht => @ih t t' ht n
    unfold assignTo
    cases target.form <;> infer_instance⟩

instance (targets : List Node) : Alike θ (unpack rec targets t node) (unpack rec targets t' node) Eq where
  follows := follows_unpackTo inferInstance (fun _ _ _ _ => inferInstance) targets t t'

instance (name : Label) (type : Option ValueType) :
    Alike θ (newVariable name type) (newVariable name type) (OperandLike θ) := ⟨by
  unfold newVariable
  refine .bind follows_currentImpl inferInstance fun i i' hi => ?_
  refine .bind (follows_implOf hi) inferInstance fun m m' hm => ?_
  refine .bind (follows_addVariable hm.scope name.plain type) inferInstance fun v v' hv => ?_
  infer_instance⟩

instance (type : Option ValueType) :
    Alike θ (bindTarget rec node target type t) (bindTarget rec node target type t') Eq := ⟨by
  unfold bindTarget
  cases ht
  cases target.form <;> infer_instance⟩

instance : Alike θ (guardBy rec r test) (guardBy rec r' test) Eq :=
  ⟨by unfold guardBy; infer_instance⟩

instance (generator : Node) :
    Alike θ (openLoop rec node generator r) (openLoop rec node generator r') (RefLike θ) := ⟨by
  unfold openLoop
  cases generator.form with
  | comprehension target iter ifs => infer_instance
  | _ => exact .throw⟩

section Comprehend

variable {action action' : Emit Unit} [haction : Follows θ action action' Eq]

instance [Grows action] (node : Node) (generators : List Node) (r : BlockRef) :
    Grows (openLoops rec node action generators r) := by
  fun_induction openLoops rec node action generators r <;> infer_instance

instance (node : Node) (generators : List Node) : Alike θ (openLoops rec node action generators r)
    (openLoops rec node action' generators r') Eq := ⟨by
  have := haction.grows
  induction generators generalizing r r' with
  | nil => exact .pure rfl
  | cons generator rest ih =>
    cases rest <;> unfold openLoops <;> infer_instance⟩

instance (node generators : Node) :
    Alike θ (comprehend rec node generators action) (comprehend rec node generators action') Eq := ⟨by
  have := haction.grows
  unfold comprehend
  infer_instance⟩

end Comprehend

instance (iter : Node) : Alike θ (generator rec target iter) (generator rec target iter) Eq := ⟨by
  unfold generator
  cases target.form <;> infer_instance⟩

instance : Alike θ (takeAssigned t) (takeAssigned t') Eq := ⟨by
  cases ht
  unfold takeAssigned
  infer_instance⟩

instance : Alike θ enterAssign enterAssign Eq := ⟨follows_modifyTree fun _ _ h => { h with }⟩
instance : Alike θ leaveAssign leaveAssign Eq := ⟨follows_modifyTree fun _ _ h => { h with }⟩

instance (first : Node) : Alike θ (assignPlaces first) (assignPlaces first) Eq := ⟨by
  unfold assignPlaces
  cases first.form <;> infer_instance⟩

instance : Alike θ (requireItems value) (requireItems value) Eq := ⟨by
  unfold requireItems
  cases value.form <;> infer_instance⟩

instance : Alike θ (breakStmt node) (breakStmt node) Eq := ⟨by
  refine .get_bind (fun s => ?_) fun d s t h => ?_
  · cases s.tree.exits <;> infer_instance
  have hexits := (h.tree hθ.tree).exits
  generalize s.tree.exits = xs, t.tree.exits = ys at hexits
  cases hexits with
  | nil => infer_instance
  | cons hr _ =>
    have : RefLike θ _ _ := ⟨hr⟩
    infer_instance⟩

instance (x y : Emit Unit) [hx : Follows θ x y Eq] : Alike θ (withExit r x) (withExit r' y) Eq := ⟨by
  have := hx.grows
  have henter : Follows θ (modifyTree fun f => { f with exits := r :: f.exits })
      (modifyTree fun f => { f with exits := r' :: f.exits }) Eq :=
    follows_modifyTree fun _ _ h => { h with exits := .cons RefLike.like h.exits }
  have hleave : Follows θ (modifyTree fun f => { f with exits := f.exits.tail })
      (modifyTree fun f => { f with exits := f.exits.tail }) Eq :=
    follows_modifyTree fun _ _ h => { h with exits := rel_tail h.exits }
  unfold withExit
  infer_instance⟩

instance : Alike θ (loopVariable target) (loopVariable target) (VarLike θ) := ⟨by
  unfold loopVariable
  cases target.form with
  | name id usage => infer_instance
  | _ => exact .throw⟩

instance (iter orelse : Node) :
    Alike θ (forStmt rec target iter body orelse) (forStmt rec target iter body orelse) Eq := ⟨by
  unfold forStmt
  cases orelse.isAbsent with
  | true =>
    simp only [if_true, pure_bind, Option.getD_none]
    infer_instance
  | false =>
    simp only [Bool.false_eq_true, if_false, bind_map_left, Option.getD_some]
    infer_instance⟩

instance (orelse : Node) : Alike θ (whileStmt rec test body orelse) (whileStmt rec test body orelse) Eq := ⟨by
  unfold whileStmt
  cases orelse.isAbsent with
  | true =>
    simp only [if_true, pure_bind, Option.getD_none]
    infer_instance
  | false =>
    simp only [Bool.false_eq_true, if_false, bind_map_left, Option.getD_some]
    infer_instance⟩

instance (binding : Node) (v v' : Operand) [OperandLike θ v v'] :
    Alike θ (bindName binding v) (bindName binding v') (Option.Rel (VarLike θ)) := ⟨by
  unfold bindName
  split
  · exact .pure .none
  · cases binding.form with
    | name id usage => infer_instance
    | _ => exact .throw⟩

instance (binding : Node) :
    Alike θ (enterManager node binding t) (enterManager node binding t') (Option.Rel (VarLike θ)) := ⟨by
  cases ht
  unfold enterManager
  refine .after Eq ?_
  rintro type _ rfl
  split
  · refine .after (Option.Rel (VarLike θ)) fun v v' hv => ?_
    have : Follows θ (pure v) (pure v') (Option.Rel (VarLike θ)) := .pure hv
    infer_instance
  · have : Follows θ (pure none) (pure none) (Option.Rel (VarLike θ)) := .pure .none
    infer_instance⟩

instance (item : Node) : Alike θ (withItem rec node item) (withItem rec node item) (Option.Rel (VarLike θ)) := ⟨by
  unfold withItem
  cases item.form with
  | withItem context binding => infer_instance
  | _ => exact .throw⟩

instance (items : Node) : Alike θ (withStmt rec node items body) (withStmt rec node items body) Eq := ⟨by
  have hgrows : ∀ (v : Option Nat) (u : PUnit), Grows (do
      match v with
      | some v => modifyVariable v fun v => { v with used := false }
      | none => pure ()
      pure (ForInStep.yield u)) := by
    intro v u
    cases v <;> infer_instance
  unfold withStmt
  refine .after Eq ?_
  rintro nodes _ rfl
  refine .bind (.mapM (S := Option.Rel (VarLike θ)) (List.forall₂_same.2 fun _ _ => rfl)
    inferInstance ?_) inferInstance fun vars vars' hvars => ?_
  · rintro n _ rfl
    infer_instance
  refine .after Eq fun _ _ _ => ?_
  refine .bind (Q := Eq) (.forEach hvars inferInstance ?_ _) inferInstance fun _ _ _ => .pure rfl
  rintro _ _ _ (hv | _) <;> infer_instance⟩

instance (n : Node) : Alike θ (construct rec n) (construct rec n) Eq := ⟨by
  unfold construct
  cases n.form <;> infer_instance⟩

/-- A way to lower nodes, after saying which they are. -/
instance (lower : Node → Emit Unit) [h : Recur.Lowers ⟨lower⟩] : Recur.Lowers ⟨announced lower⟩ where
  visit θ _ n := by
    have hlower : ∀ n, Follows θ (lower n) (lower n) Eq := h.visit θ
    have hcurrent : Follows θ
        (modifyTree fun f => { f with current := if n.isAbsent then none else some n })
        (modifyTree fun f => { f with current := if n.isAbsent then none else some n }) Eq :=
      follows_modifyTree fun _ _ h => { h with }
    dsimp only
    unfold announced
    cases n.form <;> infer_instance

instance : Recur.Lowers ⟨lowerWithin fuel⟩ := by
  induction fuel with
  | zero => exact ⟨fun _ _ _ => .pure rfl⟩
  | succ fuel ih =>
    refine ⟨fun θ _ n => ?_⟩
    dsimp only
    unfold lowerWithin
    infer_instance

instance : (recur fuel).Lowers := by unfold recur; infer_instance
instance (n : Node) : Alike θ (visit n) (visit n) Eq := ⟨by unfold visit; infer_instance⟩

end Lowering.Lower
