import Lowering.Lower
import Lowering.Proofs.Follows.Calls

/-!
The lowering of a tree follows itself, in whatever function the code goes.
-/
namespace Lowering

open Emit

set_option synthInstance.maxSize 10000000000000000000

/-- The frames of the two lowerings of a tree are alike. -/
class OfTree (θ : Likeness) : Prop where
  tree : θ.tree

instance : OfTree .equal := ⟨trivial⟩

namespace Lower

variable {θ : Likeness} {β β' : Type} {R : β → β' → Prop} {a a' : Operand} {r r' : BlockRef}
  {t t' u u' : Term}
variable [OperandLike θ a a'] [RefLike θ r r'] [ht : TermLike θ t t'] [hu : TermLike θ u u']

theorem follows_modifyTree {f g : TreeFrame → TreeFrame} (h : ∀ x y, TreeLike θ x y → TreeLike θ (f x) (g y)) :
    Follows θ (modifyTree f) (modifyTree g) Eq :=
  .modify (fun _ => rfl) fun _ _ _ hst => { hst with tree := fun ht => h _ _ (hst.tree ht) }

instance : Alike θ (setLast t) (setLast t') Eq :=
  ⟨follows_modifyTree fun _ _ h => { h with last := ht }⟩
instance : Alike θ (setAssigned t) (setAssigned t') Eq :=
  ⟨follows_modifyTree fun _ _ h => { h with assigned := ht }⟩

instance (type : Option ValueType) : Alike θ (setLastType type) (setLastType type) Eq :=
  ⟨follows_modifyTree fun _ _ h => { h with last := h.last.withType type }⟩
instance : Alike θ (setLastValue a) (setLastValue a') Eq :=
  ⟨follows_modifyTree fun _ _ h => { h with last := h.last.withValue ‹_› }⟩

instance [h : OfTree θ] : Alike θ assigned assigned (TermLike θ) :=
  ⟨.read fun _ _ _ hst => (hst.tree h.tree).assigned⟩

instance [h : OfTree θ] : Alike θ replaced replaced Eq :=
  ⟨.read fun _ _ _ hst => (hst.tree h.tree).replaced.symm⟩
instance (token : Option (Nat × Option Usage)) : Alike θ (setReplaced token) (setReplaced token) Eq :=
  ⟨follows_modifyTree fun _ _ h => { h with replaced := rfl }⟩
variable {n : Node} {i : Nat}

instance [OfTree θ] : Alike θ (usageOf n) (usageOf n) Eq :=
  ⟨by unfold usageOf; infer_instance⟩

instance : Alike θ (each n) (each n) Eq := ⟨by
  unfold each
  cases n.items? <;> infer_instance⟩

theorem follows_lookupScope : Follows θ lookupScope lookupScope θ.scope := by
  refine .get_bind (fun s => ?_) fun d s t h => ?_
  · cases s.lowerer <;> infer_instance
  · rw [h.lowerer]
    cases hs : s.lowerer with
    | tree => exact .pure (h.tree (h.ofTree hs)).scope
    | stack => exact absurd hs h.unstacked
    | bare => exact .throw

theorem follows_addVariable {i' : Nat} (hi : θ.scope i i') (name : String) (type : Option ValueType) :
    Follows θ (addVariable i name type) (addVariable i' name type) (VarLike θ) := by
  unfold addVariable
  refine .bind (Q := Eq) inferInstance (fun _ => ?_) ?_
  · exact .of_program_eq fun _ _ _ h => by cases h; rfl
  rintro type _ rfl
  refine .modifyGet (fun _ => rfl) fun d s t h => ⟨{ h with vars := ?_ }, ⟨?_⟩⟩
  · exact h.vars.push hi ⟨rfl, rfl, .empty, rfl, rfl⟩
  · exact h.vars.var_size

theorem follows_findVariable {i' : Nat} (hi : θ.scope i i') (name : String) :
    Follows θ (findVariable i name) (findVariable i' name) (Option.Rel (VarLike θ)) := by
  unfold findVariable
  refine .read fun d s t h => ?_
  have hname : ∀ j j', θ.var j j' →
      ((t.vars[j']?.map (·.name)) == some name) = ((s.vars[j]?.map (·.name)) == some name) := by
    intro j j' hj
    have hv := h.vars.get hj
    generalize s.vars[j]? = v, t.vars[j']? = v' at hv
    cases hv with
    | none => rfl
    | some hv => simp only [Option.map_some, hv.name]
  have hrel := h.vars.scopeVars hi
  generalize (s.scopes[i]?.getD #[]).toList = xs, (t.scopes[i']?.getD #[]).toList = ys at hrel
  induction hrel with
  | nil => exact .none
  | cons hj _ ih =>
    rw [List.find?_cons, List.find?_cons, hname _ _ hj]
    split
    · exact .some ⟨hj⟩
    · exact ih

theorem follows_variableAt {i' : Nat} (hi : θ.scope i i') (place : Int) :
    Follows θ (variableAt i place) (variableAt i' place) (VarLike θ) := by
  refine .get_bind (fun s => ?_) fun d s t h => ?_
  · dsimp only
    split <;> infer_instance
  have hrel := h.vars.scopeVars hi
  have hsize : (t.scopes[i']?.getD #[]).size = (s.scopes[i]?.getD #[]).size := hrel.length_eq.symm
  dsimp only
  rw [hsize]
  generalize (if place < 0 then place + _ else place).toNat = k
  have hk := rel_getElem? hrel k
  simp only [Array.getElem?_toList] at hk
  generalize (s.scopes[i]?.getD #[])[k]? = v, (t.scopes[i']?.getD #[])[k]? = v' at hk
  cases hk with
  | none => exact .throw
  | some hv =>
    dsimp only
    split
    · exact .throw
    · exact .pure ⟨hv⟩

instance (name : String) (type : Option ValueType) : Grows (addVariable i name type) :=
  (follows_addVariable (θ := .equal) rfl name type).grows
instance (name : String) : Grows (findVariable i name) :=
  (follows_findVariable (θ := .equal) rfl name).grows
instance (place : Int) : Grows (variableAt i place) :=
  (follows_variableAt (θ := .equal) rfl place).grows

instance (name : Label) : Alike θ (variableFor name) (variableFor name) (VarLike θ) := ⟨by
  unfold variableFor
  cases name.text? with
  | some text =>
    refine .bind follows_lookupScope inferInstance fun i i' hi => ?_
    refine .bind (follows_findVariable hi text) (fun v => ?_) ?_
    · cases v <;> infer_instance
    rintro _ _ (hv | _)
    · exact .pure hv
    refine .bind (follows_addVariable hi text _) inferInstance fun v v' hv => ?_
    infer_instance
  | none =>
    refine .bind follows_lookupScope (fun i => ?_) fun i i' hi => ?_
    · cases name.number? <;> infer_instance
    cases name.number? with
    | some place => exact follows_variableAt hi place
    | none => exact .throw⟩

instance : Alike θ (parameterName n) (parameterName n) Eq := ⟨by
  unfold parameterName
  cases n.form <;> infer_instance⟩

instance : Alike θ (parameters i) (parameters i) Eq := ⟨by
  unfold parameters
  refine .get_bind (fun s => ?_) fun d s t h => ?_
  · dsimp only
    cases (s.definitions[i]?.getD default).node.form with
    | functionDef _ args =>
      dsimp only
      cases args.form <;> infer_instance
    | _ => infer_instance
  · rw [h.definitions.2]
    dsimp only
    cases (s.definitions[i]?.getD default).node.form with
    | functionDef _ args =>
      dsimp only
      cases args.form <;> infer_instance
    | _ => infer_instance⟩

instance (convention : Convention) (params : List Node) :
    Alike θ (bindArguments convention params) (bindArguments convention params) Eq := ⟨by
  unfold bindArguments
  cases convention <;> infer_instance⟩

/-- Parameters with blocks that stand for one another. -/
class ChangesLike (θ : Likeness) (es es' : List (Node × BlockRef)) : Prop where
  like : List.Forall₂ (fun e e' => e'.1 = e.1 ∧ RefLike θ e.2 e'.2) es es'

instance (es : List (Node × BlockRef)) : ChangesLike .equal es es :=
  ⟨List.forall₂_same.2 fun _ _ => ⟨rfl, inferInstance⟩⟩

instance (b b' : Operand) [OperandLike θ b b'] (es es' : List (Node × BlockRef)) [hes : ChangesLike θ es es'] :
    Alike θ (lookUpKeywords a b r es) (lookUpKeywords a' b' r' es') Eq := ⟨by
  obtain ⟨hes⟩ := hes
  have hgrows : ∀ (a b : Operand) r es, Grows (lookUpKeywords a b r es) := by
    intro a b r es
    induction es with
    | nil => unfold lookUpKeywords; infer_instance
    | cons e es ih =>
      unfold lookUpKeywords
      dsimp only
      cases es <;> infer_instance
  induction hes with
  | nil => exact .pure rfl
  | cons he hes ih =>
    obtain ⟨hname, hblock⟩ := he
    unfold lookUpKeywords
    dsimp only
    rw [hname]
    cases hes with
    | nil => infer_instance
    | cons he' _ =>
      have := he'.2
      infer_instance⟩

instance (params : List Node) : Alike θ (matchKeywords a params) (matchKeywords a' params) Eq := ⟨by
  unfold matchKeywords
  refine .after (RefLike θ) fun some_ some' hsome => ?_
  refine .after (RefLike θ) fun after after' hafter => ?_
  refine .bind (Q := ChangesLike θ) ?_ inferInstance fun changes changes' hchanges => ?_
  · refine .mono (.mapM (List.forall₂_same.2 fun _ _ => rfl) inferInstance ?_) fun _ _ h => ⟨h⟩
    rintro param _ rfl
    exact .after (RefLike θ) fun r r' hr => .pure ⟨rfl, hr⟩
  · infer_instance⟩

/-- The cursors of the functions in hand are the ones in use. -/
theorem follows_withCursor {α α' : Type} {c c' : Nat} (hc : θ.cursor c c') {x : Emit α} {y : Emit α'}
    {Q : α → α' → Prop} (hx : Follows θ x y Q) : Follows θ (withCursor c x) (withCursor c' y) Q where
  grows := have := hx.grows; inferInstance
  run d s t s' a hst hrun hfinal := by
    obtain ⟨rfl, rfl⟩ := hst.own c c' hc
    obtain ⟨s1, hrun1, rfl⟩ := withCursor_eq_ok.1 hrun
    obtain ⟨b, t', hy, hst', hq⟩ := hx.run d hst hrun1 hfinal
    obtain ⟨hs, ht⟩ := hst'.own _ _ hc
    refine ⟨b, t', withCursor_eq_ok.2 ⟨t', hy, by rw [← ht]⟩, ?_, hq⟩
    rwa [← hs]

instance (r : BlockRef) : Grows (block r) := by unfold block; infer_instance
instance (c : Nat) (result : MachineType) (r : BlockRef) : Grows (closeBlock c result r) := by
  unfold closeBlock
  infer_instance

/-- A block is closed alike; one that had ended before is left alone. -/
theorem follows_closeBlock {c c' : Nat} (hc : θ.cursor c c') (result : MachineType) {r r' : BlockRef}
    (hr : θ.ended r r' ∨ θ.block r r') : Follows θ (closeBlock c result r) (closeBlock c' result r') Eq := by
  unfold closeBlock
  rcases hr with hr | hr
  · refine .bind (Q := fun b b' => b.needsEnd = false ∧ b'.needsEnd = false) ?_ inferInstance ?_
    · exact .read fun d s t h => h.program.needsEnd_of_ended hr
    · rintro b b' ⟨hb, hb'⟩
      rw [hb, hb']
      exact .pure rfl
  · have : RefLike θ r r' := ⟨hr⟩
    have hset := follows_withCursor hc (inferInstance : Follows θ (setBlock r) (setBlock r') Eq)
    have hret := follows_withCursor hc (inferInstance : Follows θ retVoid retVoid Eq)
    refine .bind (Q := fun b b' => b'.needsEnd = b.needsEnd) ?_ inferInstance fun b b' hb => ?_
    · exact .read fun d s t h => h.program.needsEnd hr
    · rw [hb]
      infer_instance

instance : Alike θ closeBlocks closeBlocks Eq := ⟨by
  unfold closeBlocks
  refine .bind follows_currentImpl inferInstance fun i i' hi => ?_
  refine .bind (follows_implOf hi) inferInstance fun m m' hm => ?_
  have hcode := hm.code
  generalize m.code = f, m'.code = f' at hcode
  cases hcode with
  | none => exact .throw
  | @some f f' hf =>
    simp only [expect, pure_bind]
    refine .get_bind_of_grown inferInstance fun d s t h hfinal => ?_
    obtain ⟨rfl, rfl⟩ := d.func_eq f f' hf
    obtain ⟨g, g', hg, hg', hlike⟩ := h.program.home
    obtain ⟨last, hlast, hgrown⟩ := hfinal.funcs d.home g hg
    cases hlast.symm.trans d.last_eq
    have hcount : g.blocks.size ≤ d.count := Nat.le_trans hgrown.size_le d.size_le
    have hdropped := (h.program.sound.funcs _ g hg).dropped
    have hdropped' := (h.program.sound'.funcs _ g' hg').dropped
    simp only [hg, hg', Option.getD_some, hdropped, hdropped', hlike.size, hlike.result]
    refine .bind (Q := Eq) (.forEach (R := fun k k' => k' = k ∧ k < g.blocks.size) ?_ inferInstance
      ?_ _) inferInstance fun _ _ _ => .pure rfl
    · exact List.forall₂_same.2 fun k hk => ⟨rfl, List.mem_range.1 hk⟩
    · rintro _ k u ⟨rfl, hk⟩
      have : θ.ended ⟨d.home, k⟩ ⟨d.home', k⟩ ∨ θ.block ⟨d.home, k⟩ ⟨d.home', k⟩ := by
        rcases Nat.lt_or_ge k d.first with hfirst | hfirst
        · exact .inl ((d.ended_iff _ _).2 ⟨rfl, rfl, rfl, hfirst⟩)
        · exact .inr ((d.block_iff _ _).2 ⟨rfl, rfl, rfl, hfirst, Nat.lt_of_lt_of_le hk hcount⟩)
      have hclose := follows_closeBlock (hlike.cursor _ _ hf) g.result this
      infer_instance⟩

/-- A way to lower nodes that follows itself. -/
class Recur.Lowers (r : Recur) : Prop where
  visit : ∀ (θ : Likeness) [OfTree θ] (n : Node), Follows θ (r.visit n) (r.visit n) Eq

variable (rec : Recur) [hrec : rec.Lowers] [hθ : OfTree θ]

instance : Alike θ (rec.visit n) (rec.visit n) Eq := ⟨hrec.visit θ n⟩

instance : Alike θ (rec.term n) (rec.term n) (TermLike θ) := ⟨by
  refine .after Eq fun _ _ _ => ?_
  exact .read fun _ _ _ hst => (hst.tree hθ.tree).last⟩

end Lower
end Lowering
