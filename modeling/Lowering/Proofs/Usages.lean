import Lowering.Proofs.Leftovers

/-!
The usages of tokens. An augmented assignment gives a token another usage for a time, and lowers its target and its
value meanwhile. When a lowering has completed, every token has the usage that it had before.
-/
namespace Lowering

open Emit

set_option synthInstance.maxSize 100000000

variable {α β : Type} {k : Token}

/-- A tree is being lowered, and this is the state of that. -/
def framed (f : TreeFrame) : Regime where
  Holds s := s.lowerer = .tree ∧ s.tree = f
  Room _ := True
  Loose _ := True

instance (f : TreeFrame) : (framed f).Plain where
  lowerer hs := hs.1
  __ := Regime.Writes.of_blind (R := framed f) (fun _ => trivial) fun _ hs => hs
  printed hs _ _ hlowerer htree _ _ _ _ _ := ⟨hlowerer.trans hs.1, htree.trans hs.2⟩
  addVariable _ _ hs := ⟨hs, trivial⟩
  setSlot _ hs _ := hs
  setUsed _ _ hs := hs

theorem Emit.tree_of_ok {x : Emit α} [∀ f, Heeds (framed f) x] {s s' : State} {a : α} (hs : s.lowerer = .tree)
    (h : x s = .ok a s') : s'.lowerer = .tree ∧ s'.tree = s.tree :=
  holds_of_ok (R := framed s.tree) ⟨hs, rfl⟩ h

/-- A step that completes takes the states with one property to states with another. -/
def Emit.Leads (I J : State → Prop) (x : Emit α) : Prop :=
  ∀ ⦃s s' : State⦄ ⦃a : α⦄, I s → x s = .ok a s' → J s'

namespace Emit.Leads

variable {I J K : State → Prop} {x : Emit α} {f : α → Emit β}

theorem of_preserves [Preserves I x] : Leads I I x := fun _ _ _ hs h => Preserves.of_ok hs h

theorem bind (hx : Leads I J x) (hf : ∀ a, Leads J K (f a)) : Leads I K (x >>= f) := by
  intro s s' b hs h
  obtain ⟨a, s1, ha, hb⟩ := bind_eq_ok.1 h
  exact hf a (hx hs ha) hb

theorem keep [Preserves I x] (hf : ∀ a, Leads I K (f a)) : Leads I K (x >>= f) := bind of_preserves hf

end Emit.Leads

/-- A tree is being lowered, with the usage of a token replaced. -/
structure State.Marked (k : Token) (s : State) : Prop where
  lowerer : s.lowerer = .tree
  replaced : s.tree.replaced = k

/-- A tree of these definitions is being lowered, with the usage of a token replaced. -/
def marking (k : Token) (ds : Array Definition) : Regime where
  Holds s := s.Marked k ∧ s.definitions = ds
  Room _ := True
  Loose _ := True
  Fallen _ := True

variable {ds : Array Definition}

instance : (marking k ds).Plain where
  lowerer hs := hs.1.lowerer
  __ := Regime.Writes.of_blind (R := marking k ds) (fun _ => trivial) fun _ hs => ⟨{ hs.1 with }, hs.2⟩
  printed hs _ _ hlowerer htree _ hdefinitions _ _ _ :=
    ⟨⟨hlowerer.trans hs.1.lowerer, htree ▸ hs.1.replaced⟩, hdefinitions.trans hs.2⟩
  addVariable _ _ hs := ⟨⟨{ hs.1 with }, hs.2⟩, trivial⟩
  setSlot _ hs _ := ⟨{ hs.1 with }, hs.2⟩
  setUsed _ _ hs := ⟨{ hs.1 with }, hs.2⟩

instance : (marking k ds).Lax := ⟨fun _ => trivial⟩
instance (r : BlockRef) : Inside (marking k ds) r := ⟨trivial⟩

theorem Lower.heeds_modifyTree_of_replaced {u : TreeFrame → TreeFrame} (hu : ∀ f, (u f).replaced = f.replaced) :
    Heeds (marking k ds) (modifyTree u) :=
  heeds_modify fun _ hs => ⟨⟨hs.1.lowerer, (hu _).trans hs.1.replaced⟩, hs.2⟩

instance : (marking k ds).Notes where
  note h := Lower.heeds_modifyTree_of_replaced fun f => by
    have hreplaced := congrArg TreeFrame.replaced (h f)
    exact hreplaced

namespace Emit

section Rules

variable {I : State → Prop}

theorem preserves_mapM {xs : List α} {f : α → Emit β} (h : ∀ a ∈ xs, Preserves I (f a)) : Preserves I (xs.mapM f) := by
  induction xs with
  | nil => exact inferInstanceAs (Preserves I (pure []))
  | cons x xs ih =>
    obtain ⟨hx, hxs⟩ := List.forall_mem_cons.1 h
    have := ih hxs
    rw [List.mapM_cons]
    infer_instance

end Rules

instance (priority := low) (x : Emit α) [∀ ds, Heeds (marking k ds) x] : Preserves (State.Marked k) x :=
  heeds_lasting fun {s _ _} hs h => (holds_of_ok (R := marking k s.definitions) ⟨hs, rfl⟩ h).1

instance (priority := low) {R : Regime} (x : Emit α) [Heeds R x] : Preserves R.Holds x := heeds_lasting holds_of_ok

end Emit

namespace Lower

section Values

theorem leads_setReplaced {k' : Token} : Leads (State.Marked k) (State.Marked k') (setReplaced k') := by
  intro s s' u hs h
  cases h
  exact ⟨hs.lowerer, rfl⟩

theorem leads_marking {k' : Token} : Leads (marking k ds).Holds (marking k' ds).Holds (setReplaced k') := by
  intro s s' u hs h
  refine ⟨leads_setReplaced hs.1 h, ?_⟩
  cases h
  exact hs.2

theorem leads_replaced {f : Token → Emit α} {K : State → Prop} (h : Leads (marking k ds).Holds K (f k)) :
    Leads (marking k ds).Holds K (replaced >>= f) := by
  intro s s' a hs hok
  have hread : f k s = .ok a s' := by
    rw [← hs.1.replaced]
    exact hok
  exact h hs hread

end Values

instance (x : Emit Unit) [Heeds (marking k ds) x] (exit : BlockRef) : Heeds (marking k ds) (withExit exit x) := by
  have henter : Heeds (marking k ds) (modifyTree fun f => { f with exits := exit :: f.exits }) :=
    heeds_modifyTree_of_replaced fun _ => rfl
  have hleave : Heeds (marking k ds) (modifyTree fun f => { f with exits := f.exits.tail }) :=
    heeds_modifyTree_of_replaced fun _ => rfl
  unfold withExit
  infer_instance

section Trees

variable (r : Recur) [∀ k n, Heeds (marking k ds) (r.visit n)]

theorem leads_augAssign (node target value : Node) (op : Option Operator) :
    Leads (marking k ds).Holds (marking k ds).Holds (augAssign r node target op value) := by
  refine leads_replaced (.keep fun token => .bind leads_marking fun _ => ?_)
  refine .keep fun base => .keep fun _ => .bind leads_marking fun _ => ?_
  refine .keep fun left => .keep fun _ => .keep fun _ => .keep fun right => .keep fun name => .keep fun result => ?_
  refine .keep fun _ => .keep fun _ => .bind leads_marking fun _ => ?_
  exact .keep fun _ => .bind leads_marking fun _ => .of_preserves

instance (n : Node) : Heeds (marking k ds) (construct r n) :=
  agrees_construct r r n (fun _ => inferInstance) (fun target op value _ =>
    heeds_of_ok (fun _ => trivial) (fun _ => id) fun hs h => leads_augAssign r n target value op hs h)
    (fun _ _ _ _ _ => inferInstance) fun _ _ _ _ => inferInstance

end Trees

instance (fuel : Nat) (n : Node) : Heeds (marking k ds) (lowerWithin fuel n) := by
  induction fuel generalizing n k with
  | zero => exact inferInstanceAs (Heeds _ (pure ()))
  | succ fuel ih =>
    have hvisit : ∀ k n, Heeds (marking k ds) (Recur.visit ⟨announced (lowerWithin fuel)⟩ n) := fun k n =>
      inferInstanceAs (Heeds _ (announced (lowerWithin fuel) n))
    unfold lowerWithin
    infer_instance

instance (fuel : Nat) (n : Node) : Heeds (marking k ds) ((recur fuel).visit n) :=
  inferInstanceAs (Heeds _ (announced (lowerWithin fuel) n))

section Passes

variable {s s' : State} {i : Nat}

instance (c : Nat) (x : Emit Unit) [Heeds (marking k ds) x] : Heeds (marking k ds) (withCursor c x) :=
  heeds_of_ok (fun _ => trivial) (fun _ => id) fun {s _ _} hs h => by
    obtain ⟨s1, hx, rfl⟩ := withCursor_eq_ok.1 h
    have hmoved : (marking k ds).Holds { s with cursor := c } := ⟨{ hs.1 with }, hs.2⟩
    obtain ⟨hs1, hdefinitions⟩ := holds_of_ok hmoved hx
    exact ⟨{ hs1 with }, hdefinitions⟩

instance (c : Nat) (result : MachineType) (ref : BlockRef) : Heeds (marking k ds) (closeBlock c result ref) := by
  unfold closeBlock; infer_instance

instance : Heeds (marking k ds) closeBlocks := by unfold closeBlocks; infer_instance

instance (i : Nat) : Heeds (marking k ds) (declare i) := heeds_declare fun _ hs => ⟨{ hs.1 with }, hs.2⟩

instance (f : Nat) : Heeds (marking k ds) (enter f) :=
  heeds_enter (fun _ hs => ⟨{ hs.1 with }, hs.2⟩) fun _ hs => ⟨{ hs.1 with }, hs.2⟩

/-- Whatever usage was replaced before, none is when a lowering starts. -/
theorem marking_of_start (h : start i s = .ok () s') : (marking none s.definitions).Holds s' := by
  have hframe : ∀ entry content cursor,
      Heeds (marking none s.definitions) (modifyTree fun f => { f with entry, content, cursor }) :=
    fun _ _ _ => heeds_modifyTree_of_replaced fun _ => rfl
  have hrun : (openFunction i >>= fun e => get >>= fun t =>
      modifyTree (fun f => { f with entry := e.1, content := e.2, cursor := t.cursor }) >>= fun _ => bindParameters i)
      { s with lowerer := .tree, tree := { impl := i, scope := (s.impls[i]?.getD default).scope } } = .ok () s' := h
  have hbegun : (marking none s.definitions).Holds
      { s with lowerer := .tree, tree := { impl := i, scope := (s.impls[i]?.getD default).scope } } :=
    ⟨⟨rfl, rfl⟩, rfl⟩
  unfold openFunction at hrun
  exact holds_of_ok hbegun hrun

/-- A compiler that is to lower a function that adds to its argument. -/
def incrementState : State :=
  leftBy (Compile.newDefinition (unaryNode [.mk { key := 1 } (.augAssign (.mk { key := 2 } (.name "x" (some .store)))
    (some .add) (.mk { key := 3 } (.constant (.int 1))))]) Compile.ready)

end Passes

end Lower
end Lowering
