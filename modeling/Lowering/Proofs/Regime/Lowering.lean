import Lowering.Lower
import Lowering.Proofs.Regime.Emission

/-!
The lowering of a tree keeps to a regime. Of two ways to lower the nodes inside a construct that are the same
under the regime, either may be taken.
-/
namespace Lowering.Lower

open Emit

set_option synthInstance.maxSize 100000000

variable {R : Regime}

section Notes

variable [hN : R.Notes]

instance (t : Term) : Heeds R (setLast t) := hN.note fun _ => rfl
instance (t : Option ValueType) : Heeds R (setLastType t) := hN.note fun _ => rfl
instance (v : Operand) : Heeds R (setLastValue v) := hN.note fun _ => rfl
instance (t : Term) : Heeds R (setAssigned t) := hN.note fun _ => rfl
instance : Heeds R enterAssign := hN.note fun _ => rfl
instance : Heeds R leaveAssign := hN.note fun _ => rfl

end Notes

section Opening

instance (d : Nat) : Heeds R (definitionName d) := by
  refine ⟨.read fun s => ?_⟩
  dsimp only
  split <;> exact Agrees.agree

instance (m : Impl) : Heeds R (fullName m) := by
  unfold fullName
  split <;> split <;> infer_instance

instance [R.Requests] (m : Impl) : Heeds R (signature m) := by
  unfold signature
  split <;> infer_instance

theorem heeds_declare [R.Requests] [R.Still] {i : Nat} (hcode : ∀ {s : State} (f : Nat), R.Holds s →
      R.Holds { s with impls := s.impls.modify i fun m => { m with code := some f } }) : Heeds R (declare i) := by
  have := fun f => heeds_modify fun _ => hcode f
  unfold declare
  infer_instance

theorem heeds_enter [R.Plain] {f : Nat}
    (hblock : ∀ {s : State} (g : Func → Func), R.Holds s → R.Holds (s.withProgram (s.program.mapFunc f g)))
    (hcursor : ∀ {s : State} (c : Nat), R.Holds s → R.Holds { s with cursor := c }) : Heeds R (enter f) := by
  have : Heeds R (addBlock f (some "Entry block")) :=
    ⟨agree_of_left fun _ hs => ⟨hblock _ hs, fun _ _ _ => trivial⟩⟩
  have := fun c => heeds_modify fun _ => hcursor c
  unfold enter
  infer_instance

end Opening

section Reads

instance : Heeds R assigned := by unfold assigned; infer_instance
instance : Heeds R replaced := by unfold replaced; infer_instance
variable {n : Node}

instance : Heeds R (usageOf n) := by unfold usageOf; infer_instance

instance : Heeds R (each n) := by
  unfold each
  split <;> infer_instance

instance (scope : Nat) (name : String) : Heeds R (findVariable scope name) := by
  unfold findVariable; infer_instance

instance : Heeds R lookupScope := by
  refine ⟨.read fun s => ?_⟩
  cases s.lowerer <;> exact Agrees.agree

instance (scope : Nat) (place : Int) : Heeds R (variableAt scope place) := by
  refine ⟨.read fun s => ?_⟩
  dsimp only
  split
  · exact Agrees.agree
  · exact .throw _

instance : Heeds R (parameterName n) := by
  unfold parameterName
  split <;> infer_instance

instance (d : Nat) : Heeds R (parameters d) := by
  refine ⟨.read fun s => ?_⟩
  dsimp only
  split
  · split <;> exact Agrees.agree
  · exact .throw _

instance (targets : List Node) (i : Nat) : Heeds R (targetAt targets i) := by
  unfold targetAt
  split <;> infer_instance

instance : Heeds R (starredTarget n) := by
  unfold starredTarget
  split <;> infer_instance

instance : Heeds R (assignPlaces n) := by
  unfold assignPlaces
  split <;> infer_instance

instance : Heeds R (requireItems n) := by
  unfold requireItems
  split <;> infer_instance

instance (function? : Operator → Option String) (op : Option Operator) : Heeds R (operatorFunction function? op) := by
  unfold operatorFunction; infer_instance

end Reads

variable [hC : R.Computes]

section Variables

instance (i : Nat) (used : Bool) : Heeds R (modifyVariable i fun v => { v with used }) := hC.setUsed i used

instance (l : Label) : Heeds R (variableFor l) := by
  unfold variableFor
  refine ⟨.bind (Agrees.agree : Agree R lookupScope _ _) fun scope _ => ?_⟩
  split
  · refine .bind (Agrees.agree : Agree R (findVariable _ _) _ _) fun found _ => ?_
    cases found with
    | some i => exact .pure trivial
    | none =>
      refine .bind (hC.addVariable _ _ _) fun i hi => ?_
      have hset := hC.setSlot hi
      exact Agrees.agree
  · exact Agrees.agree
  · exact Agrees.agree

instance (l : Label) (type : Option ValueType) : Heeds R (newVariable l type) := by
  unfold newVariable
  refine ⟨.bind (Agrees.agree : Agree R currentImpl _ _) fun i _ => ?_⟩
  refine .bind (Agrees.agree : Agree R (implOf i) _ _) fun impl _ => ?_
  refine .bind (hC.addVariable _ _ _) fun v hv => ?_
  have hset := hC.setSlot hv
  exact Agrees.agree

instance (n : Node) : Heeds R (loopVariable n) := by
  unfold loopVariable
  split <;> infer_instance

instance (n : Node) (v : Operand) : Heeds R (bindName n v) := by
  unfold bindName
  split
  · infer_instance
  · split <;> infer_instance

instance (message : String) (n : Node) : Heeds R (reportAt message n) := by
  unfold reportAt
  split <;> infer_instance

end Variables

section Parameters

variable [hL : R.Calls]

instance [hX : R.Lax] (convention : Convention) (params : List Node) : Heeds R (bindArguments convention params) := by
  have hset : ∀ i slot, Heeds R (modifyVariable i fun v => { v with slot }) := fun i => hC.setSlot (hX.loose i)
  cases convention <;> unfold bindArguments <;> dsimp only <;> infer_instance

end Parameters

section Keywords

variable [R.Calls] [R.Branches]

theorem agree_lookUpKeywords (keywords zero : Operand) (after : BlockRef) [Inside R after] (es : List (Node × BlockRef))
    (hes : ∀ e ∈ es, Inside R e.2) :
      Agree R (lookUpKeywords keywords zero after es) (lookUpKeywords keywords zero after es) fun _ => True := by
  induction es with
  | nil => exact .pure trivial
  | cons e es ih =>
    have hrest : Heeds R (lookUpKeywords keywords zero after es) :=
      ⟨ih fun e he => hes e (List.mem_cons_of_mem _ he)⟩
    have hhead : Inside R e.2 := hes e List.mem_cons_self
    cases es with
    | nil => unfold lookUpKeywords; exact Agrees.agree
    | cons e' es =>
      have hnext : Inside R e'.2 := hes e' (by simp)
      unfold lookUpKeywords; exact Agrees.agree

instance (keywords : Operand) (params : List Node) : Heeds R (matchKeywords keywords params) := by
  refine ⟨.bind (Meets.agree : Agree R createBlock _ _) fun some_ hsome => ?_⟩
  refine .bind (Meets.agree : Agree R createBlock _ _) fun after hafter => ?_
  have hinside : Inside R some_ := ⟨hsome⟩
  have hinside' : Inside R after := ⟨hafter⟩
  refine .bind (.mapM (S := fun e => Inside R e.2) params fun param => ?_) fun changes hchanges => ?_
  · exact .bind (Meets.agree : Agree R createBlock _ _) fun r hr => .pure ⟨hr⟩
  · have hlook : ∀ zero, Heeds R (lookUpKeywords keywords zero after changes) := fun zero =>
      ⟨agree_lookUpKeywords keywords zero after changes hchanges⟩
    exact Agrees.agree

instance [R.Lax] (i : Nat) : Heeds R (bindParameters i) := by unfold bindParameters; infer_instance

end Keywords

section Unpacking

variable [R.Calls] [Joins R] [Dispatches R]
variable (assign assign' : Node → Term → Emit Unit) (targets : List Node) (t : Term) (before : Nat) (after : Int)

section Blocks

variable [R.Branches] [∀ n t, Agrees R (assign n t) (assign' n t)]

instance : Agrees R (unpackIterable assign targets t before after) (unpackIterable assign' targets t before after) := by
  unfold unpackIterable; dsimp only; infer_instance

instance : Agrees R (unpackSized assign targets t before after) (unpackSized assign' targets t before after) := by
  unfold unpackSized; dsimp only; infer_instance

end Blocks

instance [∀ before after, Agrees R (unpackIterable assign targets t before after) (unpackIterable assign' targets t before after)]
    [∀ t before after, Agrees R (unpackSized assign targets t before after) (unpackSized assign' targets t before after)] :
    Agrees R (unpackTo assign targets t) (unpackTo assign' targets t) := by
  unfold unpackTo; dsimp only; infer_instance

end Unpacking

section Pieces

variable [R.Calls] [Joins R] [Dispatches R] (op : Option Operator)

instance (before : Option Term) (t u : Term) : Heeds R (compareLink before t op u) := by
  cases before <;> unfold compareLink <;> infer_instance

instance (before : Option Term) (ops : List (Option Operator)) (terms : List Term) :
    Heeds R (compareChain before ops terms) := by
  fun_induction compareChain before ops terms <;> infer_instance

instance (ops : List (Option Operator)) (terms : List Term) : Heeds R (compareTerms ops terms) := by
  unfold compareTerms
  split <;> infer_instance

instance [R.Branches] (object : Operand) (l : Label) (args : List Operand) (kw : Keywords) :
    Heeds R (callMember object l args kw) := by
  unfold callMember; infer_instance

instance (node a : Node) (t : Term) : Heeds R (enterManager node a t) := by unfold enterManager; infer_instance

end Pieces

variable [hL : R.Calls] [hJ : Joins R] [hD : Dispatches R] [hN : R.Notes] (r r' : Recur)
  [∀ n, Agrees R (r.visit n) (r'.visit n)]

omit hC hL hJ hD hN in
instance (n : Node) : Agrees R (r.term n) (r'.term n) := by unfold Recur.term; infer_instance

section Targets

variable {t : Term} {node : Node}

instance : Heeds R (takeAssigned t) := by unfold takeAssigned; infer_instance

instance [R.Branches] (fuel : Nat) (targets : List Node) :
    Agrees R (unpackTo (assignTo r node fuel) targets t) (unpackTo (assignTo r' node fuel) targets t) := by
  have hassign : ∀ target t, Agrees R (assignTo r node fuel target t) (assignTo r' node fuel target t) := by
    induction fuel with
    | zero => exact fun _ _ => inferInstanceAs (Heeds R (pure ()))
    | succ fuel ih =>
      intro target t
      unfold assignTo
      split <;> infer_instance
  infer_instance

variable [∀ node fuel targets t,
  Agrees R (unpackTo (assignTo r node fuel) targets t) (unpackTo (assignTo r' node fuel) targets t)]

instance (fuel : Nat) (target : Node) :
    Agrees R (assignTo r node fuel target t) (assignTo r' node fuel target t) := by
  cases fuel with
  | zero => exact inferInstanceAs (Heeds R (pure ()))
  | succ fuel =>
    unfold assignTo
    split <;> infer_instance

instance (targets : List Node) : Agrees R (unpack r targets t node) (unpack r' targets t node) := by
  unfold unpack; infer_instance

instance (a : Node) (type : Option ValueType) (item : Term) :
    Agrees R (bindTarget r node a type item) (bindTarget r' node a type item) := by
  unfold bindTarget
  split <;> infer_instance

end Targets

section Expressions

variable (n a b c : Node) (op : Option Operator)

instance : Agrees R (unaryOp r op a) (unaryOp r' op a) := by
  refine ⟨.bind (Agrees.agree : Agree R (r.term a) _ _) fun o _ => ?_⟩
  refine .bind (Agrees.agree : Agree R objectPtr _ _) fun ptr _ => ?_
  dsimp only
  split <;> exact Agrees.agree

instance : Agrees R (boolOp r op a) (boolOp r' op a) := by
  refine ⟨.bind (Agrees.agree : Agree R (each a) _ _) fun values _ => ?_⟩
  refine .bind (Agrees.agree : Agree R (values.mapM r.term) _ _) fun terms _ => ?_
  split <;> exact Agrees.agree

omit hC hL hJ hD hN in
theorem agrees_usage {f g : Option Usage → Emit Unit} (hload : Agrees R (f (some .load)) (g (some .load)))
    (hstore : Agrees R (f (some .store)) (g (some .store))) (hnone : Agrees R (f none) (g none))
    (hother : ∀ text, Agrees R (f (some (.other text))) (g (some (.other text)))) :
    Agrees R (usageOf n >>= f) (usageOf n >>= g) := by
  refine ⟨.bind (Agrees.agree : Agree R (usageOf n) _ _) fun usage _ => ?_⟩
  match usage with
  | none => exact hnone.agree
  | some .load => exact hload.agree
  | some .store => exact hstore.agree
  | some (.other text) => exact (hother text).agree

instance (id : Label) : Heeds R (name n id) := by
  unfold name
  apply agrees_usage <;> infer_instance

instance (attr : Label) : Agrees R (memberOf r n a attr) (memberOf r' n a attr) := by
  refine ⟨.bind (Agrees.agree : Agree R resetLast _ _) fun _ _ => ?_⟩
  refine .bind (Agrees.agree : Agree R (r.term a) _ _) fun object _ => (?_ : Heeds R _).agree
  apply agrees_usage <;> infer_instance

instance : Agrees R (subscript r n a b) (subscript r' n a b) := by
  refine ⟨.bind (Agrees.agree : Agree R (r.term a) _ _) fun sequence _ => ?_⟩
  refine .bind (Agrees.agree : Agree R (r.term b) _ _) fun index _ => (?_ : Heeds R _).agree
  dsimp only
  apply agrees_usage <;> infer_instance

instance (c : Constant) : Heeds R (constant c) := by
  cases c <;> unfold constant <;> infer_instance

instance : Agrees R (callee r a) (callee r' a) := by
  unfold callee
  split <;> infer_instance

instance (l : Label) : Agrees R (keywordName r l) (keywordName r' l) := by
  unfold keywordName
  split <;> infer_instance

instance : Agrees R (keywordArg r a) (keywordArg r' a) := by
  refine ⟨.bind (Agrees.agree : Agree R resetLast _ _) fun _ _ => ?_⟩
  refine .bind (Agrees.agree : Agree R (parameterName a) _ _) fun name _ => ?_
  refine .bind (Agrees.agree : Agree R (keywordName r name) _ _) fun key _ => ?_
  split <;> exact Agrees.agree

instance [∀ object l args kw, Heeds R (callMember object l args kw)] :
    Agrees R (callExpr r a b c) (callExpr r' a b c) := by
  unfold callExpr; dsimp only; infer_instance

end Expressions

section Comprehensions

variable (node a b c : Node)

section Blocks

variable [R.Branches]

instance (otherwise : BlockRef) [Inside R otherwise] : Agrees R (guardBy r otherwise a) (guardBy r' otherwise a) := by
  unfold guardBy; infer_instance

instance (done : BlockRef) [Inside R done] : Meets R (openLoop r node a done) (openLoop r' node a done) := by
  unfold openLoop
  split <;> infer_instance

instance (action action' : Emit Unit) [Agrees R action action'] (generators : List Node) (done : BlockRef)
    [Inside R done] :
    Agrees R (openLoops r node action generators done) (openLoops r' node action' generators done) := by
  induction generators generalizing done with
  | nil => exact inferInstanceAs (Heeds R (pure ()))
  | cons generator rest ih =>
    cases rest with
    | nil => unfold openLoops; infer_instance
    | cons next rest => unfold openLoops; infer_instance

end Blocks

omit hC hL hJ hD hN [∀ n, Agrees R (r.visit n) (r'.visit n)] in
/-- What a comprehension does for each of its items can be done in its loops. -/
class Comprehends (R : Regime) (r r' : Recur) : Prop where
  comprehend (node a : Node) {action action' : Emit Unit} (h : Agrees R action action') :
    Agrees R (comprehend r node a action) (comprehend r' node a action')

instance [R.Branches] : Comprehends R r r' := ⟨fun node a action action' h => by unfold comprehend; infer_instance⟩

instance : Agrees R (generator r a b) (generator r' a b) := by
  unfold generator
  split <;> infer_instance

variable [hK : Comprehends R r r']

instance (action action' : Emit Unit) [h : Agrees R action action'] :
    Agrees R (comprehend r node a action) (comprehend r' node a action') :=
  hK.comprehend node a h

end Comprehensions

section Statements

variable (node a b c d : Node)

instance : Agrees R (withItem r node a) (withItem r' node a) := by
  unfold withItem
  split <;> infer_instance

instance : Agrees R (withStmt r node a b) (withStmt r' node a b) := by
  have hunused : ∀ v : Option Nat, Heeds R (match v with
      | some v => do
        modifyVariable v fun v => { v with used := false }
        pure (.yield ⟨⟩)
      | none => do
        pure ()
        pure (.yield ⟨⟩) : Emit (ForInStep PUnit)) := by
    intro v
    cases v <;> infer_instance
  unfold withStmt
  infer_instance

variable [R.Branches]

section Loops

variable (w w' : Recur) [∀ (exit : Room R) n, Agrees R (withExit exit.ref (w.visit n)) (withExit exit.ref (w'.visit n))]

instance : Agrees R (forStmt r a b c d w) (forStmt r' a b c d w') := by unfold forStmt; dsimp only; infer_instance
instance : Agrees R (whileStmt r a b c w) (whileStmt r' a b c w') := by unfold whileStmt; dsimp only; infer_instance

end Loops

/-- One construct, if the same is known of loops, of what leaves one and of what replaces the usage of a token. -/
theorem agrees_construct (n : Node) (hbreak : n.form = .breakStmt → Heeds R (breakStmt n))
    (haugmented : ∀ target op value, n.form = .augAssign target op value →
      Agrees R (augAssign r n target op value) (augAssign r' n target op value))
    (hfor : ∀ a b c d, n.form = .forStmt a b c d → Agrees R (forStmt r a b c d) (forStmt r' a b c d))
    (hwhile : ∀ a b c, n.form = .whileStmt a b c → Agrees R (whileStmt r a b c) (whileStmt r' a b c)) :
    Agrees R (construct r n) (construct r' n) := by
  unfold construct
  split <;> first
    | infer_instance
    | exact hbreak ‹_›
    | exact haugmented _ _ _ ‹_›
    | exact hfor _ _ _ _ ‹_›
    | exact hwhile _ _ _ ‹_›

end Statements

section Trees

omit hL hJ hD

instance (lower lower' : Node → Emit Unit) [∀ n, Agrees R (lower n) (lower' n)] (n : Node) :
    Agrees R (announced lower n) (announced lower' n) := by
  have hcurrent : Heeds R (modifyTree fun f => { f with current := if n.isAbsent then none else some n }) :=
    hN.note fun _ => rfl
  refine ⟨.bind (Agrees.agree : Agree R (print _) _ _) fun _ _ => ?_⟩
  refine .bind hcurrent.agree fun _ _ => ?_
  split <;> exact Agrees.agree

omit hC hN

instance [R.Plain] (n : Node) : Heeds R (breakStmt n) := by
  refine ⟨.read fun s => ?_⟩
  split <;> exact Agrees.agree

/-- The usage of a token can be replaced, and loops can be entered and left. -/
class Loops (R : Regime) : Prop where
  setReplaced (token : Option (Nat × Option Usage)) : Heeds R (setReplaced token)
  withExit (exit : BlockRef) [Inside R exit] {x y : Emit Unit} (h : Agrees R x y) :
    Agrees R (withExit exit x) (withExit exit y)
  breakStmt (n : Node) : Heeds R (breakStmt n)

/-- Where what is known of the exits of loops and of replaced usages may change. -/
theorem Loops.of_modifyTree (hreplaced : ∀ replaced, Heeds R (modifyTree fun f => { f with replaced }))
    (henter : ∀ exit, Inside R exit → Heeds R (modifyTree fun f => { f with exits := exit :: f.exits }))
    (hleave : Heeds R (modifyTree fun f => { f with exits := f.exits.tail })) (hbreak : ∀ n, Heeds R (Lower.breakStmt n)) :
    Loops R where
  setReplaced := hreplaced
  withExit exit hexit _ _ _ := by
    have := henter exit hexit
    unfold Lower.withExit
    infer_instance
  breakStmt := hbreak

instance [hR : R.Basic] : Loops R := by
  -- what is known of a lowering changes, but not the function that it is for
  have hmodify : ∀ {u : TreeFrame → TreeFrame}, (∀ f, (u f).entry = f.entry ∧ (u f).impl = f.impl ∧ (u f).scope = f.scope) →
      Heeds R (modifyTree u) := fun h =>
    heeds_modify fun s hs => hR.beside hs rfl rfl rfl (h s.tree).1 (h s.tree).2.1 (h s.tree).2.2 rfl rfl rfl
  exact .of_modifyTree (fun _ => hmodify fun _ => ⟨rfl, rfl, rfl⟩) (fun _ _ => hmodify fun _ => ⟨rfl, rfl, rfl⟩)
    (hmodify fun _ => ⟨rfl, rfl, rfl⟩) fun _ => inferInstance

variable [hS : Loops R]

instance (token : Option (Nat × Option Usage)) : Heeds R (setReplaced token) := hS.setReplaced token
instance (exit : BlockRef) [Inside R exit] (x y : Emit Unit) [h : Agrees R x y] :
    Agrees R (withExit exit x) (withExit exit y) := hS.withExit exit h

end Trees

section Visits

variable [R.Branches] [hS : Loops R]

instance (n : Node) : Agrees R (construct r n) (construct r' n) :=
  agrees_construct r r' n (fun _ => hS.breakStmt n) (fun _ _ _ _ => inferInstance) (fun _ _ _ _ _ => inferInstance)
    fun _ _ _ _ => inferInstance

instance (fuel : Nat) (n : Node) : Heeds R (lowerWithin fuel n) := by
  induction fuel generalizing n with
  | zero => exact inferInstanceAs (Heeds R (pure ()))
  | succ fuel ih =>
    have hvisit : ∀ n, Heeds R (Recur.visit ⟨announced (lowerWithin fuel)⟩ n) := fun n =>
      inferInstanceAs (Heeds R (announced (lowerWithin fuel) n))
    unfold lowerWithin
    infer_instance

instance (n : Node) : Heeds R (visit n) :=
  inferInstanceAs (Heeds R (announced (lowerWithin n.depth) n))

end Visits

end Lowering.Lower
