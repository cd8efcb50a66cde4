import Lowering.Proofs.Registration

/-!
Constructs that have no lowering. A tree is lowered only if the trees are that it needs, so a construct
without a lowering keeps the function in which it is needed, and with it the whole compilation, from being
completed.
-/
namespace Lowering

namespace Emit

variable {α β γ : Type}

/-- The action is never completed. -/
class Fails (x : Emit α) : Prop where
  ne_ok : ∀ {s s' : State} {a : α}, x s ≠ .ok a s'

instance (e : Fault) : Fails (throw e : Emit α) := ⟨throw_ne_ok⟩

theorem Fails.first {x : Emit α} {f : α → Emit β} (hx : Fails x) : Fails (x >>= f) where
  ne_ok h := by
    obtain ⟨a, s1, hok, -⟩ := bind_eq_ok.1 h
    exact hx.ne_ok hok

theorem Fails.later {x : Emit α} {f : α → Emit β} (hf : ∀ a, Fails (f a)) : Fails (x >>= f) where
  ne_ok h := by
    obtain ⟨a, s1, -, hok⟩ := bind_eq_ok.1 h
    exact (hf a).ne_ok hok

instance (x : Emit α) (f : α → Emit β) [Fails x] : Fails (x >>= f) := .first inferInstance
instance (x : Emit α) (f : α → Emit β) [∀ a, Fails (f a)] : Fails (x >>= f) := .later inferInstance

instance (c : Prop) [Decidable c] (x y : Emit α) [Fails x] [Fails y] : Fails (if c then x else y) := by
  split <;> assumption

theorem Fails.mapM {xs : List γ} {f : γ → Emit β} {x : γ} (hx : x ∈ xs) [Fails (f x)] : Fails (xs.mapM f) := by
  induction xs with
  | nil => cases hx
  | cons y xs ih =>
    rw [List.mapM_cons]
    rcases List.mem_cons.1 hx with rfl | hx
    · infer_instance
    · have := ih hx
      infer_instance

theorem Fails.forM {xs : List γ} {f : γ → Emit PUnit} {x : γ} (hx : x ∈ xs) [Fails (f x)] : Fails (xs.forM f) := by
  induction xs with
  | nil => cases hx
  | cons y xs ih =>
    change Fails (f y >>= fun _ => xs.forM f)
    rcases List.mem_cons.1 hx with rfl | hx
    · infer_instance
    · have := ih hx
      infer_instance

/-- A round of a loop after which the loop goes on. -/
class Continues (x : Emit (ForInStep PUnit)) : Prop where
  eq_yield : ∀ {s s' : State} {r : ForInStep PUnit}, x s = .ok r s' → r = .yield ⟨⟩

instance : Continues (pure (.yield ⟨⟩)) := ⟨fun h => (pure_eq_ok.1 h).1⟩

instance (x : Emit α) (f : α → Emit (ForInStep PUnit)) [hf : ∀ a, Continues (f a)] : Continues (x >>= f) where
  eq_yield h := by
    obtain ⟨a, s1, -, hok⟩ := bind_eq_ok.1 h
    exact (hf a).eq_yield hok

theorem Fails.forIn {xs : List γ} {f : γ → PUnit → Emit (ForInStep PUnit)} {x : γ} (hx : x ∈ xs)
    (hfail : Fails (f x ⟨⟩)) (hgo : ∀ y, Continues (f y ⟨⟩)) : Fails (forIn xs ⟨⟩ f) := by
  induction xs with
  | nil => cases hx
  | cons y xs ih =>
    rw [List.forIn_cons]
    rcases List.mem_cons.1 hx with rfl | hx
    · infer_instance
    · have hrest := ih hx
      refine ⟨fun h => ?_⟩
      obtain ⟨r, s1, hy, h⟩ := bind_eq_ok.1 h
      rw [(hgo y).eq_yield hy] at h
      exact hrest.ne_ok h

end Emit

namespace Node

/-- The nodes that stand in the place of a list. -/
def items (n : Node) : List Node := n.items?.getD []

/-- A node that may be left out. -/
def optional (n : Node) : List Node := if n.isAbsent then [] else [n]

variable {n m : Node}

theorem of_mem_optional (h : m ∈ n.optional) : m = n ∧ ¬n.isAbsent = true := by
  unfold optional at h
  split at h
  next => cases h
  next hpresent => exact ⟨List.mem_singleton.1 h, hpresent⟩

/-- What is needed of the function of a call: the object whose member it is. -/
def neededOfCallee (n : Node) : List Node :=
  match n.form with
  | .memberOf value .. => [value]
  | _ => []

def neededOfKeyword (n : Node) : List Node :=
  match n.form with
  | .keyword _ value => [value]
  | _ => []

def neededOfManager (n : Node) : List Node :=
  match n.form with
  | .withItem context _ => [context]
  | _ => []

def neededOfGenerator (n : Node) : List Node :=
  match n.form with
  | .comprehension _ iter ifs => iter :: ifs.items
  | _ => []

/-- What is needed of a comprehension with these elements. -/
def neededOfLoops (elements : List Node) (generators : Node) : List Node :=
  generators.items.flatMap neededOfGenerator ++ if generators.items.isEmpty then [] else elements

def isSequence (n : Node) : Bool :=
  match n.form with
  | .tuple .. | .list .. => true
  | _ => false

/-- Nodes below a node that have to be lowered for it to be lowered. -/
def needed (n : Node) : List Node :=
  match n.form with
  | .suite items => items
  | .memberOf value .. => [value]
  | .subscript value slice _ => [value, slice]
  | .list elts _ | .tuple elts _ | .set elts => elts.items
  | .dict keys values => values.items ++ keys.items.take values.items.length
  | .slice lower upper step => lower.optional ++ upper.optional ++ step.optional
  | .binOp left _ right => [left, right]
  | .unaryOp _ operand => [operand]
  | .boolOp _ values => values.items
  | .compare left _ comparators => left :: comparators.items
  | .call func args keywords => neededOfCallee func ++ keywords.items.flatMap neededOfKeyword ++ args.items
  | .namedExpr target value => [value, target]
  | .listComp elt generators | .setComp elt generators => neededOfLoops [elt] generators
  | .dictComp key value generators => neededOfLoops [key, value] generators
  | .comprehension _ iter _ => [iter]
  | .expr value | .expression value => [value]
  | .assign targets value => value :: if targets.items.any isSequence then [] else [targets]
  | .annAssign target _ value => if value.isAbsent then [] else [value, target]
  | .augAssign target _ value => [target, value]
  | .delete targets => targets.items
  | .ret value => value.optional
  | .ifStmt test body orelse | .whileStmt test body orelse => test :: body :: orelse.optional
  | .forStmt _ iter body orelse => iter :: body :: orelse.optional
  | .withStmt items body => body :: items.items.flatMap neededOfManager
  | .functionDef _ _ body _ _ => [body]
  | .starred .. | .keyword .. | .withItem .. | .other .. => n.children
  | _ => []

/-- A construct that cannot be lowered. -/
def isRejected (n : Node) : Bool :=
  match n.form with
  | .yield _ | .yieldFrom _ | .importStmt _ | .importFrom _ | .raise .. | .assert .. | .ifExp .. => true
  | _ => false

/-- A construct that cannot be lowered has to be. -/
inductive Blocked : Node → Prop
  | rejected {n : Node} (h : n.isRejected = true) : Blocked n
  | needs {n m : Node} (hm : m ∈ n.needed) (h : Blocked m) : Blocked n

theorem depth_of_mem_items (h : m ∈ n.items) : m.depth ≤ n.depth := by
  obtain ⟨mark, form⟩ := n
  cases form with
  | suite items => exact Nat.le_trans (depth_le_listDepth h) (Nat.le_succ _)
  | plain className label =>
    cases htext : label.text? with
    | none => simp [items, items?, form, htext] at h
    | some text =>
      simp only [items, items?, form, htext, Option.map_some, Option.getD_some, List.mem_map] at h
      obtain ⟨c, -, rfl⟩ := h
      exact Nat.le_refl _
  | _ => cases h

theorem depth_of_mem_optional (h : m ∈ n.optional) : m.depth ≤ n.depth := by
  exact Nat.le_of_eq (congrArg depth (of_mem_optional h).1)

theorem depth_of_neededOfCallee (h : m ∈ n.neededOfCallee) : m.depth ≤ n.depth := by
  obtain ⟨mark, form⟩ := n
  cases form with
  | memberOf value attr usage =>
    obtain rfl := List.mem_singleton.1 h
    exact Nat.le_succ _
  | _ => cases h

theorem depth_of_neededOfKeyword (h : m ∈ n.neededOfKeyword) : m.depth ≤ n.depth := by
  obtain ⟨mark, form⟩ := n
  cases form with
  | keyword name value =>
    obtain rfl := List.mem_singleton.1 h
    exact Nat.le_succ _
  | _ => cases h

theorem depth_of_neededOfManager (h : m ∈ n.neededOfManager) : m.depth ≤ n.depth := by
  obtain ⟨mark, form⟩ := n
  cases form with
  | withItem context binding =>
    obtain rfl := List.mem_singleton.1 h
    simp only [depth, formDepth]
    omega
  | _ => cases h

theorem depth_of_neededOfGenerator (h : m ∈ n.neededOfGenerator) : m.depth ≤ n.depth := by
  obtain ⟨mark, form⟩ := n
  cases form with
  | comprehension target iter ifs =>
    simp only [depth, formDepth]
    rcases List.mem_cons.1 h with rfl | h
    · omega
    · have := depth_of_mem_items h
      omega
  | _ => cases h

/-- What is needed of the items of a node is no deeper than the node. -/
theorem depth_of_mem_flatMap {f : Node → List Node} (hf : ∀ {n m : Node}, m ∈ f n → m.depth ≤ n.depth)
    (h : m ∈ n.items.flatMap f) : m.depth ≤ n.depth := by
  obtain ⟨k, hk, h⟩ := List.mem_flatMap.1 h
  exact Nat.le_trans (hf h) (depth_of_mem_items hk)

theorem of_mem_neededOfLoops {elements : List Node} (h : m ∈ neededOfLoops elements n) :
    m.depth ≤ n.depth ∨ m ∈ elements := by
  rcases List.mem_append.1 h with h | h
  · exact .inl (depth_of_mem_flatMap depth_of_neededOfGenerator h)
  · split at h
    next => cases h
    next => exact .inr h

theorem depth_lt_of_needed (h : m ∈ n.needed) : m.depth < n.depth := by
  have hitems := @depth_of_mem_items
  have hoptional := @depth_of_mem_optional
  obtain ⟨mark, form⟩ := n
  cases form with
  | suite items => exact Nat.lt_succ_of_le (depth_le_listDepth h)
  | call func args keywords =>
    simp only [needed, form, depth, formDepth, List.mem_append] at h ⊢
    rcases h with (h | h) | h
    · have := depth_of_neededOfCallee h
      omega
    · have := depth_of_mem_flatMap depth_of_neededOfKeyword h
      omega
    · have := depth_of_mem_items h
      omega
  | listComp elt generators | setComp elt generators =>
    simp only [depth, formDepth]
    rcases of_mem_neededOfLoops h with h | h
    · omega
    · obtain rfl := List.mem_singleton.1 h
      omega
  | dictComp key value generators =>
    simp only [depth, formDepth]
    rcases of_mem_neededOfLoops h with h | h
    · omega
    · rcases List.mem_pair.1 h with rfl | rfl <;> omega
  | withStmt items body =>
    simp only [depth, formDepth]
    rcases List.mem_cons.1 h with rfl | h
    · omega
    · have := depth_of_mem_flatMap depth_of_neededOfManager h
      omega
  | starred value usage =>
    exact depth_lt_of_mem_children h (Nat.succ_lt_succ value.one_lt_depth)
  | keyword name value =>
    exact depth_lt_of_mem_children h (Nat.succ_lt_succ value.one_lt_depth)
  | withItem context binding =>
    refine depth_lt_of_mem_children h (Nat.succ_lt_succ ?_)
    exact Nat.lt_of_lt_of_le context.one_lt_depth (Nat.le_max_left ..)
  | other className children =>
    cases children with
    | nil => cases h
    | cons c rest =>
      refine depth_lt_of_mem_children h (Nat.succ_lt_succ ?_)
      exact Nat.lt_of_lt_of_le c.one_lt_depth (Nat.le_max_left ..)
  | _ =>
    simp only [needed, form, depth, formDepth] at h ⊢
    grind

end Node

namespace Lower

open Emit

set_option synthInstance.maxSize 10000000000000000000

variable {r : Recur} {m : Node}

instance [Fails (r.visit m)] : Fails (r.term m) := by
  unfold Recur.term
  infer_instance

variable {n : Node}

theorem fails_each {β : Type} {k : List Node → Emit β} (h : Fails (k n.items)) : Fails (each n >>= k) := by
  unfold Lower.each
  cases hitems : n.items? with
  | none => infer_instance
  | some items =>
    rw [Node.items, hitems] at h
    rwa [pure_bind]

section Rules

variable [Fails (r.visit m)]

variable {elts node generators value body : Node}

theorem fails_elements (hm : m ∈ elts.items) : Fails (elements r elts) := by
  refine fails_each ?_
  exact Fails.mapM hm

theorem fails_list (hm : m ∈ elts.items) : Fails (list r elts) := by
  have := fails_elements (r := r) hm
  unfold list
  infer_instance

theorem fails_tuple (hm : m ∈ elts.items) : Fails (tuple r elts) := by
  have := fails_elements (r := r) hm
  unfold tuple
  infer_instance

theorem fails_set (hm : m ∈ elts.items) : Fails (set r elts) := by
  unfold set
  refine .later fun _ => .later fun _ => .later fun _ => fails_each ?_
  exact .first (Fails.forIn hm inferInstance fun _ => inferInstance)

theorem fails_dict {keys values : Node} (hm : m ∈ values.items ++ keys.items.take values.items.length) :
    Fails (dict r keys values) := by
  unfold dict
  refine .later fun _ => fails_each (.first ?_)
  have hround : ∃ e ∈ values.items.zipIdx, m = e.1 ∨ keys.items[e.2]? = some m := by
    rcases List.mem_append.1 hm with hvalue | hkey
    · obtain ⟨i, hi⟩ := List.getElem?_of_mem hvalue
      exact ⟨(m, i), List.mem_zipIdx_iff_getElem?.2 hi, .inl rfl⟩
    · obtain ⟨i, hi⟩ := List.getElem?_of_mem hkey
      rw [List.getElem?_take] at hi
      split at hi
      next hlt =>
        exact ⟨(values.items[i], i), List.mem_zipIdx_iff_getElem?.2 (List.getElem?_eq_getElem hlt), .inr hi⟩
      next => cases hi
  obtain ⟨⟨value, i⟩, he, hneeds⟩ := hround
  refine Fails.forIn he ?_ fun _ => inferInstance
  rcases hneeds with rfl | hkey
  · infer_instance
  · refine fails_each ?_
    rw [hkey]
    simp only [expect, pure_bind]
    infer_instance

theorem fails_slice {lower upper step : Node} (hm : m ∈ lower.optional ++ upper.optional ++ step.optional) :
    Fails (slice r lower upper step) := by
  have hpart : ∀ {part : Node}, m ∈ part.optional → Fails (slicePart r part) := by
    intro part hm
    obtain ⟨rfl, hpresent⟩ := Node.of_mem_optional hm
    unfold slicePart
    rw [if_neg hpresent]
    infer_instance
  unfold slice
  rcases List.mem_append.1 hm with hm | hm
  · rcases List.mem_append.1 hm with hm | hm
    · exact .first (hpart hm)
    · exact .later fun _ => .first (hpart hm)
  · exact .later fun _ => .later fun _ => .first (hpart hm)

theorem fails_boolOp {op : Option Operator} {values : Node} (hm : m ∈ values.items) : Fails (boolOp r op values) := by
  unfold boolOp
  exact fails_each (.first (Fails.mapM hm))

theorem fails_compare {left comparators : Node} {ops : Option (List (Option Operator))}
    (hm : m ∈ left :: comparators.items) : Fails (compare r left ops comparators) := by
  unfold compare compareTerm
  exact .first (fails_each (.first (Fails.mapM hm)))

theorem fails_callee {func : Node} (hm : m ∈ func.neededOfCallee) : Fails (callee r func) := by
  unfold Node.neededOfCallee at hm
  unfold callee
  generalize func.form = form at hm
  cases form with
  | memberOf value attr usage =>
    obtain rfl := List.mem_singleton.1 hm
    infer_instance
  | _ => cases hm

theorem fails_keywordArg {keyword : Node} (hm : m ∈ keyword.neededOfKeyword) : Fails (keywordArg r keyword) := by
  unfold Node.neededOfKeyword at hm
  unfold keywordArg
  generalize keyword.form = form at hm
  cases form with
  | keyword name value =>
    obtain rfl := List.mem_singleton.1 hm
    infer_instance
  | _ => cases hm

theorem fails_callExpr {func args keywords : Node}
    (hm : m ∈ func.neededOfCallee ++ keywords.items.flatMap Node.neededOfKeyword ++ args.items) :
    Fails (callExpr r func args keywords) := by
  unfold callExpr
  rcases List.mem_append.1 hm with hm | hm
  · rcases List.mem_append.1 hm with hm | hm
    · exact .first (fails_callee hm)
    · obtain ⟨keyword, hkeyword, hm⟩ := List.mem_flatMap.1 hm
      have := fails_keywordArg (r := r) hm
      exact .later fun _ => .later fun _ => fails_each (.first (Fails.mapM hkeyword))
  · refine .later fun _ => .later fun _ => .later fun _ => .later fun _ => fails_each (.first ?_)
    exact Fails.mapM hm

theorem fails_openLoop {generator : Node} {done : BlockRef} (hm : m ∈ generator.neededOfGenerator) :
    Fails (openLoop r node generator done) := by
  unfold Node.neededOfGenerator at hm
  unfold openLoop
  generalize generator.form = form at hm
  cases form with
  | comprehension target iter ifs =>
    rcases List.mem_cons.1 hm with rfl | hm
    · infer_instance
    · have hguard : ∀ loop : BlockRef, Fails (guardBy r loop m) := by
        intro loop
        unfold guardBy
        infer_instance
      have hloop : ∀ loop : BlockRef, Fails (do
          for test in ← each ifs do
            guardBy r loop test
          return loop) := fun loop =>
        fails_each (.first (Fails.forIn hm (.first (hguard loop)) fun _ => inferInstance))
      infer_instance
  | _ => cases hm

theorem fails_openLoops {action : Emit Unit} {generators : List Node} {done : BlockRef}
    (h : (∃ g ∈ generators, m ∈ g.neededOfGenerator) ∨ generators ≠ [] ∧ Fails action) :
    Fails (openLoops r node action generators done) := by
  induction generators generalizing done with
  | nil => simp at h
  | cons g rest ih =>
    cases rest with
    | nil =>
      unfold openLoops
      rcases h with ⟨g', hg', hm⟩ | ⟨-, haction⟩
      · obtain rfl := List.mem_singleton.1 hg'
        exact .first (fails_openLoop hm)
      · infer_instance
    | cons g' rest =>
      unfold openLoops
      rcases h with ⟨g'', hg'', hm⟩ | ⟨-, haction⟩
      · rcases List.mem_cons.1 hg'' with rfl | hg''
        · exact .first (fails_openLoop hm)
        · exact .later fun _ => ih (.inl ⟨g'', hg'', hm⟩)
      · exact .later fun _ => ih (.inr ⟨by simp, haction⟩)

theorem fails_comprehend {action : Emit Unit} {elements : List Node}
    (hm : m ∈ Node.neededOfLoops elements generators) (haction : m ∈ elements → Fails action) :
    Fails (comprehend r node generators action) := by
  unfold comprehend
  refine .later fun done => fails_each (.first (fails_openLoops (m := m) ?_))
  rcases List.mem_append.1 hm with hm | hm
  · obtain ⟨g, hg, hm⟩ := List.mem_flatMap.1 hm
    exact .inl ⟨g, hg, hm⟩
  · split at hm
    next => cases hm
    next hne => exact .inr ⟨by simpa using hne, haction hm⟩

theorem fails_listComp {elt : Node} (hm : m ∈ Node.neededOfLoops [elt] generators) :
    Fails (listComp r node elt generators) := by
  unfold listComp
  refine .later fun _ => .later fun list => .first (fails_comprehend hm fun hm => ?_)
  obtain rfl := List.mem_singleton.1 hm
  infer_instance

theorem fails_setComp {elt : Node} (hm : m ∈ Node.neededOfLoops [elt] generators) :
    Fails (setComp r node elt generators) := by
  unfold setComp
  refine .later fun _ => .later fun _ => .later fun set => .first (fails_comprehend hm fun hm => ?_)
  obtain rfl := List.mem_singleton.1 hm
  infer_instance

theorem fails_dictComp {key : Node} (hm : m ∈ Node.neededOfLoops [key, value] generators) :
    Fails (dictComp r node key value generators) := by
  unfold dictComp
  refine .later fun dict => .first (fails_comprehend hm fun hm => ?_)
  rcases List.mem_pair.1 hm with rfl | rfl <;> infer_instance

theorem fails_generator {target : Node} : Fails (generator r target m) := by
  unfold generator
  generalize target.form = form
  cases form <;> infer_instance

theorem fails_assignStmt {targets : Node}
    (hm : m ∈ value :: if targets.items.any Node.isSequence then [] else [targets]) :
    Fails (assignStmt r node targets value) := by
  unfold assignStmt
  rcases List.mem_cons.1 hm with rfl | hm
  · infer_instance
  · split at hm
    next => cases hm
    next hplain =>
      obtain rfl := List.mem_singleton.1 hm
      refine .later fun _ => fails_each ?_
      cases hfirst : m.items.head? with
      | none => exact .first (inferInstanceAs (Fails (throw .outOfRange : Emit Node)))
      | some first =>
        have hplaces : assignPlaces first = pure none := by
          have hnot : first.isSequence = false := by
            simp only [List.any_eq_true, not_exists, not_and, Bool.not_eq_true] at hplain
            exact hplain first (List.mem_of_head? hfirst)
          unfold Node.isSequence at hnot
          unfold assignPlaces
          generalize first.form = form at hnot
          cases form <;> first | rfl | cases hnot
        simp only [expect, pure_bind, hplaces]
        infer_instance

theorem fails_annAssign {target : Node} (hm : m ∈ if value.isAbsent then [] else [value, target]) :
    Fails (annAssign r target value) := by
  unfold annAssign
  split at hm
  next => cases hm
  next hpresent =>
    rw [if_neg hpresent]
    rcases List.mem_pair.1 hm with rfl | rfl <;> infer_instance

theorem fails_returnStmt (hm : m ∈ value.optional) : Fails (returnStmt r value) := by
  unfold returnStmt
  obtain ⟨rfl, hpresent⟩ := Node.of_mem_optional hm
  rw [if_neg hpresent]
  infer_instance

theorem fails_ifStmt {test orelse : Node} (hm : m ∈ test :: body :: orelse.optional) :
    Fails (ifStmt r test body orelse) := by
  unfold ifStmt
  rcases List.mem_cons.1 hm with rfl | hm
  · infer_instance
  rcases List.mem_cons.1 hm with rfl | hm
  · infer_instance
  obtain ⟨rfl, hpresent⟩ := Node.of_mem_optional hm
  simp only [if_neg hpresent]
  infer_instance

instance {exit : BlockRef} {x : Emit Unit} [Fails x] : Fails (withExit exit x) := by
  unfold withExit
  infer_instance

theorem fails_whileStmt {test orelse : Node} (hm : m ∈ test :: body :: orelse.optional) :
    Fails (whileStmt r test body orelse) := by
  unfold whileStmt
  rcases List.mem_cons.1 hm with rfl | hm
  · infer_instance
  rcases List.mem_cons.1 hm with rfl | hm
  · infer_instance
  obtain ⟨rfl, hpresent⟩ := Node.of_mem_optional hm
  simp only [if_neg hpresent, bind_map_left]
  infer_instance

theorem fails_forStmt {target iter orelse : Node} (hm : m ∈ iter :: body :: orelse.optional) :
    Fails (forStmt r target iter body orelse) := by
  unfold forStmt
  rcases List.mem_cons.1 hm with rfl | hm
  · infer_instance
  rcases List.mem_cons.1 hm with rfl | hm
  · infer_instance
  obtain ⟨rfl, hpresent⟩ := Node.of_mem_optional hm
  simp only [if_neg hpresent, bind_map_left]
  infer_instance

theorem fails_withItem {item : Node} (hm : m ∈ item.neededOfManager) : Fails (withItem r node item) := by
  unfold Node.neededOfManager at hm
  unfold withItem
  generalize item.form = form at hm
  cases form with
  | withItem context binding =>
    obtain rfl := List.mem_singleton.1 hm
    infer_instance
  | _ => cases hm

theorem fails_withStmt {items : Node} (hm : m ∈ body :: items.items.flatMap Node.neededOfManager) :
    Fails (withStmt r node items body) := by
  unfold withStmt
  rcases List.mem_cons.1 hm with rfl | hm
  · infer_instance
  · obtain ⟨item, hitem, hm⟩ := List.mem_flatMap.1 hm
    have : Fails (withItem r node item) := fails_withItem hm
    exact fails_each (.first (Fails.mapM hitem))

/-- A construct is lowered only if what it needs is. -/
theorem fails_construct {n : Node} (hm : m ∈ n.needed) : Fails (construct r n) := by
  unfold Node.needed at hm
  unfold construct
  generalize n.form = form at hm
  cases form with
  | suite items => infer_instance
  | memberOf value attr usage =>
    obtain rfl := List.mem_singleton.1 hm
    unfold memberOf
    infer_instance
  | subscript value slice usage =>
    unfold subscript
    rcases List.mem_pair.1 hm with rfl | rfl <;> infer_instance
  | list elts usage => exact fails_list hm
  | tuple elts usage => exact fails_tuple hm
  | set elts => exact fails_set hm
  | dict keys values => exact fails_dict hm
  | slice lower upper step => exact fails_slice hm
  | binOp left op right =>
    unfold binOp
    rcases List.mem_pair.1 hm with rfl | rfl <;> infer_instance
  | unaryOp op operand =>
    obtain rfl := List.mem_singleton.1 hm
    unfold unaryOp
    infer_instance
  | boolOp op values => exact fails_boolOp hm
  | compare left ops comparators => exact fails_compare hm
  | call func args keywords => exact fails_callExpr hm
  | namedExpr target value =>
    unfold namedExpr
    rcases List.mem_pair.1 hm with rfl | rfl <;> infer_instance
  | listComp elt generators => exact fails_listComp hm
  | setComp elt generators => exact fails_setComp hm
  | dictComp key value generators => exact fails_dictComp hm
  | comprehension target iter ifs =>
    obtain rfl := List.mem_singleton.1 hm
    exact fails_generator
  | expr value =>
    obtain rfl := List.mem_singleton.1 hm
    unfold exprStmt
    infer_instance
  | expression value =>
    obtain rfl := List.mem_singleton.1 hm
    unfold expression
    infer_instance
  | assign targets value => exact fails_assignStmt hm
  | annAssign target declared value => exact fails_annAssign hm
  | augAssign target op value =>
    unfold augAssign
    rcases List.mem_pair.1 hm with rfl | rfl <;> infer_instance
  | delete targets => exact fails_each (Fails.forM hm)
  | ret value => exact fails_returnStmt hm
  | ifStmt test body orelse => exact fails_ifStmt hm
  | whileStmt test body orelse => exact fails_whileStmt hm
  | forStmt target iter body orelse => exact fails_forStmt hm
  | withStmt items body => exact fails_withStmt hm
  | functionDef name args body decorators returns =>
    obtain rfl := List.mem_singleton.1 hm
    infer_instance
  | starred | keyword | withItem | other => exact Fails.forM hm
  | _ => cases hm

end Rules

theorem fails_of_isRejected (h : n.isRejected = true) : Fails (construct r n) := by
  unfold Node.isRejected at h
  unfold construct
  generalize n.form = form at h
  cases form <;> first | infer_instance | cases h

theorem fails_announced {lower : Node → Emit Unit} (hsuite : ∀ items, n.form ≠ .suite items)
    [Fails (lower n)] : Fails (announced lower n) := by
  unfold announced
  generalize n.form = form at hsuite
  cases form with
  | suite items => exact absurd rfl (hsuite items)
  | _ => infer_instance

theorem fails_announced_suite {lower : Node → Emit Unit} {items : List Node} (hform : n.form = .suite items)
    (hm : m ∈ items) [Fails (lower m)] : Fails (announced lower n) := by
  unfold announced
  rw [hform]
  exact .later fun _ => .later fun _ => Fails.forM hm

/-- A tree that is blocked cannot be lowered, neither on its own nor as an item of a list. -/
theorem fails_of_blocked (h : n.Blocked) {fuel : Nat} (hfuel : n.depth ≤ fuel) :
    Fails (announced (lowerWithin fuel) n) ∧ Fails (lowerWithin fuel n) := by
  induction h generalizing fuel with
  | @rejected n h =>
    obtain ⟨k, rfl⟩ := Nat.exists_eq_add_one_of_ne_zero (Nat.pos_iff_ne_zero.1 (Nat.lt_of_lt_of_le n.depth_pos hfuel))
    have hlower : Fails (lowerWithin (k + 1) n) := fails_of_isRejected h
    refine ⟨fails_announced fun items hform => ?_, hlower⟩
    rw [Node.isRejected, hform] at h
    cases h
  | @needs n m hm h ih =>
    obtain ⟨k, rfl⟩ := Nat.exists_eq_add_one_of_ne_zero (Nat.pos_iff_ne_zero.1 (Nat.lt_of_lt_of_le n.depth_pos hfuel))
    have hless := Node.depth_lt_of_needed hm
    have hvisit : Fails (Recur.visit ⟨announced (lowerWithin k)⟩ m) := (ih (by omega)).1
    have hitem : Fails (lowerWithin (k + 1) m) := (ih (by omega)).2
    have hlower : Fails (lowerWithin (k + 1) n) := fails_construct hm
    refine ⟨?_, hlower⟩
    by_cases hsuite : ∃ items, n.form = .suite items
    · obtain ⟨items, hform⟩ := hsuite
      rw [Node.needed, hform] at hm
      exact fails_announced_suite hform hm
    · exact fails_announced fun items hform => hsuite ⟨items, hform⟩

theorem fails_visit (h : n.Blocked) : Fails (visit n) := (fails_of_blocked h (Nat.le_refl _)).1

end Lower

namespace Compile

open Emit

variable {s s' start : State} {file : Nat} {node : Node} {modules : List (String × Node)} {output : String}

theorem not_blocked_of_compileFunction (hs : Waiting s) (h : compileFunction file node s = .ok () s') :
    ¬node.Blocked := by
  intro hblocked
  obtain ⟨s1, s2, s3, -, -, hadded, hfirst, -⟩ := compileFunction_eq_ok hs h
  obtain ⟨⟨hstatus, t, hlower, -⟩, -⟩ := hadded.pass hfirst
  obtain ⟨t1, t2, -, -, d, hstart, hparent, hvisit, -⟩ := Lower.lowerImpl_eq_ok.1 hlower
  obtain ⟨⟨f, himpls⟩, hdefinitions⟩ := Lower.start_keeps (rested_begun hadded.waiting.rested _)
    (hadded.waiting.code_begun hstatus) hstart
  have hd : d = s.definitions.size := by
    simp only [himpls, begun, Array.getElem?_modify, if_true, hadded.tuple, Option.map_some, Option.getD_some,
      Option.some.injEq] at hparent
    exact hparent.symm
  have hnode : (t1.definitions[d]?.getD default).node = node := by
    rw [hdefinitions, hd]
    simp only [begun, hadded.definitions, Array.getElem?_push_size, Option.getD_some]
  rw [hnode] at hvisit
  exact (Lower.fails_visit hblocked).ne_ok hvisit

namespace Compiled

variable {done : List (Nat × Node)}

theorem not_blocked_of_compileFile (h : Compiled start done s) (hok : Compile.compileFile file s = .ok () s') :
    ∀ node ∈ fileFunctions start file, ¬node.Blocked := by
  rw [compileFile_run, h.fileFunctions_eq] at hok
  refine (of_forEach (fun ns s => Waiting s ∧ ∀ node ∈ ns, ¬node.Blocked) ?_ ⟨h.waiting, by simp⟩ hok).2
  rintro ns node s s' ⟨hs, hns⟩ hnode
  refine ⟨(compileFunction_entered hs hnode).waiting, fun n hn => ?_⟩
  rcases List.mem_append.1 hn with hn | hn
  · exact hns n hn
  · obtain rfl := List.mem_singleton.1 hn
    exact not_blocked_of_compileFunction hs hnode

theorem not_blocked (h : Compiled start [] s) {entries : List (String × Nat)}
    (hok : (do for e in entries do Compile.compileFile e.2 : Emit Unit) s = .ok () s') :
    ∀ e ∈ entries, ∀ node ∈ fileFunctions start e.2, ¬node.Blocked := by
  refine (of_forEach (fun es s => (∃ done, Compiled start done s) ∧
    ∀ e ∈ es, ∀ node ∈ fileFunctions start e.2, ¬node.Blocked) ?_ ⟨⟨[], h⟩, by simp⟩ hok).2
  rintro es e s s' ⟨⟨done, hs⟩, hes⟩ hfile
  refine ⟨⟨_, hs.compileFile hfile⟩, fun e' he' => ?_⟩
  rcases List.mem_append.1 he' with he' | he'
  · exact hes e' he'
  · obtain rfl := List.mem_singleton.1 he'
    exact hs.not_blocked_of_compileFile hfile

end Compiled

/-- The files of a run that has been completed have been gone through. -/
theorem exists_files_run {bytes : Option Bytes} (h : run s = .ok bytes s') :
    ∃ t, (do for e in s.fileTable.toList do compileFile e.2 : Emit Unit) s = .ok () t := by
  rw [run, get_bind_run, ← Array.forIn_toList] at h
  obtain ⟨_, s1, hfiles, -⟩ := bind_eq_ok.1 h
  exact ⟨s1, bind_eq_ok.2 ⟨⟨⟩, s1, hfiles, rfl⟩⟩

/-- A construct without a lowering that is needed in one function of a listed module keeps the modules from
being compiled. -/
theorem compile_ne_ok_of_blocked {source : SourceFile} (hsource : source ∈ listed (modules.map moduleFile))
    (hnode : node ∈ (source.tree.map Node.outermost).getD []) (hblocked : node.Blocked) (bytes : Option Bytes)
    (s' : State) : compile (modules.map moduleFile) { ready with output } ≠ .ok bytes s' := by
  intro h
  obtain ⟨start, -, hl, hnil, hrun⟩ := exists_loaded h
  obtain ⟨t, hfilesRun⟩ := exists_files_run hrun
  have hentry : some source ∈ start.fileTable.toList.map fun e => start.files[e.2]? := by
    rw [hl.map_files]
    exact List.mem_map_of_mem hsource
  obtain ⟨e, he, hfile⟩ := List.mem_map.1 hentry
  refine hnil.not_blocked hfilesRun e he node ?_ hblocked
  have hfunctions : Node.functions = Node.outermost := funext Node.functions_eq_outermost
  rw [fileFunctions, hfile, hfunctions]
  exact hnode

/-- A generator function beside one that can be compiled. -/
def generatorModules (body : List Node) : List (String × Node) :=
  [("a.py", .mk {} (.other "Module" [.group [plainFunction "f" [] body,
    plainFunction "g" [] [.mk {} (.ret (.mk {} (.constant (.int 1))))]]]))]

def yieldStmt : Node := .mk {} (.expr (.mk {} (.yield (.mk {} (.constant (.int 1))))))

/-- The generator keeps both from being compiled, unless the yield stands in a try statement, which is passed
over: then both are. -/
theorem generatorModules_rejected :
    (∀ bytes s', compile ((generatorModules [yieldStmt]).map moduleFile) { ready with output := "a.o" } ≠
      .ok bytes s') ∧
    ∃ bytes s', compile ((generatorModules [.mk {} (.tryStmt [.group [yieldStmt]])]).map moduleFile)
      { ready with output := "a.o" } = .ok (some bytes) s' ∧ s'.definitions.size = 2 := by
  constructor
  · have hsource : moduleFile ((generatorModules [yieldStmt]).head (by decide)) ∈
        listed ((generatorModules [yieldStmt]).map moduleFile) :=
      List.mem_filterMap.2 ⟨"a.py", by decide, rfl⟩
    have hnode : plainFunction "f" [] [yieldStmt] ∈ Node.outermost ((generatorModules [yieldStmt]).head (by decide)).2 := by
      rw [← Node.functions_eq_outermost]
      exact List.mem_cons_self
    refine compile_ne_ok_of_blocked hsource hnode ?_
    exact .needs (List.mem_singleton.2 rfl) (.needs (List.mem_singleton.2 rfl)
      (.needs (List.mem_singleton.2 rfl) (.rejected rfl)))
  · obtain ⟨bytes, s', h, hsize⟩ := exists_of_endsWith
      (r := compile ((generatorModules [.mk {} (.tryStmt [.group [yieldStmt]])]).map moduleFile)
        { ready with output := "a.o" }) (P := fun s => s.definitions.size == 2) (by decide +kernel)
    exact ⟨bytes, s', h, beq_iff_eq.1 hsize⟩

end Compile
end Lowering
