import Lowering.Proofs.Comprehension
import Lowering.Proofs.FreshValues

/-!
Augmented assignments. The token that is read and written is looked for in the whole statement, and the last one that
is written is taken: the target only if the value writes nothing. A target that is taken is evaluated three times, to
pass over it, to read it and to write it, and what is read and what is written are different evaluations.
-/
namespace Lowering

namespace Node

def isWritten (n : Node) : Bool := n.usage = some .store

/-- The written tokens of a tree that stand in no other, in pre-order. -/
def written (n : Node) : List Node :=
  ((n.withAncestors []).filter fun e => e.2.isWritten && !e.1.any isWritten).map Prod.snd

theorem storedTokens_eq_written (n : Node) : n.storedTokens Node.usage = n.written := by
  refine walk_eq_filter (p := isWritten) (fun n => ?_) n rfl
  rw [storedTokens_eq]
  simp only [isWritten, decide_eq_true_eq]

theorem written_eq (n : Node) : n.written = if n.isWritten then [n] else n.children.flatMap written := by
  have hwalk : storedTokens Node.usage = written := funext storedTokens_eq_written
  rw [← hwalk, storedTokens_eq]
  simp only [isWritten, decide_eq_true_eq]

theorem mem_preorder_of_mem_written {n m : Node} (h : m ∈ n.written) : m ∈ n.preorder := by
  rw [← map_snd_withAncestors [] n]
  exact List.map_subset _ (List.filter_subset_self _) h

/-- A tree with a written token has one that stands in no other. -/
theorem written_eq_nil_iff (n : Node) : n.written = [] ↔ ∀ m ∈ n.preorder, m.isWritten = false := by
  induction hr : n.rank using Nat.strongRecOn generalizing n with
  | ind r ih =>
    rw [written_eq, preorder_eq]
    cases hn : n.isWritten with
    | true => simp [hn]
    | false =>
      have hchildren : ∀ c ∈ n.children, c.written = [] ↔ ∀ m ∈ c.preorder, m.isWritten = false := fun c hc =>
        ih c.rank (hr ▸ rank_lt_of_mem_children hc) c rfl
      simp only [Bool.false_eq_true, if_false, List.flatMap_eq_nil_iff, List.forall_mem_cons, hn, true_and,
        List.mem_flatMap, forall_exists_index, and_imp]
      constructor
      · intro h m c hc hm
        exact (hchildren c hc).1 (h c hc) m hm
      · intro h c hc
        exact (hchildren c hc).2 fun m hm => h m c hc hm

theorem children_augAssign {n target value : Node} {op : Option Operator} (hn : n.form = .augAssign target op value)
    (htarget : target.isConstruct = true) (hvalue : value.isConstruct = true) :
    n.children = target :: (op.toList.map fun o => leaf o.className) ++ [value] := by
  have hfields : n.children =
      ((target :: (op.toList.map fun o => leaf o.className) ++ [value]).flatMap parts).filter isConstruct := by
    obtain ⟨mark, form⟩ := n
    cases hn
    cases op <;> rfl
  have hparts : ∀ m : Node, m.isConstruct = true → m.parts = [m] := by
    intro m hm
    unfold parts
    split
    · simp_all [isConstruct]
    · rfl
  have hleaf : ∀ className, (leaf className).isConstruct = true := fun _ => rfl
  rw [hfields]
  cases op <;> simp [hparts, htarget, hvalue, hleaf]

/-- The token of an augmented assignment is the last one that the value writes, else the target. -/
theorem findStored?_augAssign {n target value : Node} {op : Option Operator} (hn : n.form = .augAssign target op value)
    (hself : n.isWritten = false) (htarget : target.isConstruct = true) (hstore : target.isWritten = true)
    (hvalue : value.isConstruct = true) : n.findStored? Node.usage = some (value.written.getLast?.getD target) := by
  have hleaf : ∀ className, (leaf className).written = [] := fun className => by
    rw [written_eq, children_leaf]
    rfl
  rw [findStored?, storedTokens_eq_written, written_eq, hself, children_augAssign hn htarget hvalue]
  have hops : (op.toList.map fun o => leaf o.className).flatMap written = [] := by simp [hleaf]
  rw [if_neg (by decide), List.flatMap_append, List.flatMap_cons, hops, List.append_nil, List.flatMap_singleton,
    written_eq target, hstore, if_pos rfl]
  cases h : value.written.getLast? with
  | none => simp [List.getLast?_eq_none_iff.1 h]
  | some token => rw [List.getLast?_append, h]; rfl

end Node

namespace Lower

open Emit

/-- Operates on a value that was read; the result is what is assigned from then on. Gives the other operand. -/
def operate (r : Recur) (op : Option Operator) (left : Term) (value : Node) : Emit Term := do
  retain left.type left.value
  resetLast
  let right ← r.term value
  let result ← callObjects (← operatorFunction Operator.inPlaceFunction? op) [left.value, right.value]
  setAssigned ⟨some .python, result⟩
  return right

/-- Gives the operands up and retains what was assigned. -/
def settle (left right : Term) : Emit Unit := do
  releaseRetained left.type left.value
  releaseRetained right.type right.value
  let t ← assigned
  retain t.type t.value

/-- Reads a token, operates on what was read, and writes the result to the token. `base` is what the target left, and
`old` the token whose usage was replaced before. -/
def applyThrough (r : Recur) (token : Node) (base : Term) (old : Option (Nat × Option Usage)) (op : Option Operator)
    (value : Node) : Emit Unit := do
  setReplaced (some (token.mark.key, some .load))
  let left ← r.term token
  let right ← operate r op left value
  setLast base
  setReplaced (some (token.mark.key, some .store))
  r.visit token
  setReplaced old
  settle left right

/-- An augmented assignment whose token has been found. The target is lowered with the token passed over. -/
def augmentThrough (r : Recur) (token target : Node) (op : Option Operator) (value : Node) : Emit Unit := do
  let old ← replaced
  setReplaced (some (token.mark.key, none))
  let base ← r.term target
  applyThrough r token base old op value

variable {β : Type} {target value : Node} {op : Option Operator} {s : State} {fuel : Nat}

theorem term_bind_setLast (r : Recur) (n : Node) (f : Term → Emit β) :
    (do let t ← r.term n; setLast t; f t) = r.term n >>= f := by
  simp only [Recur.term, bind_assoc, pure_bind]
  rfl

theorem augAssign_of_token {r : Recur} {n token : Node}
    (h : n.findStored? (usageUnder s.tree.replaced) = some token) :
    augAssign r n target op value s = augmentThrough r token target op value s := by
  have hold : replaced s = .ok s.tree.replaced s := rfl
  have htoken : expect (n.findStored? (usageUnder s.tree.replaced)) .noMember s = .ok token s := by
    rw [h]
    rfl
  rw [augAssign, augmentThrough, bind_run_of_ok hold, bind_run_of_ok htoken, bind_run_of_ok hold]
  simp only [applyThrough, operate, settle, term_bind_setLast, bind_assoc, pure_bind]

/-- Which token an augmented assignment goes through: the last of the outermost ones that its value writes, and the
target just if the value writes none. What is read and what is written is that token. -/
theorem augmented_token {n target value : Node} {op : Option Operator} (hn : n.form = .augAssign target op value)
    (hself : n.isWritten = false) (htarget : target.isConstruct = true) (hstore : target.isWritten = true)
    (hvalue : value.isConstruct = true) :
    n.findWritten? = .ok (some (value.written.getLast?.getD target)) ∧
    (target ∉ value.preorder →
      (n.findWritten? = .ok (some target) ↔ ∀ m ∈ value.preorder, m.isWritten = false)) ∧
    ∀ (r : Recur) (s : State), s.tree.replaced = none →
      construct r n s = augmentThrough r (value.written.getLast?.getD target) target op value s := by
  have hfound := Node.findStored?_augAssign hn hself htarget hstore hvalue
  have hwritten : n.findWritten? = .ok (some (value.written.getLast?.getD target)) := by
    rw [Node.findWritten?, hn, ← hfound]
  refine ⟨hwritten, fun hout => ?_, fun r s hs => ?_⟩
  · rw [hwritten, ← Node.written_eq_nil_iff]
    cases hlast : value.written.getLast? with
    | none => simp [List.getLast?_eq_none_iff.1 hlast]
    | some token =>
      have hmem : token ∈ value.written := List.mem_of_getLast? hlast
      have hne : token ≠ target := fun h => hout (h ▸ Node.mem_preorder_of_mem_written hmem)
      simp [hne, List.ne_nil_of_mem hmem]
  · rw [construct, hn]
    exact augAssign_of_token (by rw [hs]; exact hfound)

/-- `y := 1`, with the token that it writes. -/
def boundToken : Node := .mk { key := 3 } (.name "y" (some .store))
def boundNode : Node := .mk { key := 2 } (.namedExpr boundToken (.mk { key := 4 } (.constant (.int 1))))

/-- `x += (y := 1)`. -/
def boundTarget : Node := .mk { key := 1 } (.name "x" (some .store))
def addBound : Node := .mk {} (.augAssign boundTarget (some .add) boundNode)

/-- The statement reads and writes the token of its value. -/
theorem addBound_token : addBound.isWritten = false ∧ boundTarget.isWritten = true ∧ boundNode.isConstruct = true ∧
    addBound.findWritten? = .ok (some boundToken) ∧ addBound.findWritten? ≠ .ok (some boundTarget) ∧
    ∀ (r : Recur) (s : State), s.tree.replaced = none →
      construct r addBound s = augmentThrough r boundToken boundTarget (some .add) boundNode s := by
  obtain ⟨hfound, htarget, hlowered⟩ := augmented_token (n := addBound) rfl rfl rfl rfl rfl
  have htokens : boundNode.written = [boundToken] := by
    rw [← Node.storedTokens_eq_written]
    rfl
  rw [htokens] at hfound hlowered
  have hout : boundTarget ∉ boundNode.preorder := by
    have hkeys : boundNode.preorder.map (·.mark.key) = [2, 3, 0, 4] := rfl
    intro hmem
    have := List.mem_map_of_mem (f := (·.mark.key)) hmem
    rw [hkeys] at this
    simp [boundTarget, Node.mark] at this
  refine ⟨rfl, rfl, rfl, hfound, fun h => ?_, hlowered⟩
  have := (htarget hout).1 h boundToken (Node.mem_preorder_of_mem_written (by simp [htokens]))
  cases this

/-- Evaluates a target, and uses it in a way that need not be its own. -/
def evaluateAs (fuel : Nat) (target : Node) (u : Option Usage) : Emit Reference := do
  setReplaced (some (target.mark.key, u))
  evaluateFor fuel target (·.use u)

/-- An augmented assignment to a place, with what the target is evaluated to when it is passed over, read and
written. -/
def augmentPlace (fuel : Nat) (target : Node) (op : Option Operator) (value : Node) :
    Emit (Reference × Reference × Reference) := do
  let old ← replaced
  let passed ← evaluateAs fuel target none
  let base := (← get).tree.last
  let read ← evaluateAs fuel target (some .load)
  let left := (← get).tree.last
  let right ← operate (recur (fuel + 1)) op left value
  setLast base
  let written ← evaluateAs fuel target (some .store)
  setReplaced old
  settle left right
  return (passed, read, written)

theorem term_bind_of_isPlace {n : Node} {u : Option Usage} (hn : isPlace n = true)
    (hs : s.lowerer = .tree) (hu : usageUnder s.tree.replaced n = u) (fuel : Nat) (f : Term → Emit β) :
    ((recur (fuel + 1)).term n >>= f) s =
      (do let _ ← evaluateFor fuel n (·.use u); f (← get).tree.last) s := by
  have hvisit := visit_of_isPlace hn hs hu fuel
  rw [discard_eq] at hvisit
  simp only [Recur.term, bind_assoc, pure_bind]
  rw [bind_run_eq hvisit fun _ _ _ => rfl]
  simp only [bind_assoc, pure_bind]

theorem term_bind_of_replaced (hplace : isPlace target = true)
    (hs : s.lowerer = .tree) (fuel : Nat) (u : Option Usage) (f : Term → Emit β) :
    (do setReplaced (some (target.mark.key, u)); let t ← (recur (fuel + 1)).term target; f t) s =
      (do let _ ← evaluateAs fuel target u; f (← get).tree.last) s := by
  rw [evaluateAs, bind_assoc]
  refine bind_run_congr fun _ s1 h1 => ?_
  have hs1 : s1.Marked (some (target.mark.key, u)) := leads_setReplaced ⟨hs, rfl⟩ h1
  exact term_bind_of_isPlace hplace hs1.lowerer (hs1.replaced ▸ if_pos rfl) fuel f

theorem visit_bind_of_replaced (hplace : isPlace target = true)
    (hs : s.lowerer = .tree) (fuel : Nat) (u : Option Usage) (x : Emit β) :
    (do setReplaced (some (target.mark.key, u)); (recur (fuel + 1)).visit target; x) s =
      (do let _ ← evaluateAs fuel target u; x) s := by
  have hterm := term_bind_of_replaced hplace hs fuel u fun _ => x
  simp only [Recur.term, bind_assoc, pure_bind] at hterm
  exact hterm

set_option synthInstance.maxSize 1000 in
instance {R : Regime} [R.Computes] [R.Calls] [R.Notes] (r : Recur) [∀ n, Heeds R (r.visit n)]
    (left : Term) : Heeds R (operate r op left value) := by
  unfold operate; infer_instance

theorem leads_evaluateAs {k : Option (Nat × Option Usage)} {u : Option Usage} :
    Leads (State.Marked k) (State.Marked (some (target.mark.key, u))) (evaluateAs fuel target u) :=
  .bind leads_setReplaced fun _ => .of_preserves

theorem augmentThrough_self (hplace : isPlace target = true) (hs : s.lowerer = .tree) :
    augmentThrough (recur (fuel + 1)) target target op value s = discard (augmentPlace fuel target op value) s := by
  rw [discard_eq, augmentThrough, augmentPlace]
  simp only [applyThrough, bind_assoc, pure_bind]
  refine bind_run_congr fun old s1 h1 => ?_
  have hs1 : s1.Marked s.tree.replaced := Preserves.of_ok ⟨hs, rfl⟩ h1
  rw [term_bind_of_replaced hplace hs1.lowerer]
  refine bind_run_congr fun passed s2 h2 => bind_run_congr fun t2 s3 h3 => ?_
  have hs3 := Preserves.of_ok (leads_evaluateAs hs1 h2) h3
  rw [term_bind_of_replaced hplace hs3.lowerer]
  refine bind_run_congr fun read s4 h4 => bind_run_congr fun t4 s5 h5 => ?_
  refine bind_run_congr fun right s6 h6 => bind_run_congr fun _ s7 h7 => ?_
  have hs7 := Preserves.of_ok (Preserves.of_ok (Preserves.of_ok (leads_evaluateAs hs3 h4) h5) h6) h7
  rw [visit_bind_of_replaced hplace hs7.lowerer]
  simp only [bind_pure_unit]

theorem ranges_of_evaluateAs {f m : Nat} {u : Option Usage} {s' : State} {p : Reference}
    (hbases : ∀ b ∈ bases target, isComputed b = true ∧ b.mark.key ≠ target.mark.key) (hs : s.Counts f m)
    (h : evaluateAs (fuel + 1) target u s = .ok p s') : p.operands.length = (bases target).length ∧
      ∃ m', m ≤ m' ∧ s'.Counts f m' ∧ ∀ v ∈ p.operands, Ranges m m' v := by
  obtain ⟨_, s1, h1, h⟩ := bind_eq_ok.1 h
  have hreplaced : s1.tree.replaced = some (target.mark.key, u) := by
    cases h1
    rfl
  refine ranges_of_evaluateFor (fun b hb => ?_) (Preserves.of_ok hs h1) h
  obtain ⟨hcomputed, hkey⟩ := hbases b hb
  refine ⟨hcomputed, fun e he => ?_⟩
  rw [hreplaced] at he
  cases he
  exact hkey.symm

theorem augmentPlace_operands {f m : Nat} {s' : State} {passed read written : Reference} (hs : s.Counts f m)
    (hbases : ∀ b ∈ bases target, isComputed b = true ∧ b.mark.key ≠ target.mark.key)
    (h : augmentPlace (fuel + 1) target op value s = .ok (passed, read, written) s') :
    (∀ p ∈ [passed, read, written], p.operands.length = (bases target).length) ∧
    ∃ m1 m2 m3, m1 ≤ m2 ∧ (∀ v ∈ passed.operands, Ranges m m1 v) ∧ (∀ v ∈ read.operands, Ranges m1 m2 v) ∧
      ∀ v ∈ written.operands, Ranges m2 m3 v := by
  obtain ⟨old, s1, h1, h⟩ := bind_eq_ok.1 h
  obtain ⟨p, s2, h2, h⟩ := bind_eq_ok.1 h
  obtain ⟨t2, s3, h3, h⟩ := bind_eq_ok.1 h
  obtain ⟨q, s4, h4, h⟩ := bind_eq_ok.1 h
  obtain ⟨t4, s5, h5, h⟩ := bind_eq_ok.1 h
  obtain ⟨right, s6, h6, h⟩ := bind_eq_ok.1 h
  obtain ⟨_, s7, h7, h⟩ := bind_eq_ok.1 h
  obtain ⟨w, s8, h8, h⟩ := bind_eq_ok.1 h
  obtain ⟨_, s9, -, h⟩ := bind_eq_ok.1 h
  obtain ⟨_, _, -, h⟩ := bind_eq_ok.1 h
  cases h
  obtain ⟨hp, m1, -, hs2, hpassed⟩ := ranges_of_evaluateAs hbases (Preserves.of_ok hs h1) h2
  obtain ⟨hq, m2, hm2, hs4, hread⟩ := ranges_of_evaluateAs hbases (Preserves.of_ok hs2 h3) h4
  have hs7 := Preserves.of_ok (Preserves.of_ok (Preserves.of_ok hs4 h5) h6) h7
  obtain ⟨hw, m3, -, -, hwritten⟩ := ranges_of_evaluateAs hbases hs7 h8
  exact ⟨by simp [hp, hq, hw], m1, m2, m3, hm2, hpassed, hread, hwritten⟩

/-- A target other than the token is lowered as its source says. -/
theorem augmentThrough_of_ne {token : Node}
    (hplace : isPlace target = true) (hstore : target.isWritten = true) (hkey : token.mark.key ≠ target.mark.key)
    (hs : s.lowerer = .tree) : augmentThrough (recur (fuel + 1)) token target op value s = (do
      let old ← replaced
      setReplaced (some (token.mark.key, none))
      let _ ← evaluateFor fuel target (·.use (some .store))
      applyThrough (recur (fuel + 1)) token (← get).tree.last old op value) s := by
  rw [augmentThrough]
  refine bind_run_congr fun old s1 h1 => bind_run_congr fun _ s2 h2 => ?_
  have hs2 : s2.Marked (some (token.mark.key, none)) := by
    cases h1
    cases h2
    exact ⟨hs, rfl⟩
  have husage : usageUnder s2.tree.replaced target = some .store := by
    rw [hs2.replaced]
    exact (if_neg hkey).trans (of_decide_eq_true hstore)
  exact term_bind_of_isPlace hplace hs2.lowerer husage fuel _

/-- How often the target of an augmented assignment is evaluated. Where the value writes no token it is three times;
what is read and what is written are two of them, made of different values. Where the value writes one, the target is
evaluated once and written with what was assigned before the statement, and it is never read. -/
theorem augmented_place_evaluations {fuel : Nat} {n target value : Node} {op : Option Operator} {s : State}
    (hn : n.form = .augAssign target op value) (hself : n.isWritten = false) (hplace : isPlace target = true)
    (hstore : target.isWritten = true) (hvalue : value.isConstruct = true) (hs : s.lowerer = .tree)
    (hnone : s.tree.replaced = none) :
    (value.written = [] →
      construct (recur (fuel + 2)) n s = discard (augmentPlace (fuel + 1) target op value) s ∧
      ∀ (f m : Nat) (passed read written : Reference) (s' : State), s.Counts f m →
        (∀ b ∈ bases target, isComputed b = true ∧ b.mark.key ≠ target.mark.key) →
        augmentPlace (fuel + 1) target op value s = .ok (passed, read, written) s' →
        (∀ p ∈ [passed, read, written], p.operands.length = (bases target).length) ∧
        [passed, read, written].Pairwise fun p q => ∀ v ∈ p.operands, v ∉ q.operands) ∧
    ∀ token, value.written.getLast? = some token → token.mark.key ≠ target.mark.key →
      construct (recur (fuel + 2)) n s = (do
        let old ← replaced
        setReplaced (some (token.mark.key, none))
        let _ ← evaluateFor (fuel + 1) target (·.use (some .store))
        applyThrough (recur (fuel + 2)) token (← get).tree.last old op value) s := by
  have hthrough : ∀ token, value.written.getLast?.getD target = token →
      construct (recur (fuel + 2)) n s = augmentThrough (recur (fuel + 2)) token target op value s := by
    intro token htoken
    rw [construct, hn]
    refine augAssign_of_token ?_
    rw [hnone, ← htoken]
    exact Node.findStored?_augAssign hn hself (isConstruct_of_isPlace hplace) hstore hvalue
  refine ⟨fun hwritten => ⟨?_, ?_⟩, fun token htoken hkey => ?_⟩
  · rw [hthrough target (by rw [hwritten]; rfl)]
    exact augmentThrough_self hplace hs
  · intro f m passed read written s' hcounts hbases h
    obtain ⟨hlength, m₁, m₂, m₃, hm, hpassed, hread, hwritten⟩ := augmentPlace_operands hcounts hbases h
    refine ⟨hlength, ?_⟩
    have hfirst : ∀ q ∈ [read, written], ∀ v ∈ passed.operands, v ∉ q.operands := by
      simp only [List.forall_mem_cons]
      exact ⟨not_mem_of_ranges hpassed hread (Nat.le_refl _), not_mem_of_ranges hpassed hwritten hm, by simp⟩
    have hsecond : ∀ q ∈ [written], ∀ v ∈ read.operands, v ∉ q.operands :=
      List.forall_mem_singleton.2 (not_mem_of_ranges hread hwritten (Nat.le_refl _))
    exact .cons hfirst (.cons hsecond (List.pairwise_singleton _ _))
  · rw [hthrough token (by rw [htoken]; rfl)]
    exact augmentThrough_of_ne hplace hstore hkey hs

/-- `x.a += 1`. -/
def memberTarget : Node := .mk { key := 1 } (.memberOf (.mk { key := 2 } (.name "x" (some .load))) "a" (some .store))
def addToMember : Node := .mk {} (.augAssign memberTarget (some .add) (.mk { key := 3 } (.constant (.int 1))))

theorem counts_begunState : ∃ f, begunState.Counts f 0 := by
  have hcursor : (begunState.program.cursors[begunState.cursor]?).isSome = true := by decide +kernel
  obtain ⟨c, hc⟩ := Option.isSome_iff_exists.1 hcursor
  have hfunc : (begunState.program.funcs[begunState.here.func]?).isSome = true := by decide +kernel
  obtain ⟨g, hg⟩ := Option.isSome_iff_exists.1 hfunc
  rw [State.here, hc, Option.getD_some] at hg
  exact ⟨c.func, scoped_begunState.lowerer, ⟨c, hc, rfl⟩, g, hg, Nat.zero_le _⟩

/-- The object is loaded three times; the attribute of the second is read and that of the third is set. -/
theorem addToMember_evaluations : ∃ (passed read written : Reference) (s' : State),
    construct (recur 2) addToMember begunState = .ok () s' ∧
    augmentPlace 1 memberTarget (some .add) (.mk { key := 3 } (.constant (.int 1))) begunState =
      .ok (passed, read, written) s' ∧
    (∀ p ∈ [passed, read, written], p.operands.length = 1) ∧
    [passed, read, written].Pairwise fun p q => ∀ v ∈ p.operands, v ∉ q.operands := by
  obtain ⟨⟨passed, read, written⟩, s', hrun⟩ := exists_of_completes (show completes
    (augmentPlace 1 memberTarget (some .add) (.mk { key := 3 } (.constant (.int 1))) begunState) = true by decide +kernel)
  obtain ⟨f, hcounts⟩ := counts_begunState
  have hnone : begunState.tree.replaced = none := by decide +kernel
  have hwritten : (Node.mk { key := 3 } (.constant (.int 1))).written = [] := by
    rw [← Node.storedTokens_eq_written]
    rfl
  have hevaluations := @augmented_place_evaluations 0 addToMember memberTarget _ _ begunState rfl rfl rfl rfl rfl
    hcounts.lowerer hnone
  obtain ⟨hsame, hoperands⟩ := hevaluations.1 hwritten
  obtain ⟨hlength, hpairwise⟩ := hoperands f 0 passed read written s' hcounts
    (List.forall_mem_singleton.2 ⟨rfl, by decide⟩) hrun
  refine ⟨passed, read, written, s', ?_, hrun, hlength, hpairwise⟩
  rw [hsame, discard_eq, bind_run_of_ok hrun]
  rfl

end Lower
end Lowering
