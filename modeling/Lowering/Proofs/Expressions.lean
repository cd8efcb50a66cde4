import Lowering.Proofs.Leftovers

/-!
Trees without statements, such as expressions. A lowering that refuses statements lowers them the same way.
-/
namespace Lowering

def Node.isStatement (n : Node) : Bool :=
  match n.form with
  | .expr _ | .expression _ | .assign .. | .annAssign .. | .augAssign .. | .delete _ | .ret _ | .raise .. | .assert ..
  | .global _ | .nonlocalStmt _ | .pass | .breakStmt | .ifStmt .. | .forStmt .. | .whileStmt .. | .withStmt ..
  | .withItem .. | .tryStmt _ | .importStmt _ | .importFrom _ | .classDef _ | .functionDef .. => true
  | _ => false

namespace Lower

open Emit

variable {k : Token} {b c : Bool} {n : Node}

/-- A name that is called may come upon a value. -/
def lookOwner (look : Look) (k : Token) (b : Bool) (func : Node) : Option Bool :=
  match func.form with
  | .memberOf value .. => look k b value
  | _ => some b

/-- Looks through one construct, unless it is a statement. -/
def surveyExpr (look : Look) : Look := fun k b n =>
  if n.isStatement then none
  else
    match n.form with
    | .call func args keywords => do
      let b ← lookOwner look k b func
      let b ← (itemsOf keywords).foldlM (fun _ n => lookKeyword look k n) b
      let _ ← (itemsOf args).foldlM (fun _ n => look k true n) b
      return false
    | _ => survey look k b n

def exprWithin : Nat → Look
  | 0 => fun _ b _ => some b
  | fuel + 1 => surveyExpr (lookOver (exprWithin fuel))

/-- Whether no statement is found in a tree of at most so many levels, with the usage of a token replaced. -/
def isExpr (fuel : Nat) (k : Token) (n : Node) : Bool := (exprWithin fuel k false n).isSome

/-- Lowers a tree in which no statement stands. -/
def lowerExpr : Nat → Node → Emit Unit
  | 0, _ => return ()
  | fuel + 1, n => if n.isStatement then throw .misuse else construct ⟨announced (lowerExpr fuel)⟩ n

def recurExpr (fuel : Nat) : Recur := ⟨announced (lowerExpr fuel)⟩

namespace Sees

variable {look : Look} {r r' : Recur}

theorem construct_expr (hr : Sees look r r') (h : surveyExpr look k b n = some c) : n.isStatement = false ∧
      Idles k b c (Lower.construct r n) (Lower.construct r' n) := by
  rw [surveyExpr] at h
  split at h
  case isTrue => cases h
  next hn =>
    refine ⟨by simpa using hn, ?_⟩
    obtain ⟨mark, form⟩ := n
    cases form
    case call func args keywords =>
      obtain ⟨b1, hfunc, h⟩ := Option.bind_eq_some_iff.1 h
      obtain ⟨b2, hkeywords, h⟩ := Option.bind_eq_some_iff.1 h
      obtain ⟨b3, hargs, h⟩ := Option.bind_eq_some_iff.1 h
      cases h
      refine hr.call_of_callee ?_ hkeywords hargs
      obtain ⟨mark, form⟩ := func
      cases form with
      | memberOf value => exact hr.callee hfunc
      | name =>
        cases hfunc
        exact .kept (x := pure _)
      | _ => exact .throw _
    all_goals exact hr.construct h

theorem expressions (fuel : Nat) : Sees (lookOver (exprWithin fuel)) (recur fuel) (recurExpr fuel) := by
  induction fuel with
  | zero =>
    refine Sees.announced fun h => ?_
    cases h
    exact .pure fun _ hs => hs
  | succ fuel ih =>
    refine Sees.announced fun h => ?_
    obtain ⟨hn, hrun⟩ := ih.construct_expr h
    rw [lowerExpr, hn]
    exact hrun

end Sees
end Lower
end Lowering
