import Lowering.Tree

/-!
Walks over a tree: the class names in order, the tokens that are written, and the function
definitions.
-/
namespace Lowering.Node

private def preorderWithin : Nat → Node → List Node
  | 0, _ => []
  | fuel + 1, n => n :: n.children.flatMap (preorderWithin fuel)

def preorder (n : Node) : List Node := preorderWithin n.depth n

/-- A step that is taken for the constructs below a node, and for those below them, has reached all of them
after as many rounds as there are levels. -/
private theorem within_eq {α : Type} {visit : Nat → Node → List α}
    {step : (Node → List α) → Node → List α} (hvisit : ∀ k n, visit (k + 1) n = step (visit k) n)
    (hstep : ∀ (f g : Node → List α) n, (∀ c ∈ n.children, f c = g c) → step f n = step g n) :
    ∀ {k l : Nat} {n : Node}, (n.children = [] ∨ n.depth ≤ k + 1 ∧ n.depth ≤ l + 1) →
      visit (k + 1) n = visit (l + 1) n := by
  intro k
  induction k with
  | zero =>
    intro l n h
    have hleaf : n.children = [] := h.resolve_right fun hle => absurd n.one_lt_depth (by omega)
    rw [hvisit, hvisit]
    exact hstep _ _ n (by simp [hleaf])
  | succ k ih =>
    intro l n h
    rw [hvisit, hvisit]
    refine hstep _ _ n fun c hc => ?_
    rcases h with hleaf | ⟨hk, hl⟩
    · simp [hleaf] at hc
    · have := n.one_lt_depth
      obtain ⟨l, rfl⟩ : ∃ j, l = j + 1 := ⟨l - 1, by omega⟩
      exact ih ((depth_of_mem_children hc).imp id fun hlt => ⟨by omega, by omega⟩)

/-- With as many rounds as there are levels, the rounds need not be counted. -/
private theorem rounds_eq {α : Type} {visit : Nat → Node → List α}
    (step : (Node → List α) → Node → List α) (hvisit : ∀ k n, visit (k + 1) n = step (visit k) n)
    (hstep : ∀ (f g : Node → List α) n, (∀ c ∈ n.children, f c = g c) → step f n = step g n) (n : Node) :
    visit n.depth n = step (fun c => visit c.depth c) n := by
  have hone := n.one_lt_depth
  obtain ⟨k, hk⟩ : ∃ k, n.depth = k + 1 + 1 := ⟨n.depth - 2, by omega⟩
  rw [hk, hvisit]
  refine hstep _ _ n fun c hc => ?_
  have hc' := c.one_lt_depth
  obtain ⟨l, hl⟩ : ∃ l, c.depth = l + 1 := ⟨c.depth - 1, by omega⟩
  rw [hl]
  exact within_eq hvisit hstep ((depth_of_mem_children hc).imp id fun hlt => ⟨by omega, by omega⟩)

private theorem flatMap_congr_of_mem {α β : Type} {f g : α → List β} {xs : List α} (h : ∀ x ∈ xs, f x = g x) :
    xs.flatMap f = xs.flatMap g := by
  rw [List.flatMap_def, List.flatMap_def, List.map_congr_left h]

theorem preorder_eq (n : Node) : n.preorder = n :: n.children.flatMap preorder :=
  rounds_eq (fun f n => n :: n.children.flatMap f) (fun _ _ => rfl)
    (fun _ _ n h => congrArg (n :: ·) (flatMap_congr_of_mem h)) n

def usage (n : Node) : Option Usage := n.form.usage <|> n.mark.usage

private def storedWithin (usage : Node → Option Usage) : Nat → Node → List Node
  | 0, _ => []
  | fuel + 1, n =>
    if usage n = some .store then [n] else n.children.flatMap (storedWithin usage fuel)

/-- The outermost written tokens in order, when nodes are used in a certain way. -/
def storedTokens (usage : Node → Option Usage) (n : Node) : List Node :=
  storedWithin usage n.depth n

theorem storedTokens_eq (usage : Node → Option Usage) (n : Node) : n.storedTokens usage =
    if usage n = some .store then [n] else n.children.flatMap (storedTokens usage) :=
  rounds_eq (fun f n => if usage n = some .store then [n] else n.children.flatMap f) (fun _ _ => rfl)
    (fun _ _ n h => by rw [flatMap_congr_of_mem h]) n

def findStored? (usage : Node → Option Usage) (n : Node) : Option Node :=
  (n.storedTokens usage).getLast?

def isFunction (n : Node) : Bool :=
  match n.form with
  | .functionDef .. => true
  | _ => false

private def functionsWithin : Nat → Node → List Node
  | 0, _ => []
  | fuel + 1, n => if n.isFunction then [n] else n.children.flatMap (functionsWithin fuel)

def functions (n : Node) : List Node := functionsWithin n.depth n

theorem functions_eq (n : Node) : n.functions = if n.isFunction then [n] else n.children.flatMap functions :=
  rounds_eq (fun f n => if n.isFunction then [n] else n.children.flatMap f) (fun _ _ => rfl)
    (fun _ _ n h => by rw [flatMap_congr_of_mem h]) n

/-- Walks a tree. The items of a list that stands alone are walked one after the other, and it
holds nothing but nodes and such lists. -/
private def walkWithin {α : Type} (lines : Node → List α) (before : List α) :
    Nat → Node → Except Fault (List α)
  | 0, _ => .ok []
  | fuel + 1, n =>
    match n.form with
    | .suite items => do
      let rest ← items.mapM (walkWithin lines before fuel)
      return before ++ rest.flatten
    | .absent | .plain .. => .error .noMember
    | _ => .ok (lines n)

def outline (n : Node) : Except Fault (List String) :=
  walkWithin (fun n => n.preorder.map className) ["list"] n.depth n

/-- The last written token. The items of a list are not themselves looked at, only inside. -/
def findWritten? (n : Node) : Except Fault (Option Node) :=
  match n.form with
  | .suite _ => do
    let tokens ← walkWithin (fun n => n.children.flatMap (storedTokens Node.usage)) [] n.depth n
    return tokens.getLast?
  | .absent | .plain .. => .error .noMember
  | _ => .ok (n.findStored? Node.usage)

end Lowering.Node
