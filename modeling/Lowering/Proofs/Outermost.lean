import Lowering.Tree.Walk

/-!
The functions of a tree are the definitions that stand in no other definition, in the order of a walk that
comes to a node before it comes to what is below it.
-/
namespace Lowering.Node

/-- What goes down from a node to the constructs below it. -/
def rank (n : Node) : Nat := if n.children.isEmpty then 0 else n.depth

theorem rank_lt_of_mem_children {n c : Node} (h : c ∈ n.children) : c.rank < n.rank := by
  have hinner : n.children.isEmpty = false := by
    cases hchildren : n.children with
    | nil => simp [hchildren] at h
    | cons => rfl
  have hrank : n.rank = n.depth := by
    rw [rank, hinner]
    rfl
  have hdepth := n.one_lt_depth
  rw [hrank, rank]
  rcases depth_of_mem_children h with hleaf | hlt
  · rw [hleaf, List.isEmpty_nil, if_pos rfl]
    omega
  · split <;> omega

/-- The constructs of a tree in pre-order, each with those it stands in. -/
def withAncestors (above : List Node) (n : Node) : List (List Node × Node) :=
  (above, n) :: n.children.attach.flatMap fun c => withAncestors (n :: above) c.1
termination_by n.rank
decreasing_by exact rank_lt_of_mem_children c.2

theorem withAncestors_eq (above : List Node) (n : Node) :
    n.withAncestors above = (above, n) :: n.children.flatMap (withAncestors (n :: above)) := by
  rw [withAncestors]
  congr 1
  conv => rhs; rw [← List.attach_map_subtype_val n.children, List.flatMap_map]

theorem map_snd_withAncestors (above : List Node) (n : Node) : (n.withAncestors above).map Prod.snd = n.preorder := by
  induction hr : n.rank using Nat.strongRecOn generalizing above n with
  | ind r ih =>
    rw [withAncestors_eq, preorder_eq, List.map_cons, List.map_flatMap]
    congr 1
    rw [List.flatMap_def, List.flatMap_def]
    refine congrArg List.flatten (List.map_congr_left fun c hc => ?_)
    exact ih c.rank (hr ▸ rank_lt_of_mem_children hc) (n :: above) c rfl

/-- The function definitions of a tree that stand in no other, in pre-order. -/
def outermost (n : Node) : List Node :=
  ((n.withAncestors []).filter fun e => e.2.isFunction && !e.1.any isFunction).map Prod.snd

section Walks

variable {p : Node → Bool} {walk : Node → List Node} {above : List Node}

/-- Inside of a construct of a kind there is none that stands in no other of it. -/
theorem filter_withAncestors_of_inside (n : Node) (h : above.any p = true) :
    (n.withAncestors above).filter (fun e => p e.2 && !e.1.any p) = [] := by
  induction hr : n.rank using Nat.strongRecOn generalizing above n with
  | ind r ih =>
    rw [withAncestors_eq, List.filter_cons, h, Bool.not_true, Bool.and_false, if_neg (by decide),
      List.filter_flatMap, List.flatMap_eq_nil_iff]
    intro c hc
    refine ih c.rank (hr ▸ rank_lt_of_mem_children hc) c ?_ rfl
    rw [List.any_cons, h, Bool.or_true]

/-- A walk that stops at the constructs of a kind comes to those that stand in no other of it, in pre-order. -/
theorem walk_eq_filter (hwalk : ∀ n, walk n = if p n then [n] else n.children.flatMap walk) (n : Node)
    (h : above.any p = false) :
    walk n = ((n.withAncestors above).filter fun e => p e.2 && !e.1.any p).map Prod.snd := by
  induction hr : n.rank using Nat.strongRecOn generalizing above n with
  | ind r ih =>
    rw [hwalk, withAncestors_eq, List.filter_cons, h, Bool.not_false, Bool.and_true, List.filter_flatMap]
    cases hp : p n with
    | true =>
      have hinside : ∀ c ∈ n.children, (c.withAncestors (n :: above)).filter (fun e => p e.2 && !e.1.any p) = [] :=
        fun c _ => filter_withAncestors_of_inside c (by rw [List.any_cons, hp, Bool.true_or])
      rw [if_pos rfl, if_pos rfl, List.flatMap_eq_nil_iff.2 hinside]
      rfl
    | false =>
      rw [if_neg (by decide), if_neg (by decide), List.map_flatMap, List.flatMap_def, List.flatMap_def]
      refine congrArg List.flatten (List.map_congr_left fun c hc => ?_)
      refine ih c.rank (hr ▸ rank_lt_of_mem_children hc) c ?_ rfl
      rw [List.any_cons, hp, h, Bool.or_false]

end Walks

theorem functions_eq_outermost (n : Node) : n.functions = n.outermost := walk_eq_filter functions_eq n rfl

end Lowering.Node
