import Lowering.Proofs.FieldRange
import Mathlib.Algebra.Group.Int.Defs

/-!
How the values of the two functions of a definition are numbered. For each argument the function that is
called with a tuple computes three values more than the one that is called with a vector; else the
two count alike. So a number of the first stands for one of the second, by a shift that falls with every
argument.
-/
namespace Lowering.Twins

/-- Where the arguments are bound, between two numbers of the first function: the numbers at which the place
of an argument is computed, which takes five of them. They can be written. -/
def Marked (lo hi : Nat) : List Nat → Prop
  | [] => lo ≤ hi
  | c :: cs => lo ≤ c ∧ c + 4 < 2 ^ 31 ∧ Marked (c + 5) hi cs

theorem Marked.le {lo hi : Nat} {cs : List Nat} (h : Marked lo hi cs) : lo + 5 * cs.length ≤ hi := by
  induction cs generalizing lo with
  | nil => exact h
  | cons c cs ih =>
    have := ih h.2.2
    have := h.1
    rw [List.length_cons]
    omega

theorem Marked.mono {lo hi hi' : Nat} {cs : List Nat} (h : Marked lo hi cs) (hle : hi ≤ hi') : Marked lo hi' cs := by
  induction cs generalizing lo with
  | nil => exact Nat.le_trans h hle
  | cons c cs ih => exact ⟨h.1, h.2.1, ih h.2.2⟩

/-- What the first function has counted to when the arguments are bound. -/
def ending (lo : Nat) : List Nat → Nat
  | [] => lo
  | c :: cs => ending (c + 5) cs

/-- Numbers from one on stand for one another. -/
inductive Numbers : Nat → Int → List Nat → Int → Int → Prop
  /-- What is computed before the place of an argument, and the index of the argument. -/
  | before {lo : Nat} {shift n : Int} {c : Nat} {cs : List Nat} (hlo : lo ≤ n) (hn : n ≤ c) :
    Numbers lo shift (c :: cs) n (n + shift)
  /-- The place of an argument. -/
  | place {lo : Nat} {shift : Int} {c : Nat} {cs : List Nat} :
    Numbers lo shift (c :: cs) (c + 4 : Nat) (c + 1 + shift)
  | after {lo : Nat} {shift n m : Int} {c : Nat} {cs : List Nat} (h : Numbers (c + 5) (shift - 3) cs n m) :
    Numbers lo shift (c :: cs) n m
  /-- What is computed when the arguments have been bound. -/
  | rest {lo : Nat} {shift n : Int} (hlo : lo ≤ n) : Numbers lo shift [] n (n + shift)

variable {lo hi : Nat} {shift n n' m m' : Int} {cs : List Nat}

namespace Numbers

theorem bounds (hcs : Marked lo hi cs) (h : Numbers lo shift cs n m) : lo ≤ n ∧ lo + shift ≤ m ∧ m ≤ n + shift := by
  induction h with
  | before | rest => omega
  | place =>
    obtain ⟨hlo, -⟩ := hcs
    omega
  | after h ih =>
    obtain ⟨hlo, -, hcs⟩ := hcs
    have := ih hcs
    omega

theorem lt (hcs : Marked lo hi cs) (h : Numbers lo shift cs n m) (hn : n < hi) : m < hi + shift - 3 * cs.length := by
  induction h with
  | before _ hc | place =>
    have := hcs.2.2.le
    rw [List.length_cons]
    omega
  | after h ih =>
    have := ih hcs.2.2 hn
    rw [List.length_cons]
    omega
  | rest =>
    rw [List.length_nil]
    omega

theorem of_ending (h : ending lo cs ≤ n) : Numbers lo shift cs n (n + (shift - 3 * cs.length)) := by
  induction cs generalizing lo shift with
  | nil =>
    rw [List.length_nil, Int.natCast_zero, Int.mul_zero, Int.sub_zero]
    exact .rest h
  | cons c cs ih =>
    refine .after ?_
    rw [List.length_cons, show shift - 3 * ((cs.length + 1 : Nat) : Int) = shift - 3 - 3 * cs.length by omega]
    exact ih h

theorem eq_iff (hcs : Marked lo hi cs) (h : Numbers lo shift cs n m) (h' : Numbers lo shift cs n' m') :
    n' = n ↔ m' = m := by
  induction h generalizing n' m' with
  | before hlo hn =>
    cases h' with
    | before => omega
    | place => omega
    | after h' =>
      have := h'.bounds hcs.2.2
      omega
  | place =>
    cases h' with
    | before => omega
    | place => omega
    | after h' =>
      have := h'.bounds hcs.2.2
      omega
  | after h ih =>
    have hbounds := h.bounds hcs.2.2
    cases h' with
    | before => omega
    | place => omega
    | after h' => exact ih hcs.2.2 h'
  | rest hlo =>
    cases h'
    omega

/-- A number of the second function can be written if that of the first can, where the second counts ahead
by one at most. Without arguments it may, so the counter of the first is to stay below the limit. -/
theorem fits (hcs : Marked lo hi cs) (hshift : shift ≤ 1) (h : Numbers lo shift cs n m)
    (hn : n < 2 ^ 31) (hroom : cs = [] → n + 1 < 2 ^ 31) : m < 2 ^ 31 := by
  induction h with
  | before _ hn =>
    have := hcs.2.1
    omega
  | place =>
    have := hcs.2.1
    omega
  | after h ih =>
    have := (h.bounds hcs.2.2).2.2
    omega
  | rest =>
    have := hroom rfl
    omega

end Numbers

/-- Numbers of two functions that stand for one another, each for one other only, below what the functions
have counted to. The function that is called and its arguments come first; the keyword arguments have
different places. -/
structure Matching (lo lo' : Nat) where
  rel : Int → Int → Prop
  range : ∀ n m, rel n m → 0 ≤ n ∧ n < lo ∧ 0 ≤ m ∧ m < lo'
  eq_iff : ∀ n m n' m', rel n m → rel n' m' → (n' = n ↔ m' = m)
  zero : rel 0 0
  one : rel 1 1
  keywords : rel 2 3

namespace Matching

/-- What stands for what when two functions have their parameters only. -/
def parameters : Matching 3 4 where
  rel n m := n = 0 ∧ m = 0 ∨ n = 1 ∧ m = 1 ∨ n = 2 ∧ m = 3
  range n m h := by omega
  eq_iff n m n' m' h h' := by omega
  zero := .inl ⟨rfl, rfl⟩
  one := .inr (.inl ⟨rfl, rfl⟩)
  keywords := .inr (.inr ⟨rfl, rfl⟩)

def extend {lo lo' : Nat} (v : Matching lo lo') {cs : List Nat} (hi hi' : Nat) (hcs : Marked lo hi cs)
    (hnext : (hi' : Int) = hi + (lo' - lo) - 3 * cs.length) : Matching hi hi' where
  rel n m := n < hi ∧ (v.rel n m ∨ Numbers lo (lo' - lo) cs n m)
  range n m h := by
    have hle := hcs.le
    obtain ⟨hn, h | h⟩ := h
    · have := v.range n m h
      omega
    · have := h.bounds hcs
      have := h.lt hcs hn
      omega
  eq_iff n m n' m' := by
    rintro ⟨-, h | h⟩ ⟨-, h' | h'⟩
    · exact v.eq_iff n m n' m' h h'
    · have := v.range n m h
      have := h'.bounds hcs
      omega
    · have := v.range n' m' h'
      have := h.bounds hcs
      omega
    · exact h.eq_iff hcs h'
  zero := ⟨by have := v.range 0 0 v.zero; have := hcs.le; omega, .inl v.zero⟩
  one := ⟨by have := v.range 1 1 v.one; have := hcs.le; omega, .inl v.one⟩
  keywords := ⟨by have := v.range 2 3 v.keywords; have := hcs.le; omega, .inl v.keywords⟩

end Matching

end Lowering.Twins
