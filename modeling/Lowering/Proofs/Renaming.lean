import Lowering.Proofs.Likeness
import Mathlib.Logic.Function.Basic

/-!
The same code with other numbers for its values. Instructions that are alike under a likeness whose
numbers are those of a renaming differ by that renaming only.
-/
namespace Lowering

/-- The operand with another number for its value. -/
def Operand.renamed (ρ : Nat → Nat) : Operand → Operand
  | .id (.ofNat n) => .id (ρ n)
  | v => v

/-- The instruction with other numbers for the values it uses and computes. What else it says, its
constants, types, blocks, functions and variables, stays. -/
def Instr.renamed (ρ : Nat → Nat) : Instr → Instr
  | binary op a b r => binary op (a.renamed ρ) (b.renamed ρ) (ρ r)
  | unary op a r => unary op (a.renamed ρ) (ρ r)
  | store a b r => store (a.renamed ρ) (b.renamed ρ) (ρ r)
  | load a r => load (a.renamed ρ) (ρ r)
  | branch n => branch n
  | condBranch c n m => condBranch (c.renamed ρ) n m
  | member a b c r => member (a.renamed ρ) (b.renamed ρ) (c.renamed ρ) (ρ r)
  | element t a vs r => element t (a.renamed ρ) (vs.map (·.renamed ρ)) (ρ r)
  | call f vs r => call f (vs.map (·.renamed ρ)) (ρ r)
  | callPtr a k vs r => callPtr (a.renamed ρ) k (vs.map (·.renamed ρ)) (ρ r)
  | int64 n r => int64 n (ρ r)
  | smallInt sort n r => smallInt sort n (ρ r)
  | float32 x r => float32 x (ρ r)
  | float64 x r => float64 x (ρ r)
  | null t r => null t (ρ r)
  | cast sort a t r => cast sort (a.renamed ρ) t (ρ r)
  | alloca t r => alloca t (ρ r)
  | ret a => ret (a.renamed ρ)
  | retVoid => retVoid
  | retNull => retNull
  | globalVar id r => globalVar id (ρ r)
  | globalText s r => globalText s (ρ r)
  | funcPtr f r => funcPtr f (ρ r)
  | phi t vs blocks r => phi t (vs.map (·.renamed ρ)) blocks (ρ r)
  | sizeOf t r => sizeOf t (ρ r)
  | sizeOfElement t r => sizeOfElement t (ρ r)
  | printType a => printType (a.renamed ρ)
  | debugOp => debugOp
  | debugOp2 => debugOp2

/-- The numbers that stand for one another are those of a renaming. -/
def Likeness.Renames (θ : Likeness) (ρ : Nat → Nat) : Prop :=
  ∀ n m : Int, θ.value n m → ∃ k : Nat, n = k ∧ m = ρ k

section Renamed

variable {θ : Likeness} {ρ : Nat → Nat}

theorem OperandLike.eq_renamed (hρ : θ.Renames ρ) {v v' : Operand} (h : OperandLike θ v v') : v' = v.renamed ρ := by
  cases h with
  | id h =>
    obtain ⟨k, rfl, rfl⟩ := hρ _ _ h
    rfl
  | same h =>
    cases v with
    | id n => exact absurd rfl (h n)
    | _ => rfl

theorem eq_map_renamed (hρ : θ.Renames ρ) {vs vs' : List Operand} (h : List.Forall₂ (OperandLike θ) vs vs') :
    vs' = vs.map (·.renamed ρ) := by
  induction h with
  | nil => rfl
  | cons hv _ ih => rw [List.map_cons, hv.eq_renamed hρ, ih]

theorem Likeness.Renames.eq (hρ : θ.Renames ρ) {r r' : Nat} (h : θ.value r r') : r' = ρ r := by
  obtain ⟨k, hk, hr'⟩ := hρ _ _ h
  obtain rfl : r = k := by exact_mod_cast hk
  exact_mod_cast hr'

theorem InstrLike.eq_renamed (hρ : θ.Renames ρ) {count : Nat} {i i' : Instr} (h : InstrLike θ count i i') :
    i' = i.renamed ρ := by
  cases h with
  | binary op ha hb hr => rw [Instr.renamed, ha.eq_renamed hρ, hb.eq_renamed hρ, hρ.eq hr]
  | unary op ha hr => rw [Instr.renamed, ha.eq_renamed hρ, hρ.eq hr]
  | store ha hb hr => rw [Instr.renamed, ha.eq_renamed hρ, hb.eq_renamed hρ, hρ.eq hr]
  | load ha hr => rw [Instr.renamed, ha.eq_renamed hρ, hρ.eq hr]
  | condBranch hc _ _ => rw [Instr.renamed, hc.eq_renamed hρ]
  | member ha hb hc hr =>
    rw [Instr.renamed, ha.eq_renamed hρ, hb.eq_renamed hρ, hc.eq_renamed hρ, hρ.eq hr]
  | element t _ ha hvs hr => rw [Instr.renamed, ha.eq_renamed hρ, eq_map_renamed hρ hvs, hρ.eq hr]
  | call _ hvs hr => rw [Instr.renamed, eq_map_renamed hρ hvs, hρ.eq hr]
  | callPtr k ha hvs hr => rw [Instr.renamed, ha.eq_renamed hρ, eq_map_renamed hρ hvs, hρ.eq hr]
  | cast sort t _ ha hr => rw [Instr.renamed, ha.eq_renamed hρ, hρ.eq hr]
  | ret ha => rw [Instr.renamed, ha.eq_renamed hρ]
  | phi t _ hvs _ hr => rw [Instr.renamed, eq_map_renamed hρ hvs, hρ.eq hr]
  | branch | retVoid | retNull => rfl
  | int64 _ hr | smallInt _ _ hr | float64 _ hr | null _ _ hr | alloca _ _ hr | globalVar _ hr | globalText _ hr
  | funcPtr _ hr => rw [Instr.renamed, hρ.eq hr]

end Renamed

/-- Numbers below a bound that stand for one another, each for one other only, are those of a renaming
that sends no two numbers to one. -/
theorem exists_renaming {V : Int → Int → Prop} {bound : Nat} (hrange : ∀ n m, V n m → 0 ≤ n ∧ 0 ≤ m ∧ m < bound)
    (hfun : ∀ n m m', V n m → V n m' → m' = m) (hinj : ∀ n n' m, V n m → V n' m → n' = n) :
    ∃ ρ : Nat → Nat, Function.Injective ρ ∧ ∀ n m, V n m → ∃ k : Nat, n = k ∧ m = ρ k := by
  classical
  -- numbers that stand for nothing go beyond the bound
  let ρ : Nat → Nat := fun k => if h : ∃ m : Nat, V k m then h.choose else k + bound
  have hlike : ∀ k : Nat, (∃ m : Nat, V k m) → V k (ρ k) := by
    intro k h
    simp only [ρ, dif_pos h]
    exact h.choose_spec
  have hother : ∀ k : Nat, (¬ ∃ m : Nat, V k m) → ρ k = k + bound := fun k h => dif_neg h
  refine ⟨ρ, fun k k' heq => ?_, fun n m h => ?_⟩
  · by_cases hk : ∃ m : Nat, V k m <;> by_cases hk' : ∃ m : Nat, V k' m
    · have h := hinj _ _ _ (hlike k hk) (heq ▸ hlike k' hk')
      omega
    · have h := hrange _ _ (hlike k hk)
      have := hother k' hk'
      omega
    · have h := hrange _ _ (hlike k' hk')
      have := hother k hk
      omega
    · have := hother k hk
      have := hother k' hk'
      omega
  · obtain ⟨hn, hm, -⟩ := hrange n m h
    obtain ⟨k, rfl⟩ := Int.eq_ofNat_of_zero_le hn
    obtain ⟨j, rfl⟩ := Int.eq_ofNat_of_zero_le hm
    exact ⟨k, rfl, hfun _ _ _ (hlike k ⟨j, h⟩) h⟩

end Lowering
