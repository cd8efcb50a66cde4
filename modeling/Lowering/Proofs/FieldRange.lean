import Lowering.Proofs.Output
import Mathlib.Algebra.Group.Nat.Defs

/-!
Which fields can be written, and so which instructions are written whole.
-/
namespace Lowering

theorem fitsSigned_of_lt {n : Nat} (h : n < 2 ^ 31) : fitsSigned 4 n = true := by
  have hrange : byteRange 4 = 2 ^ 32 := rfl
  simp only [fitsSigned, hrange, Bool.and_eq_true, decide_eq_true_eq]
  omega

theorem fitsSigned_eight_of_lt {n : Nat} (h : n < 2 ^ 31) : fitsSigned 8 n = true := by
  have hrange : byteRange 8 = 2 ^ 64 := rfl
  simp only [fitsSigned, hrange, Bool.and_eq_true, decide_eq_true_eq]
  omega

namespace Field

/-- The field can be written. -/
def Fits (f : Field) : Prop := ∃ bs, f.bytes = .ok bs

instance : DecidablePred Fits := fun f =>
  match h : f.bytes with
  | .ok bs => .isTrue ⟨bs, h⟩
  | .error e => .isFalse fun ⟨_, hbs⟩ => by rw [h] at hbs; cases hbs

theorem fits_integer {width : Nat} {n : Operand} :
    (∃ bs, integer width n = .ok bs) ↔ ∃ k, n.toInt? = some k ∧ fitsSigned width k = true := by
  rw [integer]
  cases n.toInt? with
  | none => simp
  | some k => by_cases h : fitsSigned width k = true <;> simp [h]

theorem fits_word_iff {n : Operand} : (word n).Fits ↔ ∃ k, n.toInt? = some k ∧ fitsSigned 4 k = true :=
  fits_integer

theorem fits_long_iff {n : Operand} : (long n).Fits ↔ ∃ k, n.toInt? = some k ∧ fitsSigned 8 k = true :=
  fits_integer

@[simp] theorem fits_word_id {n : Int} : (word (.id n)).Fits ↔ fitsSigned 4 n = true := by
  simp [fits_word_iff, Operand.toInt?]

@[simp] theorem fits_count {n : Nat} : (count n).Fits ↔ fitsSigned 4 n = true := fits_word_id

@[simp] theorem fits_long_id {n : Int} : (long (.id n)).Fits ↔ fitsSigned 8 n = true := by
  simp [fits_long_iff, Operand.toInt?]

@[simp] theorem fits_double {x : Binary64} : (double (some x)).Fits := ⟨_, rfl⟩

@[simp] theorem fits_text {s : String} : (text s).Fits ↔ fitsSigned 4 s.length = true := by
  simp only [Fits, bytes_text_eq_ok_iff, exists_and_left, exists_eq, and_true]

theorem exists_writes_iff {fs : List Field} : (∃ bs, Writes fs bs) ↔ ∀ f ∈ fs, f.Fits := by
  refine ⟨fun ⟨_, h⟩ => h.exists_bytes, fun h => ?_⟩
  induction fs with
  | nil => exact ⟨[], rfl⟩
  | cons f fs ih =>
    obtain ⟨⟨b, hb⟩, hfs⟩ := List.forall_mem_cons.1 h
    obtain ⟨rest, hrest⟩ := ih hfs
    exact ⟨b ++ rest, writes_cons_iff.2 ⟨b, rest, hb, hrest, rfl⟩⟩

end Field

instance : DecidablePred Instr.Whole := fun i => inferInstanceAs (Decidable ((i.write false).2 = none))

theorem Instr.whole_iff {i : Instr} : i.Whole ↔ ∀ f ∈ i.fields, f.Fits := by
  rw [← Field.exists_writes_iff]
  exact ⟨fun h => ⟨i.bytes, Prod.ext rfl h⟩, fun ⟨_, h⟩ => congrArg Prod.snd h⟩

end Lowering
