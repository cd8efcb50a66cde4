import Lowering.Entry
import Lowering.Proofs.Follows.Tree

/-!
The entry point of a program follows itself. It is emitted as no lowering of a function, so it may look
at the implementations of all functions.
-/
namespace Lowering

open Emit

set_option synthInstance.maxSize 10000000000000000000

/-- No function is being lowered. -/
class OfBare (θ : Likeness) : Prop where
  tree : ¬ θ.tree

theorem Pairing.Paired.impls_eq {θ : Likeness} [hθ : OfBare θ] {d : Pairing θ} {s t : State}
    (h : d.Paired s t) : t.impls = s.impls := by
  refine h.bare ?_
  cases hs : s.lowerer with
  | tree => exact absurd (h.ofTree hs) hθ.tree
  | stack => exact absurd hs h.unstacked
  | bare => rfl

namespace Entry

variable {θ : Likeness}

instance (c : Constant) : Alike θ (pooled c) (pooled c) Eq := ⟨by
  unfold pooled
  refine .get_bind_of_grown (fun s => inferInstance) fun d s t h hgrown => ?_
  cases hc : s.program.findConstant c with
  | none => exact .throw
  | some i =>
    rw [Program.findConstant_mono (hgrown.constants.trans h.program.ahead.constants) hc]
    exact .pure rfl⟩

instance (items : List Constant) : Alike θ (constantTuple items) (constantTuple items) (OperandLike θ) :=
  ⟨by unfold constantTuple; infer_instance⟩

instance (c : Constant) : Alike θ (constantObject c) (constantObject c) (OperandLike θ) := ⟨by
  unfold constantObject
  cases c <;> infer_instance⟩

instance (constants : Array (Constant × Nat)) : Alike θ (fill constants) (fill constants) Eq := ⟨by
  unfold fill
  infer_instance⟩

instance : Alike θ startUp startUp Eq := ⟨by unfold startUp; infer_instance⟩
instance : Alike θ handOver handOver Eq := ⟨by unfold handOver; infer_instance⟩

instance (m : Impl) : Alike θ (codePtr m) (codePtr m) (OperandLike θ) := ⟨by
  unfold codePtr
  cases m.code <;> infer_instance⟩

instance (d : Definition) (c : Convention) : Grows (implWith d c) := by
  unfold implWith
  infer_instance

instance (d : Definition) (c : Convention) [OfBare θ] : Follows θ (implWith d c) (implWith d c) Eq :=
  .read fun _ s t h => by rw [h.impls_eq]

instance (f f' : Nat) [CalleeLike θ 3 f f'] (d : Definition) (m k : Impl) :
    Alike θ (register f d m k) (register f' d m k) Eq := ⟨by
  unfold register
  cases d.node.form <;> infer_instance⟩

instance (i : Nat) : Grows (registerDefinition i) := by
  unfold registerDefinition
  infer_instance

instance (file : Nat) : Grows (registerFile file) := by
  unfold registerFile
  infer_instance

instance : Grows registerFiles := by
  unfold registerFiles
  infer_instance

section Bare

variable [OfBare θ]

instance (i : Nat) : Follows θ (registerDefinition i) (registerDefinition i) Eq := by
  unfold registerDefinition
  refine .get_bind (fun s => inferInstance) fun _ s t h => ?_
  rw [h.definitions.2]
  infer_instance

instance (file : Nat) : Follows θ (registerFile file) (registerFile file) Eq := by
  unfold registerFile
  refine .get_bind (fun s => inferInstance) fun _ s t h => ?_
  rw [h.files.1]
  infer_instance

instance : Follows θ registerFiles registerFiles Eq := by
  unfold registerFiles
  refine .get_bind (fun s => inferInstance) fun _ s t h => ?_
  rw [h.files.2]
  infer_instance

end Bare

end Entry
end Lowering
