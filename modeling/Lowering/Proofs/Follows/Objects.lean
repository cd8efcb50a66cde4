import Lowering.Proofs.Follows.Frame

/-!
Code on objects of the running program follows its like: boxing, members, exceptions, collections and
conditions.
-/
namespace Lowering.Emit

set_option synthInstance.maxSize 10000000000000000000

variable {θ : Likeness} {a a' b b' c c' : Operand} {r r' k k' : BlockRef}
variable [OperandLike θ a a'] [OperandLike θ b b'] [OperandLike θ c c'] [RefLike θ r r']
  [RefLike θ k k']

instance (sort : ConstantSort) (function : String) (param : MachineType) (t : ValueType)
    [Takes θ function 1] [TypeFits θ param] :
    Alike θ (boxNumber sort function param t a) (boxNumber sort function param t a') (TermLike θ) := ⟨by
  unfold boxNumber
  rcases t.findHint? (.constant sort) with _ | _ | _ <;> infer_instance⟩

instance (type : Option ValueType) : Alike θ (box a type) (box a' type) (TermLike θ) :=
  ⟨by unfold box; infer_instance⟩

instance (name : Label) : Alike θ (getAttribute a name) (getAttribute a' name) (OperandLike θ) :=
  ⟨by unfold getAttribute; dsimp only; infer_instance⟩
instance (name : Label) : Alike θ (setAttribute a name b) (setAttribute a' name b') Eq :=
  ⟨by unfold setAttribute; dsimp only; infer_instance⟩

theorem follows_raiseNamed {name : String} (hname : ∀ k, Program.constantName k ≠ name) :
    Follows θ (raiseNamed name) (raiseNamed name) Eq := by
  have := Program.Request.global hname
  unfold raiseNamed
  infer_instance

instance : Alike θ raiseIndexError raiseIndexError Eq :=
  ⟨follows_raiseNamed fun _ => Program.constantName_ne (by decide)⟩

instance : Alike θ toHandler toHandler Eq := by
  refine ⟨.get_bind (fun s => ?_) fun d s t h => ?_⟩
  · cases s.lowerer <;> rcases s.tree.handlers with _ | ⟨_ | _, _⟩ <;> infer_instance
  · rw [h.lowerer]
    cases hs : s.lowerer with
    | stack => exact .throw
    | bare => exact .throw
    | tree =>
      have hhandlers := (h.tree (h.ofTree hs)).handlers
      generalize s.tree.handlers = xs, t.tree.handlers = ys at hhandlers
      cases hhandlers with
      | nil => infer_instance
      | cons hhandler _ =>
        cases hhandler with
        | none => infer_instance
        | some hr =>
          have : RefLike θ _ _ := ⟨hr⟩
          infer_instance

instance : Alike θ (listLength a) (listLength a') (OperandLike θ) :=
  ⟨by unfold listLength; infer_instance⟩
instance (type : Option ValueType) : Alike θ (listItem type a b) (listItem type a' b') (OperandLike θ) :=
  ⟨by unfold listItem; infer_instance⟩

instance (v : Operand) (n : Int) : Alike θ (offset v n) (offset v n) Eq := ⟨by
  unfold offset
  split
  · exact .pure rfl
  · exact .pure rfl
  · exact .throw⟩

instance : Grows (tupleItem a b) := by unfold tupleItem; infer_instance

end Lowering.Emit
