import Lowering.Lower.Frame
import Lowering.Proofs.Follows.Actions

/-!
What a lowering keeps beside the program: its frame and its variables. Actions on them follow their
likes.
-/
namespace Lowering

set_option synthInstance.maxSize 10000000000000000000

variable {θ : Likeness} {β β' : Type}

theorem Follows.read {α α' : Type} {f : State → α} {g : State → α'} {Q : α → α' → Prop}
    (h : ∀ (d : Pairing θ) (s t : State), d.Paired s t → Q (f s) (g t)) :
    Follows θ (do return f (← get)) (do return g (← get)) Q :=
  .get_bind inferInstance fun d s t hst => .pure (h d s t hst)

theorem Follows.modify {f g : State → State} (hf : ∀ s, (f s).program = s.program)
    (h : ∀ (d : Pairing θ) (s t : State), d.Paired s t → d.Paired (f s) (g t)) :
    Follows θ (modify f : Emit PUnit) (modify g) Eq where
  grows := .modify hf
  run d s t s' u hst hrun _ := by
    cases hrun
    exact ⟨⟨⟩, g t, rfl, h d s t hst, rfl⟩

theorem Follows.modifyGet {α α' : Type} {f : State → α × State} {g : State → α' × State}
    {Q : α → α' → Prop} (hf : ∀ s, (f s).2.program = s.program) (h : ∀ (d : Pairing θ) (s t : State), d.Paired s t →
      d.Paired (f s).2 (g t).2 ∧ Q (f s).1 (g t).1) : Follows θ (modifyGet f : Emit α) (modifyGet g) Q where
  grows := .of_program_eq fun s a s' hrun => by cases hrun; exact hf s
  run d s t s' a hst hrun _ := by
    cases hrun
    obtain ⟨hst', hq⟩ := h d s t hst
    exact ⟨(g t).1, (g t).2, rfl, hst', hq⟩

variable {vars vars' : Array Variable} {scopes scopes' : Array (Array Nat)}

theorem Pairing.VarsLike.scopeVars {d : Pairing θ}
    (h : d.VarsLike vars scopes vars' scopes') {i i' : Nat} (hi : θ.scope i i') :
    List.Forall₂ θ.var (scopes[i]?.getD #[]).toList (scopes'[i']?.getD #[]).toList := by
  have hscope := h.scope i i' hi
  generalize scopes[i]? = xs, scopes'[i']? = ys at hscope
  cases hscope with
  | none => exact .nil
  | some hscope => exact hscope

namespace Emit

instance : Alike θ hereBlock? hereBlock? (BackLike θ) := by
  refine ⟨?_⟩
  unfold hereBlock? here
  refine .bind (Q := fun c c' => Option.Rel θ.block c.block c'.block) ?_ inferInstance
    fun c c' hc => .pure ⟨hc⟩
  exact .read fun d s t h => h.here.2.2

instance : Alike θ requireFunction requireFunction Eq :=
  ⟨.get_bind inferInstance fun d s t h => by rw [h.lowerer]; infer_instance⟩

instance : Alike θ requireTree requireTree Eq :=
  ⟨.get_bind inferInstance fun d s t h => by rw [h.lowerer]; infer_instance⟩

instance : Alike θ entryBlock entryBlock (RefLike θ) := by
  refine ⟨.get_bind (fun s => ?_) fun d s t h => ?_⟩
  · cases s.lowerer <;> infer_instance
  · rw [h.lowerer]
    cases hs : s.lowerer with
    | tree => exact .pure ⟨(h.tree (h.ofTree hs)).entry⟩
    | stack => exact absurd hs h.unstacked
    | bare => exact .throw

instance (type : MachineType) (nulled : Bool) [TypeFits θ type] :
    Alike θ (entryVar type nulled) (entryVar type nulled) (OperandLike θ) :=
  ⟨by unfold entryVar; dsimp only; infer_instance⟩

instance (line : String) : Alike θ (print line) (print line) Eq :=
  ⟨.modify (fun _ => rfl) fun _ _ _ h => { h with }⟩

instance (message : String) (line row : Option Int) :
    Alike θ (report message line row) (report message line row) Eq := by
  refine ⟨.modify (fun _ => rfl) fun d s t h => { h with reports := ?_ }⟩
  obtain ⟨more, hs, ht⟩ := h.reports
  refine ⟨more ++ [⟨message, line.getD (-1), row.getD (-1)⟩], ?_, ?_⟩
  · simp [hs]
  · simp [ht]

theorem follows_currentImpl : Follows θ currentImpl currentImpl θ.impl := by
  refine .get_bind (fun s => ?_) fun d s t h => ?_
  · cases s.lowerer <;> infer_instance
  · rw [h.lowerer]
    cases hs : s.lowerer with
    | tree => exact .pure (h.tree (h.ofTree hs)).impl
    | stack => exact absurd hs h.unstacked
    | bare => exact .throw

instance : Grows currentImpl := follows_currentImpl (θ := .equal) |>.grows
instance (i : Nat) : Grows (implOf i) := by unfold implOf; infer_instance

theorem follows_implOf {i i' : Nat} (hi : θ.impl i i') : Follows θ (implOf i) (implOf i') (ImplLike θ) :=
  .read fun _ _ _ h => h.impl i i' hi

theorem follows_scopeVars {i i' : Nat} (hi : θ.scope i i') :
    Follows θ (scopeVars i) (scopeVars i') (List.Forall₂ θ.var) :=
  .read fun _ _ _ h => h.vars.scopeVars hi

end Emit

theorem Pairing.VarsLike.get {d : Pairing θ} (h : d.VarsLike vars scopes vars' scopes') {i i' : Nat}
    (hi : θ.var i i') : Option.Rel (VariableLike θ) vars[i]? vars'[i']? := by
  obtain ⟨k, rfl, rfl⟩ := (d.var_iff i i').1 hi
  have hsize := h.size
  by_cases hk : d.vars + k < vars.size
  · have hk' : d.vars' + k < vars'.size := by omega
    rw [Array.getElem?_eq_getElem hk, Array.getElem?_eq_getElem hk']
    exact .some (h.like k _ _ (Array.getElem?_eq_getElem hk) (Array.getElem?_eq_getElem hk'))
  · rw [Array.getElem?_eq_none (by omega), Array.getElem?_eq_none (by omega)]
    exact .none

theorem Pairing.VarsLike.var_size {d : Pairing θ}
    (h : d.VarsLike vars scopes vars' scopes') : θ.var vars.size vars'.size := by
  have hle := h.le
  have hsize := h.size
  exact (d.var_iff _ _).2 ⟨vars.size - d.vars, by omega, by omega⟩

theorem Pairing.VarsLike.push {d : Pairing θ} (h : d.VarsLike vars scopes vars' scopes') {i i' : Nat}
    (hi : θ.scope i i') {v v' : Variable} (hv : VariableLike θ v v') :
    d.VarsLike (vars.push v) (scopes.modify i (·.push vars.size)) (vars'.push v')
      (scopes'.modify i' (·.push vars'.size)) := by
  have hle := h.le
  have hsize := h.size
  have hnext := h.var_size
  obtain ⟨hscope, hscope'⟩ := d.scope_eq i i' hi
  refine ⟨by simp; omega, by simp; omega, fun k w w' hw hw' => ?_, fun j j' hj => ?_, fun k hk => ?_,
    by simp [h.count]⟩
  · simp only [Array.getElem?_push] at hw hw'
    by_cases hk : d.vars + k = vars.size
    · rw [if_pos hk] at hw
      rw [if_pos (by omega)] at hw'
      cases hw
      cases hw'
      exact hv
    · rw [if_neg hk] at hw
      rw [if_neg (by omega)] at hw'
      exact h.like k w w' hw hw'
  · obtain ⟨rfl, rfl⟩ := d.scope_eq j j' hj
    subst hscope hscope'
    have hrel := h.scope _ _ hi
    simp only [Array.getElem?_modify, if_true]
    generalize scopes[d.scope]? = xs, scopes'[d.scope']? = ys at hrel
    cases hrel with
    | none => exact .none
    | some hrel =>
      refine .some ?_
      simp only [Array.toList_push]
      exact List.rel_append hrel (.cons hnext .nil)
  · rw [Array.getElem?_modify, if_neg (by omega)]
    exact h.others k hk

namespace Emit

theorem variableLike_default : VariableLike θ default default := ⟨rfl, rfl, .empty, rfl, rfl⟩

class VariableAlike (θ : Likeness) (v v' : Variable) : Prop where
  like : VariableLike θ v v'

instance (p : Pair (VariableAlike θ)) : VariableAlike θ p.left p.right := p.like

instance (v v' : Variable) [h : VariableAlike θ v v'] :
    OperandLike θ (Lower.slotOperand v.slot) (Lower.slotOperand v'.slot) := by
  cases hv : v.slot <;> cases hv' : v'.slot <;> have hslot := h.like.slot <;> rw [hv, hv'] at hslot <;>
    cases hslot
  · exact .same nofun
  · assumption
  · exact .same nofun

variable {i i' : Nat}

instance [hi : VarLike θ i i'] : Alike θ (varAt i) (varAt i') (VariableAlike θ) := by
  refine ⟨.read fun d s t h => ⟨?_⟩⟩
  have hv := h.vars.get hi.like
  cases hs : s.vars[i]? <;> cases ht : t.vars[i']? <;> rw [hs, ht] at hv <;> cases hv
  · exact variableLike_default
  · assumption

instance (v : Variable) : VariableAlike .equal v v where
  like := ⟨rfl, rfl, by cases v.slot <;> constructor; infer_instance, rfl, rfl⟩

instance (x y : Emit Variable) (f : Variable → Emit β) (g : Variable → Emit β') (R : β → β' → Prop)
    [Follows θ x y (VariableAlike θ)] [∀ a, (f a).Grows]
    [h : ∀ p : Pair (VariableAlike θ), Follows θ (f p.left) (g p.right) R] : Follows θ (x >>= f) (y >>= g) R :=
  .bind inferInstance inferInstance fun v v' hv => h ⟨v, v', hv⟩

theorem follows_modifyVariable (hi : θ.var i i') {f g : Variable → Variable}
    (hfg : ∀ v v', VariableLike θ v v' → VariableLike θ (f v) (g v')) :
    Follows θ (modifyVariable i f) (modifyVariable i' g) Eq := by
  refine .modify (fun _ => rfl) fun d s t h => { h with vars := ?_ }
  obtain ⟨k, rfl, rfl⟩ := (d.var_iff i i').1 hi
  refine ⟨by simpa using h.vars.le, by simpa using h.vars.size, fun j v v' hv hv' => ?_,
    h.vars.scope, h.vars.others, h.vars.count⟩
  simp only [Array.getElem?_modify, Nat.add_left_cancel_iff] at hv hv'
  by_cases hkj : k = j
  · subst hkj
    rw [if_pos rfl] at hv hv'
    obtain ⟨w, hw, rfl⟩ := Option.map_eq_some_iff.1 hv
    obtain ⟨w', hw', rfl⟩ := Option.map_eq_some_iff.1 hv'
    exact hfg w w' (h.vars.like k w w' hw hw')
  · rw [if_neg hkj] at hv hv'
    exact h.vars.like j v v' hv hv'

instance (a a' : Operand) [hi : VarLike θ i i'] [ha : OperandLike θ a a'] :
    Alike θ (modifyVariable i fun v => { v with slot := .value a })
      (modifyVariable i' fun v => { v with slot := .value a' }) Eq :=
  ⟨follows_modifyVariable hi.like fun _ _ h => { h with slot := .value ha }⟩

instance [hi : VarLike θ i i'] : Alike θ (modifyVariable i fun v => { v with used := false })
      (modifyVariable i' fun v => { v with used := false }) Eq :=
  ⟨follows_modifyVariable hi.like fun _ _ h => { h with }⟩

section Counting

variable (type : Option ValueType) (v v' w w' : Operand) [OperandLike θ v v'] [OperandLike θ w w']

instance : Alike θ (countPtr type v) (countPtr type v') (Option.Rel (OperandLike θ)) := ⟨by
  unfold countPtr
  cases type <;> infer_instance⟩

instance (t : ValueType) : Alike θ (releaseCounted t v) (releaseCounted t v') Eq :=
  ⟨by unfold releaseCounted; infer_instance⟩

instance : Alike θ (releaseNullable type v) (releaseNullable type v') Eq := ⟨by
  unfold releaseNullable
  cases type <;> infer_instance⟩

end Counting

instance (v v' : Variable) [h : VariableAlike θ v v'] : Alike θ (releaseVariable v) (releaseVariable v') Eq := ⟨by
  obtain ⟨-, htype, hslot, harg, hglobal⟩ := h.like
  unfold releaseVariable
  rw [htype, harg, hglobal]
  generalize v.slot = a at hslot ⊢
  generalize v'.slot = a' at hslot ⊢
  cases hslot with
  | empty => exact .pure rfl
  | global i =>
    simp only [Follows.throw_bind]
    infer_instance
  | value hv =>
    have hne : ∀ w, (Slot.value w != Slot.empty) = true := fun _ => rfl
    simp only [hne, Follows.throw_bind]
    cases hv with
    | id hn =>
      have := OperandLike.id hn
      infer_instance
    | same hv =>
      have := OperandLike.same (θ := θ) hv
      rename_i w
      cases w <;> infer_instance⟩

instance : Alike θ releaseVariables releaseVariables Eq := ⟨by
  unfold releaseVariables
  refine .bind follows_currentImpl inferInstance fun i i' hi => ?_
  refine .bind (follows_implOf hi) inferInstance fun m m' hm => ?_
  refine .bind (follows_scopeVars hm.scope) inferInstance fun vs vs' hvs => ?_
  refine .bind (.forEach hvs inferInstance (fun j j' _ hj => ?_) _) inferInstance fun _ _ _ => .pure rfl
  have : VarLike θ j j' := ⟨hj⟩
  infer_instance⟩

end Emit
end Lowering
