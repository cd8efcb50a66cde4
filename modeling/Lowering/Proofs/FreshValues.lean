import Lowering.Proofs.Targets

/-!
Expressions that compute a value of their own. The values of a function are numbered by a counter that only goes up,
and most expressions end with an instruction whose value they leave. Lowering such an expression again therefore gives
another value, with a greater number.
-/
namespace Lowering

open Emit

set_option synthInstance.maxSize 100000000

variable {α β : Type} {f m : Nat}

/-- A tree is being lowered to a function, and numbers up to one have been given to values of it. -/
structure State.Counts (f m : Nat) (s : State) : Prop where
  lowerer : s.lowerer = .tree
  cursor : ∃ c : Cursor, s.program.cursors[s.cursor]? = some c ∧ c.func = f
  next : ∃ g : Func, s.program.funcs[f]? = some g ∧ m ≤ g.nextValue

theorem State.Counts.here {s : State} (hs : s.Counts f m) : s.here.func = f := by
  obtain ⟨c, hc, rfl⟩ := hs.cursor
  rw [State.here, hc, Option.getD_some]

/-- The function in hand stays the same, and its counter does not go down. -/
def counting (f m : Nat) : Regime where
  Holds := State.Counts f m
  Room _ := True
  Loose _ := True

theorem State.Counts.mapFunc {s : State} {i : Nat} {g : Func → Func} (hs : s.Counts f m)
    (hg : ∀ h : Func, h.nextValue ≤ (g h).nextValue) : (s.withProgram (s.program.mapFunc i g)).Counts f m := by
  obtain ⟨h, hh, hm⟩ := hs.next
  refine ⟨hs.lowerer, hs.cursor, ?_⟩
  change ∃ g' : Func, (s.program.mapFunc i g).funcs[f]? = some g' ∧ _
  rw [Program.getElem?_mapFunc, hh]
  split
  · exact ⟨g h, rfl, Nat.le_trans hm (hg h)⟩
  · exact ⟨h, rfl, hm⟩

instance : (counting f m).Basic where
  lowerer hs := hs.lowerer
  entry _ := trivial
  stands _ _ := trivial
  adds := by
    rintro s q ⟨hlowerer, ⟨c, hc, hf⟩, g, hg, hm⟩ hadds
    exact ⟨hlowerer, ⟨c, Program.getElem?_mono hadds.cursors hc, hf⟩, g,
      Program.getElem?_mono hadds.funcs hg, hm⟩
  mapBlock _ hs _ := hs.mapFunc fun _ => Nat.le_refl _
  counted hs := hs.mapFunc fun _ => Nat.le_succ _
  addBlock _ hs := ⟨hs.mapFunc fun _ => Nat.le_refl _, trivial⟩
  moveTo := by
    rintro s ref ⟨hlowerer, ⟨c, hc, hf⟩, hnext⟩ -
    refine ⟨hlowerer, ⟨{ c with block := ref }, ?_, hf⟩, hnext⟩
    change (s.program.cursors.modify s.cursor _)[s.cursor]? = _
    rw [Array.getElem?_modify, if_pos rfl, hc]
    rfl
  addVariable _ _ hs := ⟨{ hs with }, trivial⟩
  setSlot _ hs _ := { hs with }
  setUsed _ _ hs := { hs with }
  beside hs hprogram hcursor hlowerer _ _ _ _ _ _ :=
    ⟨hlowerer.trans hs.lowerer, by rw [hprogram, hcursor]; exact hs.cursor, by rw [hprogram]; exact hs.next⟩

instance (r : BlockRef) : Inside (counting f m) r := ⟨trivial⟩

/-- The last value is one that got a new number. -/
def State.Owns (f m : Nat) (s : State) : Prop :=
  ∃ i : Nat, s.tree.last.value = .id i ∧ m ≤ i ∧ s.Counts f (i + 1)

/-- The last value stays while code is emitted. -/
def owning (f i : Nat) : Regime where
  Holds s := s.tree.last.value = .id i ∧ s.Counts f (i + 1)
  Room _ := True
  Loose _ := True

instance (i : Nat) : (owning f i).Plain where
  lowerer hs := hs.2.lowerer
  entry _ := trivial
  stands _ _ := trivial
  adds hs h := ⟨hs.1, Regime.Writes.adds (R := counting f (i + 1)) hs.2 h⟩
  mapBlock _ hs _ := ⟨hs.1, hs.2.mapFunc fun _ => Nat.le_refl _⟩
  counted hs := ⟨hs.1, hs.2.mapFunc fun _ => Nat.le_succ _⟩
  addBlock _ hs := ⟨⟨hs.1, hs.2.mapFunc fun _ => Nat.le_refl _⟩, trivial⟩
  moveTo hs _ := ⟨hs.1, Regime.Writes.moveTo (R := counting f (i + 1)) hs.2 fun _ _ => trivial⟩
  printed hs hprogram hcursor hlowerer htree himpls hdefinitions hvars hscopes hreports := ⟨htree ▸ hs.1,
    Regime.Plain.printed (R := counting f (i + 1)) hs.2 hprogram hcursor hlowerer htree himpls hdefinitions hvars hscopes
      hreports⟩
  addVariable _ _ hs := ⟨⟨hs.1, { hs.2 with }⟩, trivial⟩
  setSlot _ hs _ := ⟨hs.1, { hs.2 with }⟩
  setUsed _ _ hs := ⟨hs.1, { hs.2 with }⟩

namespace Emit

instance (priority := low) (x : Emit α) [hx : ∀ i, Heeds (owning f i) x] : Preserves (State.Owns f m) x :=
  heeds_lasting <| by
    rintro s s' a ⟨i, hi, hm, hs⟩ h
    obtain ⟨hi', hs'⟩ := holds_of_ok (R := owning f i) ⟨hi, hs⟩ h
    exact ⟨i, hi', hm, hs'⟩

instance (priority := low) (x : Emit α) [hx : Heeds (counting f m) x] : Preserves (State.Counts f m) x :=
  heeds_lasting fun hs h => holds_of_ok (R := counting f m) hs h

/-- What the action gives is a value with a new number. -/
class Fresh (value : α → Operand) (x : Emit α) : Prop where
  number : ∀ {f m : Nat} {s s' : State} {a : α}, s.Counts f m → x s = .ok a s' →
    ∃ i : Nat, value a = .id i ∧ m ≤ i ∧ s'.Counts f (i + 1)

section Rules

variable {value : α → Operand}

instance (mk : Nat → Instr) : Fresh id (assign mk) where
  number {f m s s' v} hs h := by
    have hs' : s'.Counts f m := ((heeds_assign mk).holds_of_ok (R := counting f m) hs h).2
    obtain ⟨ref, g, -, hg, -, rfl, rfl⟩ := assign_eq_ok.1 h
    rw [hs.here] at hg
    have hm : m ≤ g.nextValue := by
      obtain ⟨h, hh, hm⟩ := hs.next
      cases hg.symm.trans hh
      exact hm
    have hplaced : ∃ h : Func, (s.program.mapBlock ref fun b => (b.push (mk g.nextValue)).1).funcs[f]? = some h ∧
        h.nextValue = g.nextValue := by
      rw [Program.mapBlock, Program.getElem?_mapFunc, hg]
      split <;> exact ⟨_, rfl, rfl⟩
    obtain ⟨h, hh, hnext⟩ := hplaced
    refine ⟨g.nextValue, rfl, hm, hs'.lowerer, hs'.cursor, { h with nextValue := h.nextValue + 1 }, ?_, ?_⟩
    · rw [hs.here]
      exact Program.getElem?_mapFunc_self hh
    · exact Nat.le_of_eq (congrArg (· + 1) hnext.symm)

instance (x : Emit β) (g : β → Emit α) [hx : ∀ f m, Heeds (counting f m) x] [hg : ∀ b, Fresh value (g b)] :
    Fresh value (x >>= g) where
  number hs h := by
    obtain ⟨b, s1, hb, ha⟩ := bind_eq_ok.1 h
    exact (hg b).number (Preserves.of_ok hs hb) ha

instance (c : Prop) [Decidable c] (x y : Emit α) [Fresh value x] [Fresh value y] :
    Fresh value (if c then x else y) := by
  split <;> infer_instance

instance (x : Emit Operand) (y : Operand → Emit β) [hx : Fresh id x] [hy : ∀ v f m, Heeds (counting f m) (y v)] :
    Fresh id (do let v ← x; let _ ← y v; return v) where
  number hs h := by
    obtain ⟨v, s1, hv, h⟩ := bind_eq_ok.1 h
    obtain ⟨b, s2, hb, h⟩ := bind_eq_ok.1 h
    obtain ⟨rfl, rfl⟩ := pure_eq_ok.1 h
    obtain ⟨i, hi, hm, hs1⟩ := hx.number hs hv
    exact ⟨i, hi, hm, Preserves.of_ok hs1 hb⟩

theorem Leads.fresh {x : Emit Operand} [hx : Fresh id x] {g : Operand → Emit β} {K : State → Prop}
    (h : ∀ i : Nat, m ≤ i → Leads (State.Counts f (i + 1)) K (g (.id i))) : Leads (State.Counts f m) K (x >>= g) := by
  intro s s' b hs hb
  obtain ⟨v, s1, hv, hb⟩ := bind_eq_ok.1 hb
  obtain ⟨i, rfl, hm, hs1⟩ := hx.number hs hv
  exact h i hm hs1 hb

end Rules

section Emission

instance (a : Operand) : Fresh id (load a) := by unfold load; infer_instance
instance (i : Nat) (args : List Operand) : Fresh id (call i args) := by unfold call; infer_instance
instance (i : Nat) : Fresh id (globalVar i) := by unfold globalVar; infer_instance

instance (name : String) (args : List Operand) : Fresh id (callObjects name args) := by
  unfold callObjects; infer_instance

instance (self callable : Operand) (args : Batch Operand) (kw : Keywords) :
    Fresh id (callCallable self callable args kw) := by
  unfold callCallable; infer_instance

end Emission
end Emit

namespace Lower

instance (object : Operand) (l : Label) (args : List Operand) (kw : Keywords) :
    Fresh id (callMember object l args kw) := by
  unfold callMember; infer_instance

section Values

theorem leads_setLast {i : Nat} (hi : m ≤ i) (t : Option ValueType) :
    Leads (State.Counts f (i + 1)) (State.Owns f m) (setLast ⟨t, .id i⟩) := by
  intro s s' u hs h
  cases h
  exact ⟨i, rfl, hi, { hs with }⟩

theorem leads_setLastValue {i : Nat} (hi : m ≤ i) :
    Leads (State.Counts f (i + 1)) (State.Owns f m) (setLastValue (.id i)) := by
  intro s s' u hs h
  cases h
  exact ⟨i, rfl, hi, { hs with }⟩

instance (t : Option ValueType) : Preserves (State.Owns f m) (setLastType t) :=
  heeds_lasting <| by
    rintro s s' a ⟨i, hi, hm, hs⟩ h
    cases h
    exact ⟨i, hi, hm, { hs with }⟩

end Values

variable (r : Recur) [hr : ∀ f m n, Heeds (counting f m) (r.visit n)]

theorem Reference.leads_read (p : Reference) : Leads (State.Counts f m) (State.Owns f m) p.read := by
  cases p with
  | named id => exact .keep fun _ => .keep fun a => .fresh fun i hi => leads_setLastValue hi
  | member object attr => exact .keep fun text => .fresh fun i hi => leads_setLast hi _
  | item sequence index => exact .fresh fun i hi => .bind (leads_setLastValue hi) fun _ => .of_preserves

section Expressions

variable (a b c : Node) (op : Option Operator)

theorem leads_constant (c : Constant) : Leads (State.Counts f m) (State.Owns f m) (constant c) := by
  refine .keep fun _ => ?_
  split
  · exact .keep fun i => .fresh fun i hi => leads_setLastValue hi
  · exact .keep fun i => .keep fun v => .fresh fun i hi => leads_setLastValue hi

theorem leads_binOp : Leads (State.Counts f m) (State.Owns f m) (binOp r a op b) := by
  refine .keep fun l => .keep fun _ => .keep fun v => .keep fun _ => .keep fun name => ?_
  exact .fresh fun i hi => .bind (leads_setLast hi _) fun _ => .keep fun _ => .of_preserves

theorem leads_callExpr : Leads (State.Counts f m) (State.Owns f m) (callExpr r a b c) := by
  refine .keep fun name => .keep fun s => .keep fun keywords => .keep fun pairs => .keep fun args => .keep fun values => ?_
  refine .keep fun _ => ?_
  split
  · exact .keep fun callable => .keep fun _ => .fresh fun i hi => leads_setLastValue hi
  · exact .fresh fun i hi => leads_setLast hi _

theorem leads_unaryOp (hop : op ≠ some .not) : Leads (State.Counts f m) (State.Owns f m) (unaryOp r op a) := by
  refine .keep fun o => .keep fun ptr => ?_
  dsimp only
  -- Whatever the operator, its function is called.
  split <;>
  · refine .keep fun e => .keep fun g => .fresh fun i hi => .bind (leads_setLast hi _) fun _ => ?_
    rw [if_neg hop]
    exact .of_preserves

theorem leads_list : Leads (State.Counts f m) (State.Owns f m) (list r a) := by
  refine .keep fun terms => .keep fun size => .fresh fun i hi => ?_
  exact .bind (leads_setLast hi _) fun _ => .of_preserves

theorem leads_tuple : Leads (State.Counts f m) (State.Owns f m) (tuple r a) := by
  refine .keep fun terms => .keep fun size => .fresh fun i hi => ?_
  exact .bind (leads_setLast hi _) fun _ => .of_preserves

theorem leads_set : Leads (State.Counts f m) (State.Owns f m) (set r a) := by
  refine .keep fun ptr => .keep fun zero => .fresh fun i hi => ?_
  exact .keep fun items => .keep fun _ => leads_setLast hi _

theorem leads_dict : Leads (State.Counts f m) (State.Owns f m) (dict r a b) := by
  refine .fresh fun i hi => ?_
  exact .keep fun items => .keep fun _ => leads_setLast hi _

theorem leads_slice : Leads (State.Counts f m) (State.Owns f m) (slice r a b c) := by
  refine .keep fun lower => .keep fun upper => .keep fun step => .keep fun _ => ?_
  exact .fresh fun i hi => leads_setLastValue hi

end Expressions

/-- Whether an expression ends with the instruction that computes its value. -/
def isComputed (n : Node) : Bool :=
  match n.form with
  | .name .. | .memberOf .. | .subscript .. => n.usage == some .load
  | .unaryOp op _ => op != some .not
  | .constant _ | .binOp .. | .call .. | .list .. | .tuple .. | .set .. | .dict .. | .slice .. => true
  | _ => false

theorem leads_construct {n : Node} (hn : isComputed n = true) (hplace : isPlace n = false) :
    Leads (State.Counts f m) (State.Owns f m) (construct r n) := by
  unfold isComputed at hn
  rw [construct]
  split at hn
  · simp_all [isPlace]
  · simp_all [isPlace]
  · simp_all [isPlace]
  · next op a hform => rw [hform]; exact leads_unaryOp r a op (by simpa using hn)
  · next c hform => rw [hform]; exact leads_constant c
  · next a op b hform => rw [hform]; exact leads_binOp r a b op
  · next a b c hform => rw [hform]; exact leads_callExpr r a b c
  · next a _ hform => rw [hform]; exact leads_list r a
  · next a _ hform => rw [hform]; exact leads_tuple r a
  · next a hform => rw [hform]; exact leads_set r a
  · next a b hform => rw [hform]; exact leads_dict r a b
  · next a b c hform => rw [hform]; exact leads_slice r a b c
  · cases hn

/-- The usage that is replaced is not that of the token. -/
def untouched (k : Option (Nat × Option Usage)) (n : Node) : Prop := ∀ e ∈ k, e.1 ≠ n.mark.key

theorem usageUnder_of_untouched {k : Option (Nat × Option Usage)} {n : Node} (h : untouched k n) :
    usageUnder k n = n.usage := by
  cases k with
  | none => rfl
  | some e => exact if_neg (h e rfl)

variable {fuel : Nat} {n : Node} {s s' : State}

/-- An expression that is computed leaves a value with a new number. -/
theorem owns_of_visit (hn : isComputed n = true) (hk : untouched s.tree.replaced n) (hs : s.Counts f m) {u : Unit}
    (h : (recur (fuel + 1)).visit n s = .ok u s') : s'.Owns f m := by
  cases hplace : isPlace n with
  | true =>
    have hload : usageUnder s.tree.replaced n = some .load := by
      rw [usageUnder_of_untouched hk]
      unfold isPlace at hplace
      unfold isComputed at hn
      split at hplace <;> simp_all
    rw [visit_of_isPlace hplace hs.lowerer hload, discard_eq] at h
    obtain ⟨p, s1, hp, h⟩ := bind_eq_ok.1 h
    cases h
    exact Leads.keep (fun _ => .keep fun p => .bind p.leads_read fun _ => .of_preserves) hs hp
  | false =>
    have hconstruct : n.isConstruct = true := by
      unfold isComputed at hn
      split at hn <;> simp_all [Node.isConstruct]
    rw [visit_of_isConstruct hconstruct] at h
    exact Leads.keep (fun _ => leads_construct (recur fuel) hn hplace) hs h

/-- The value has a number of a range. -/
def Ranges (m m' : Nat) (v : Operand) : Prop := ∃ i : Nat, v = .id i ∧ m ≤ i ∧ i < m'

theorem Ranges.mono {m' l l' : Nat} {v : Operand} (h : Ranges m m' v) (hl : l ≤ m) (hl' : m' ≤ l') : Ranges l l' v := by
  obtain ⟨i, hi, hm, hm'⟩ := h
  exact ⟨i, hi, Nat.le_trans hl hm, Nat.lt_of_lt_of_le hm' hl'⟩

theorem not_mem_of_ranges {m' l l' : Nat} {vs ws : List Operand} (hvs : ∀ v ∈ vs, Ranges m m' v)
    (hws : ∀ w ∈ ws, Ranges l l' w) (h : m' ≤ l) : ∀ v ∈ vs, v ∉ ws := by
  intro v hv hw
  obtain ⟨i, rfl, -, hi⟩ := hvs v hv
  obtain ⟨j, hj, hl, -⟩ := hws _ hw
  have := Operand.id.inj hj
  omega

theorem ranges_of_term {t : Term} (hn : isComputed n = true) (hk : untouched s.tree.replaced n) (hs : s.Counts f m)
    (h : (recur (fuel + 1)).term n s = .ok t s') : ∃ m', m ≤ m' ∧ s'.Counts f m' ∧ Ranges m m' t.value := by
  obtain ⟨u, s1, hu, h⟩ := bind_eq_ok.1 h
  obtain ⟨i, hi, hm, hs1⟩ := owns_of_visit hn hk hs hu
  cases h
  exact ⟨i + 1, by omega, hs1, i, hi, hm, by omega⟩

/-- What a target is evaluated to is made of as many values as there are expressions in it, and they are new. -/
theorem ranges_of_evaluate {p : Reference} (hbases : ∀ b ∈ bases n, isComputed b = true ∧ untouched s.tree.replaced b)
    (hs : s.Counts f m) (h : evaluate (recur (fuel + 1)) n s = .ok p s') : p.operands.length = (bases n).length ∧
      ∃ m', m ≤ m' ∧ s'.Counts f m' ∧ ∀ v ∈ p.operands, Ranges m m' v := by
  cases hform : n.form with
  | name id u =>
    rw [evaluate, hform] at h
    cases h
    exact ⟨by simp [bases, hform, Reference.operands], m, Nat.le_refl m, hs, by simp [Reference.operands]⟩
  | memberOf value attr u =>
    rw [evaluate, hform] at h
    obtain ⟨_, s1, h1, h⟩ := bind_eq_ok.1 h
    obtain ⟨object, s2, h2, h⟩ := bind_eq_ok.1 h
    obtain ⟨hvalue, hk⟩ := hbases value (by simp [bases, hform])
    have hk1 : untouched s1.tree.replaced value := by
      cases h1
      exact hk
    obtain ⟨m', hm, hs2, hrange⟩ := ranges_of_term hvalue hk1 (Preserves.of_ok hs h1) h2
    cases h
    exact ⟨by simp [bases, hform, Reference.operands], m', hm, hs2, by simpa [Reference.operands] using hrange⟩
  | subscript value slice u =>
    rw [evaluate, hform] at h
    obtain ⟨sequence, s1, h1, h⟩ := bind_eq_ok.1 h
    obtain ⟨index, s2, h2, h⟩ := bind_eq_ok.1 h
    obtain ⟨hvalue, hk⟩ := hbases value (by simp [bases, hform])
    obtain ⟨hslice, hk'⟩ := hbases slice (by simp [bases, hform])
    obtain ⟨m1, hm1, hs1, hrange1⟩ := ranges_of_term hvalue hk hs h1
    have hk1 : untouched s1.tree.replaced slice := by
      have hmarked : s1.Marked s.tree.replaced := Preserves.of_ok ⟨hs.lowerer, rfl⟩ h1
      rwa [hmarked.replaced]
    obtain ⟨m2, hm2, hs2, hrange2⟩ := ranges_of_term hslice hk1 hs1 h2
    cases h
    refine ⟨by simp [bases, hform, Reference.operands], m2, Nat.le_trans hm1 hm2, hs2, ?_⟩
    simp only [Reference.operands, List.mem_cons, List.not_mem_nil, or_false, forall_eq_or_imp, forall_eq]
    exact ⟨hrange1.mono (Nat.le_refl _) hm2, hrange2.mono hm1 (Nat.le_refl _)⟩
  | _ =>
    rw [evaluate, hform] at h
    exact absurd h throw_ne_ok

theorem ranges_of_evaluateFor {p : Reference} {use : Reference → Emit Unit} [∀ m p, Heeds (counting f m) (use p)]
    (hbases : ∀ b ∈ bases n, isComputed b = true ∧ untouched s.tree.replaced b) (hs : s.Counts f m)
    (h : evaluateFor (fuel + 1) n use s = .ok p s') : p.operands.length = (bases n).length ∧
      ∃ m', m ≤ m' ∧ s'.Counts f m' ∧ ∀ v ∈ p.operands, Ranges m m' v := by
  obtain ⟨_, s1, h1, h⟩ := bind_eq_ok.1 h
  obtain ⟨q, s2, h2, h⟩ := bind_eq_ok.1 h
  obtain ⟨_, s3, h3, h⟩ := bind_eq_ok.1 h
  obtain ⟨rfl, rfl⟩ := pure_eq_ok.1 h
  have hmarked : s1.Marked s.tree.replaced := Preserves.of_ok ⟨hs.lowerer, rfl⟩ h1
  obtain ⟨hlength, m', hm, hs2, hrange⟩ := ranges_of_evaluate (hmarked.replaced ▸ hbases) (Preserves.of_ok hs h1) h2
  exact ⟨hlength, m', hm, Preserves.of_ok hs2 h3, hrange⟩

end Lower
end Lowering
