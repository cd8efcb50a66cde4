import Lowering.Proofs.Follows.Tree

/-!
The lowering of an expression follows itself if the lowering of what is inside does.
-/
namespace Lowering.Lower

open Emit

set_option synthInstance.maxSize 10000000000000000000

variable {θ : Likeness} {β β' : Type} {R : β → β' → Prop}

instance (x : Emit (Option Usage)) (f : Option Usage → Emit β) [Grows x] [Grows (f none)]
    [Grows (f (some .load))] [Grows (f (some .store))] [∀ other, Grows (f (some (.other other)))] : Grows (x >>= f) :=
  .bind inferInstance (by rintro (_ | _ | _ | other) <;> infer_instance)

instance (x y : Emit (Option Usage)) (f : Option Usage → Emit β) (g : Option Usage → Emit β')
    [Follows θ x y Eq] [hnone : Follows θ (f none) (g none) R] [hload : Follows θ (f (some .load)) (g (some .load)) R]
    [hstore : Follows θ (f (some .store)) (g (some .store)) R]
    [hother : ∀ other, Follows θ (f (some (.other other))) (g (some (.other other))) R] :
    Follows θ (x >>= f) (y >>= g) R := by
  have hsome : ∀ u, Follows θ (f (some u)) (g (some u)) R := by
    rintro (_ | _ | other) <;> infer_instance
  infer_instance

instance {γ : Type} (xs : List γ) (f g : γ → Emit Term) [h : ∀ a, Follows θ (f a) (g a) (TermLike θ)] :
    Follows θ (xs.mapM f) (xs.mapM g) (TermsLike θ) :=
  .mono (.mapM (List.forall₂_same.2 fun _ _ => rfl) (fun a => (h a).grows) fun a _ e => e ▸ h a)
    fun _ _ hts => ⟨hts⟩

instance {γ : Type} (xs : List γ) (f g : γ → Emit Operand) [h : ∀ a, Follows θ (f a) (g a) (OperandLike θ)] :
    Follows θ (xs.mapM f) (xs.mapM g) (OperandsLike θ) :=
  .mono (.mapM (List.forall₂_same.2 fun _ _ => rfl) (fun a => (h a).grows) fun a _ e => e ▸ h a)
    fun _ _ hvs => ⟨hvs⟩

variable {ts ts' : List Term} {before : Option Term} {op : Option Operator} {elts : Node}

instance [h : TermsLike θ ts ts'] : Alike θ (int64 ts.length) (int64 ts'.length) (OperandLike θ) := ⟨by
  rw [h.like.length_eq]
  infer_instance⟩

instance [hts : TermsLike θ ts ts'] (f g : Term × Nat → β → Emit (ForInStep β))
    [∀ e b, (f e b).Grows] [h : ∀ type (p : Pair (OperandLike θ)) i b,
      Follows θ (f (⟨type, p.left⟩, i) b) (g (⟨type, p.right⟩, i) b) Eq] (init : β) :
    Follows θ (forIn ts.zipIdx init f) (forIn ts'.zipIdx init g) Eq := by
  refine .forEach (rel_zipIdx hts.like 0) inferInstance ?_ init
  rintro ⟨_, i⟩ ⟨_, _⟩ b ⟨⟨type, hv⟩, rfl⟩
  exact h type ⟨_, _, hv⟩ _ b

theorem follows_compareLink {before' : Option Term}
    (hbefore : Option.Rel (TermLike θ) before before') {t t' u u' : Term} (ht : TermLike θ t t')
    (op : Option Operator) (hu : TermLike θ u u') :
    Follows θ (compareLink before t op u) (compareLink before' t' op u') (Option.Rel (TermLike θ)) := by
  unfold compareLink
  refine .bind (Q := TermLike θ) inferInstance (fun _ => ?_) fun v v' hv => ?_
  · cases before <;> infer_instance
  cases hbefore with
  | none => exact .pure (.some hv)
  | some hb =>
    cases hv
    infer_instance

instance (t : Term) (u : Term) : Grows (compareLink before t op u) := by
  unfold compareLink
  cases before <;> infer_instance

instance (ops : List (Option Operator)) : Grows (compareChain before ops ts) := by
  fun_induction compareChain before ops ts <;> infer_instance

theorem follows_compareChain (ops : List (Option Operator))
    (hts : List.Forall₂ (TermLike θ) ts ts') {before' : Option Term}
    (hbefore : Option.Rel (TermLike θ) before before') :
    Follows θ (compareChain before ops ts) (compareChain before' ops ts') (Option.Rel (TermLike θ)) := by
  induction hts generalizing ops before before' with
  | nil =>
    cases ops <;> exact .pure hbefore
  | cons ht hts ih =>
    cases hts with
    | nil => cases ops <;> exact .pure hbefore
    | cons hu hts =>
      cases ops with
      | nil => exact .throw
      | cons op ops =>
        refine .bind (follows_compareLink hbefore ht op hu) inferInstance fun v v' hv => ?_
        exact ih ops hv

instance [hts : TermsLike θ ts ts'] (e : Fault) :
    Follows θ (expect ts.getLast? e) (expect ts'.getLast? e) (TermLike θ) := by
  obtain ⟨hts⟩ := hts
  have hlast := rel_getElem? hts (ts.length - 1)
  rw [List.getLast?_eq_getElem?, List.getLast?_eq_getElem?, ← hts.length_eq]
  generalize ts[ts.length - 1]? = t, ts'[ts.length - 1]? = t' at hlast
  cases hlast with
  | none => exact .throw
  | some ht => exact .pure ht

instance (ops : List (Option Operator)) [hts : TermsLike θ ts ts'] :
    Alike θ (compareTerms ops ts) (compareTerms ops ts') (Option.Rel (TermLike θ)) := ⟨by
  have hchain : Follows θ (do
        if ops.length + 1 < ts.length then throw .outOfRange
        let result ← compareChain none ops ts
        let last ← expect ts.getLast? .outOfRange
        releaseRetained last.type last.value
        return result) (do
        if ops.length + 1 < ts'.length then throw .outOfRange
        let result ← compareChain none ops ts'
        let last ← expect ts'.getLast? .outOfRange
        releaseRetained last.type last.value
        return result) (Option.Rel (TermLike θ)) := by
    rw [hts.like.length_eq]
    have := follows_compareChain ops hts.like .none
    infer_instance
  obtain ⟨hts⟩ := hts
  unfold compareTerms
  rcases ops with _ | ⟨op, _ | ⟨op', ops⟩⟩
  · exact hchain
  · cases hts with
    | nil => exact .throw
    | cons ht hts =>
      cases hts with
      | nil => exact .throw
      | cons hu _ => exact follows_compareLink .none ht op hu
  · exact hchain⟩

variable {a a' : Operand} {r r' : BlockRef} {t t' u u' : Term} {vs vs' : List Operand}
  {kw kw' : Keywords}
variable [OperandLike θ a a'] [RefLike θ r r'] [ht : TermLike θ t t'] [hu : TermLike θ u u']
  [hvs : OperandsLike θ vs vs'] [hkw : KeywordsLike θ kw kw']
variable (rec : Recur) [hrec : rec.Lowers] [hθ : OfTree θ]

omit hθ in
theorem follows_operatorFunction {function? : Operator → Option String}
    (h : ∀ op name, function? op = some name → Takes θ name 2) (op : Option Operator) :
    Follows θ (operatorFunction function? op) (operatorFunction function? op) (NameLike θ 2) := by
  unfold operatorFunction
  cases hname : op.bind function? with
  | none => exact .throw
  | some name =>
    obtain ⟨op, -, hop⟩ := Option.bind_eq_some_iff.1 hname
    exact .pure ⟨rfl, h op name hop⟩

instance : Alike θ (operatorFunction Operator.binaryFunction? op)
    (operatorFunction Operator.binaryFunction? op) (NameLike θ 2) := ⟨by
  refine follows_operatorFunction (fun op name h => ?_) op
  cases op <;> cases h <;> exact .library (by repeat constructor)⟩

instance : Alike θ (operatorFunction Operator.inPlaceFunction? op)
    (operatorFunction Operator.inPlaceFunction? op) (NameLike θ 2) := ⟨by
  refine follows_operatorFunction (fun op name h => ?_) op
  cases op <;> cases h <;> exact .library (by repeat constructor)⟩

instance (operand : Node) : Alike θ (unaryOp rec op operand) (unaryOp rec op operand) Eq := ⟨by
  unfold unaryOp
  rcases op with _ | op
  · simp only [Follows.throw_bind]
    infer_instance
  · cases op <;> simp only [pure_bind, Follows.throw_bind] <;> infer_instance⟩

instance (values : Node) : Alike θ (boolOp rec op values) (boolOp rec op values) Eq := ⟨by
  unfold boolOp
  refine .bind (Q := Eq) inferInstance (fun nodes => .bind inferInstance fun ts => ?_) ?_
  · cases ts <;> infer_instance
  rintro nodes _ rfl
  refine .bind (.mapM (S := TermLike θ) (List.forall₂_same.2 fun _ _ => rfl) inferInstance ?_)
    (fun ts => ?_) fun ts ts' hts => ?_
  · rintro n _ rfl
    infer_instance
  · cases ts <;> infer_instance
  cases hts with
  | nil => exact .throw
  | cons hfirst hrest =>
    refine .bind (.foldlM (S := TermLike θ) hrest inferInstance ?_ hfirst) inferInstance
      fun v v' hv => inferInstance
    rintro _ _ _ _ ⟨type, hv⟩ ⟨type', hw⟩
    infer_instance⟩

instance (n : Node) (id : Label) : Alike θ (name n id) (name n id) Eq :=
  ⟨by unfold name; infer_instance⟩
instance (n value : Node) (attr : Label) : Alike θ (memberOf rec n value attr) (memberOf rec n value attr) Eq :=
  ⟨by unfold memberOf; infer_instance⟩
instance (n value slice : Node) : Alike θ (subscript rec n value slice) (subscript rec n value slice) Eq :=
  ⟨by unfold subscript; dsimp only; infer_instance⟩

instance (c : Constant) : Alike θ (constant c) (constant c) Eq := ⟨by
  unfold constant
  cases c <;> infer_instance⟩

instance (func : Node) : Alike θ (callee rec func) (callee rec func) Eq := ⟨by
  unfold callee
  cases func.form <;> infer_instance⟩

instance (name : Label) : Alike θ (keywordName rec name) (keywordName rec name) (TermLike θ) := ⟨by
  unfold keywordName
  cases name.constant <;> infer_instance⟩

instance (name : Label) : Alike θ (callMember a name vs kw) (callMember a' name vs' kw') (OperandLike θ) :=
  ⟨by unfold callMember; infer_instance⟩

instance (keyword : Node) : Alike θ (keywordArg rec keyword) (keywordArg rec keyword)
    (fun e e' => OperandLike θ e.1 e'.1 ∧ OperandLike θ e.2 e'.2) := ⟨by
  unfold keywordArg
  refine .bind (Q := Eq) inferInstance (fun _ => ?_) fun _ _ _ => ?_
  · cases keyword.form <;> infer_instance
  refine .bind (Q := Eq) inferInstance (fun _ => ?_) ?_
  · cases keyword.form <;> infer_instance
  rintro name _ rfl
  refine .bind (Q := TermLike θ) inferInstance (fun _ => ?_) ?_
  · cases keyword.form <;> infer_instance
  rintro _ _ ⟨_, hkey⟩
  cases keyword.form with
  | keyword _ value =>
    refine .after (TermLike θ) ?_
    rintro _ _ ⟨_, hvalue⟩
    exact .pure ⟨hkey, hvalue⟩
  | _ => exact .throw⟩

instance (p : Pair (Emit.EntriesLike θ)) : Emit.EntriesLike θ p.left p.right := p.like

instance (f g : List (Operand × Operand) → Emit β) (nodes : List Node) [∀ es, (f es).Grows]
    [h : ∀ p : Pair (Emit.EntriesLike θ), Follows θ (f p.left) (g p.right) Eq] :
    Follows θ (nodes.mapM (keywordArg rec) >>= f) (nodes.mapM (keywordArg rec) >>= g) Eq := by
  refine .bind (.mapM (List.forall₂_same.2 fun _ _ => rfl) inferInstance ?_) inferInstance
    fun es es' hes => h ⟨es, es', ⟨hes⟩⟩
  rintro n _ rfl
  exact Alike.follows

instance (func args keywords : Node) :
    Alike θ (callExpr rec func args keywords) (callExpr rec func args keywords) Eq := ⟨by
  unfold callExpr
  refine .after Eq ?_
  rintro name _ rfl
  refine .get_bind inferInstance fun d s t h => ?_
  have hlast := (h.tree hθ.tree).last
  dsimp only
  generalize s.tree.last = o, t.tree.last = o' at hlast
  cases hlast with
  | @mk type v v' hv =>
    by_cases habsent : v = .absent
    · obtain rfl := habsent
      obtain rfl := hv.isAbsent_iff.1 rfl
      infer_instance
    · have habsent' : v' ≠ .absent := fun h => habsent (hv.isAbsent_iff.2 h)
      simp only [habsent, habsent', if_false]
      infer_instance⟩

end Lowering.Lower
