import Lowering.Emit.Unpack
import Lowering.Proofs.Follows.Objects

/-!
Calls follow their likes: of callables, of methods, and of the operators that are methods.
-/
namespace Lowering.Emit

set_option synthInstance.maxSize 10000000000000000000

/-- Batches of operands that stand for one another. -/
class inductive BatchLike (θ : Likeness) : Batch Operand → Batch Operand → Prop
  | list {vs vs' : List Operand} (h : OperandsLike θ vs vs') : BatchLike θ (.list vs) (.list vs')
  | fixed {vs vs' : List Operand} (h : OperandsLike θ vs vs') : BatchLike θ (.fixed vs) (.fixed vs')
  | stream {vs vs' : List Operand} (h : OperandsLike θ vs vs') : BatchLike θ (.stream vs) (.stream vs')
  | single : BatchLike θ .single .single

/-- Names and values of keyword arguments that stand for one another. -/
class EntriesLike (θ : Likeness) (es es' : List (Operand × Operand)) : Prop where
  like : List.Forall₂ (fun e e' => OperandLike θ e.1 e'.1 ∧ OperandLike θ e.2 e'.2) es es'

/-- Keyword arguments that stand for one another. -/
class inductive KeywordsLike (θ : Likeness) : Keywords → Keywords → Prop
  | pairs {es es' : List (Operand × Operand)} (h : EntriesLike θ es es') :
    KeywordsLike θ (.pairs es) (.pairs es')
  | names (count : Nat) : KeywordsLike θ (.names count) (.names count)
  | unsized (present : Bool) : KeywordsLike θ (.unsized present) (.unsized present)

variable {θ : Likeness} {β β' : Type} {R : β → β' → Prop}

instance (vs vs' : List Operand) [h : OperandsLike θ vs vs'] : BatchLike θ (.list vs) (.list vs') := .list h
instance : BatchLike θ .empty .empty := .list inferInstance
instance : KeywordsLike θ .none .none := .pairs ⟨.nil⟩
variable {es es' : List (Operand × Operand)} {type : Option ValueType} {types : Batch (Option ValueType)}
  {name : Label}

instance [h : EntriesLike θ es es'] : KeywordsLike θ (.pairs es) (.pairs es') := .pairs h

instance (vs : Batch Operand) : BatchLike .equal vs vs := by
  cases vs <;> constructor <;> infer_instance

instance (kw : Keywords) : KeywordsLike .equal kw kw := by
  cases kw with
  | pairs es => exact .pairs ⟨List.forall₂_same.2 fun _ _ => ⟨inferInstance, inferInstance⟩⟩
  | names count => exact .names count
  | unsized present => exact .unsized present

instance (p : Pair (OperandsLike θ)) : OperandsLike θ p.left p.right := p.like
instance (p : Pair (BatchLike θ)) : BatchLike θ p.left p.right := p.like

instance (x y : Emit (List Operand)) (f : List Operand → Emit β) (g : List Operand → Emit β')
    [Follows θ x y (OperandsLike θ)] [∀ vs, (f vs).Grows]
    [h : ∀ p : Pair (OperandsLike θ), Follows θ (f p.left) (g p.right) R] : Follows θ (x >>= f) (y >>= g) R :=
  .bind inferInstance inferInstance fun vs vs' hvs => h ⟨vs, vs', hvs⟩

variable {vs vs' : Batch Operand} {kw kw' : Keywords}

theorem follows_counted (h : BatchLike θ vs vs') : Follows θ (lift vs.counted) (lift vs'.counted) (OperandsLike θ) := by
  cases h with
  | list h => exact .pure h
  | fixed h => exact .pure h
  | stream h => exact .throw
  | single => exact .throw

theorem follows_each (h : BatchLike θ vs vs') : Follows θ (lift vs.each) (lift vs'.each) (OperandsLike θ) := by
  cases h with
  | list h => exact .pure h
  | fixed h => exact .pure h
  | stream h => exact .pure h
  | single => exact .throw

theorem follows_item (h : BatchLike θ vs vs') (i : Nat) :
    Follows θ (lift (vs.item i)) (lift (vs'.item i)) (OperandLike θ) := by
  have hlist : ∀ {xs ys : List Operand}, OperandsLike θ xs ys →
      Follows θ (lift (Batch.item (.list xs) i)) (lift (Batch.item (.list ys) i)) (OperandLike θ) := by
    intro xs ys h
    have hi := rel_getElem? h.like i
    simp only [Batch.item, Batch.counted, bind, Except.bind]
    generalize xs[i]? = v, ys[i]? = v' at hi
    cases hi with
    | none => exact .throw
    | some hv => exact .pure hv
  cases h with
  | list h => exact hlist h
  | fixed h => exact hlist h
  | stream h => exact .throw
  | single => exact .throw

instance (vs vs' : List Operand) [hs : OperandsLike θ vs vs'] (f g : Operand × Nat → β → Emit (ForInStep β))
    [∀ e b, (f e b).Grows]
    [h : ∀ (p : Pair (OperandLike θ)) i b, Follows θ (f (p.left, i) b) (g (p.right, i) b) Eq] (init : β) :
    Follows θ (forIn vs.zipIdx init f) (forIn vs'.zipIdx init g) Eq :=
  .forEach (rel_zipIdx hs.like 0) inferInstance
    (by rintro ⟨v, i⟩ ⟨v', _⟩ b ⟨hv, rfl⟩; exact h ⟨v, v', hv⟩ _ b) init

instance [hs : EntriesLike θ es es'] (f g : (Operand × Operand) × Nat → β → Emit (ForInStep β)) [∀ e b, (f e b).Grows]
    [h : ∀ (p q : Pair (OperandLike θ)) i b,
      Follows θ (f ((p.left, q.left), i) b) (g ((p.right, q.right), i) b) Eq] (init : β) :
    Follows θ (forIn es.zipIdx init f) (forIn es'.zipIdx init g) Eq := by
  refine .forEach (rel_zipIdx hs.like 0) inferInstance ?_ init
  rintro ⟨⟨k, v⟩, i⟩ ⟨⟨k', v'⟩, _⟩ b ⟨⟨hk, hv⟩, rfl⟩
  exact h ⟨k, k', hk⟩ ⟨v, v', hv⟩ _ b

instance [hs : EntriesLike θ es es']
    (f g : Operand × Operand → β → Emit (ForInStep β)) [∀ e b, (f e b).Grows] [h : ∀ (p q : Pair (OperandLike θ)) b,
      Follows θ (f (p.left, q.left) b) (g (p.right, q.right) b) Eq] (init : β) :
    Follows θ (forIn es init f) (forIn es' init g) Eq := by
  refine .forEach hs.like inferInstance ?_ init
  rintro ⟨k, v⟩ ⟨k', v'⟩ b ⟨hk, hv⟩
  exact h ⟨k, k', hk⟩ ⟨v, v', hv⟩ b

theorem follows_entries (h : KeywordsLike θ kw kw') :
    Follows θ (lift kw.entries) (lift kw'.entries) (EntriesLike θ) := by
  cases h with
  | pairs h => exact .pure h
  | names => exact .throw
  | unsized => exact .throw

theorem KeywordsLike.length (h : KeywordsLike θ kw kw') : kw'.length = kw.length := by
  cases h with
  | pairs h => simp only [Keywords.length, h.like.length_eq]
  | names => rfl
  | unsized => rfl

theorem EntriesLike.isEmpty (h : EntriesLike θ es es') : es'.isEmpty = es.isEmpty := by
  cases h.like <;> rfl

theorem KeywordsLike.isEmpty (h : KeywordsLike θ kw kw') : kw'.isEmpty = kw.isEmpty := by
  cases h with
  | pairs h => exact h.isEmpty
  | names => rfl
  | unsized => rfl

variable {a a' b b' c c' : Operand} {r r' : BlockRef} {t t' u u' : Term}
variable [OperandLike θ a a'] [OperandLike θ b b'] [OperandLike θ c c'] [RefLike θ r r']
  [ht : TermLike θ t t'] [hu : TermLike θ u u'] [hvs : BatchLike θ vs vs'] [hkw : KeywordsLike θ kw kw']

instance (type : MachineType) (n : Nat) [TypeFits θ type] :
    Alike θ (memberOf a type n) (memberOf a' type n) (OperandLike θ) :=
  ⟨by unfold memberOf; infer_instance⟩

instance (field : Known → Option Nat) : Alike θ (knownOrNoMember field) (knownOrNoMember field) Eq := by
  refine ⟨.get_bind_of_grown (fun s => ?_) fun d s t h hfinal => ?_⟩
  · cases field s.program.known <;> infer_instance
  · rw [h.program.ahead.known.trans hfinal.known]
    cases field s.program.known <;> infer_instance

instance : Alike θ functionStruct functionStruct (TypeLike θ) := by
  refine ⟨.after Eq ?_⟩
  rintro i _ rfl
  refine .get_bind_of_grown inferInstance fun d s t h hfinal => .pure ?_
  rw [h.program.ahead.structs.trans hfinal.structs]
  refine ⟨rfl, ⟨MachineType.within_ofStruct ?_⟩⟩
  have hstruct := d.struct_of i
  rw [hfinal.structs] at hstruct
  cases hi : s.program.structs[i]? with
  | none => exact d.struct_zero
  | some t => exact hstruct t hi

instance : Alike θ (callByVector a b vs kw c) (callByVector a' b' vs' kw' c') (OperandLike θ) := ⟨by
  unfold callByVector
  refine .after Eq fun _ _ _ => ?_
  refine .after (TypeLike θ) ?_
  rintro ptr _ ⟨rfl, hptr⟩
  refine .bind (follows_counted hvs) inferInstance fun args args' hargs => ?_
  rw [hargs.like.length_eq, hkw.length]
  refine .after Eq ?_
  rintro count _ rfl
  refine .after (OperandLike θ) fun m m' _ => ?_
  refine .after (OperandLike θ) fun o o' _ => ?_
  refine .after Eq fun _ _ _ => ?_
  refine .after (OperandLike θ) fun l l' _ => ?_
  refine .after Eq fun _ _ _ => ?_
  refine .bind (follows_entries hkw) inferInstance fun es es' hes => ?_
  rw [hes.isEmpty, hes.like.length_eq]
  infer_instance⟩

instance (p : Pair (EntriesLike θ)) : EntriesLike θ p.left p.right := p.like

instance (f : List (Operand × Operand) → Emit β) (g : List (Operand × Operand) → Emit β')
    [∀ es, (f es).Grows] [h : ∀ p : Pair (EntriesLike θ), Follows θ (f p.left) (g p.right) R] :
    Follows θ (lift kw.entries >>= f) (lift kw'.entries >>= g) R :=
  .bind (follows_entries hkw) inferInstance fun es es' hes => h ⟨es, es', hes⟩

instance : Alike θ (callByTuple a vs kw) (callByTuple a' vs' kw') (OperandLike θ) := ⟨by
  unfold callByTuple
  refine .bind (follows_counted hvs) inferInstance fun args args' hargs => ?_
  rw [hargs.like.length_eq, hkw.isEmpty]
  infer_instance⟩

instance : Alike θ (callCallable a b vs kw) (callCallable a' b' vs' kw') (OperandLike θ) :=
  ⟨by unfold callCallable; infer_instance⟩

instance (args : Batch (Option ValueType)) (fits : Bool) :
    Alike θ (Shortcut.applies.indexed args fits) (Shortcut.applies.indexed args fits) Eq := ⟨by
  have hmatch : ∀ types : List (Option ValueType), Follows θ
      (match types with | [t] => do return (← known t).isInt | _ => return false : Emit Bool)
      (match types with | [t] => do return (← known t).isInt | _ => return false) Eq := by
    intro types
    rcases types with _ | ⟨_, _ | _⟩ <;> infer_instance
  have hgrows : ∀ types : List (Option ValueType), Grows
      (match types with | [t] => do return (← known t).isInt | _ => return false : Emit Bool) := by
    intro types
    rcases types with _ | ⟨_, _ | _⟩ <;> infer_instance
  unfold Shortcut.applies.indexed
  cases fits with
  | false => exact .pure rfl
  | true => exact .bind (Q := Eq) inferInstance hgrows fun types _ h => h ▸ hmatch types⟩

instance (s : Shortcut) (object : Option ValueType) (args : Batch (Option ValueType)) :
    Alike θ (s.applies object args) (s.applies object args) Eq := ⟨by
  unfold Shortcut.applies
  cases s <;> infer_instance⟩

instance (i : Nat) : Follows θ (lift (vs.item i)) (lift (vs'.item i)) (OperandLike θ) :=
  follows_item hvs i

instance (s : Shortcut) (v : Operand) (args : Batch Operand) : Grows (s.lower type v types args) := by
  unfold Shortcut.lower
  cases s <;> infer_instance

instance :
    Alike θ (Shortcut.lower .listAppend type a types vs) (Shortcut.lower .listAppend type a' types vs') (TermLike θ) :=
  ⟨by unfold Shortcut.lower; dsimp only; infer_instance⟩
instance :
    Alike θ (Shortcut.lower .listGet type a types vs) (Shortcut.lower .listGet type a' types vs') (TermLike θ) :=
  ⟨by unfold Shortcut.lower; dsimp only; infer_instance⟩

/-- Only two methods of lists are lowered without a call. -/
theorem follows_findShortcut (object : Option ValueType) (types : Batch (Option ValueType))
    (name : Label) : Follows θ (findShortcut object types name) (findShortcut object types name)
      fun s s' => s' = s ∧ s ∈ [none, some .listAppend, some .listGet] := by
  have hmatch : ∀ s ∈ [Shortcut.listAppend, .listGet],
      Follows θ (do return if ← s.applies object types then some s else none)
        (do return if ← s.applies object types then some s else none)
        fun s s' => s' = s ∧ s ∈ [none, some .listAppend, some .listGet] := by
    intro s hs
    refine .after Eq ?_
    rintro fits _ rfl
    cases fits <;> exact .pure ⟨rfl, by simp_all⟩
  unfold findShortcut
  refine .bind (Q := Eq) inferInstance (fun key => ?_) ?_
  · dsimp only
    split <;> infer_instance
  · rintro key _ rfl
    dsimp only
    by_cases happend : key = "append"
    · simp only [happend, if_true]
      exact hmatch _ (by simp)
    · by_cases hitem : key = "__getitem__"
      · simp only [hitem, if_true]
        exact hmatch _ (by simp)
      · simp only [happend, hitem, if_false]
        exact .pure ⟨rfl, by simp⟩

instance (object : Option ValueType) : Grows (findShortcut object types name) :=
  (follows_findShortcut (θ := .equal) object types name).grows

instance (object : Option ValueType) (f : Option Shortcut → Emit β) (g : Option Shortcut → Emit β') [(f none).Grows]
    [∀ s, (f (some s)).Grows] [Follows θ (f none) (g none) R]
    [Follows θ (f (some .listAppend)) (g (some .listAppend)) R] [Follows θ (f (some .listGet)) (g (some .listGet)) R] :
    Follows θ (findShortcut object types name >>= f) (findShortcut object types name >>= g) R := by
  refine .bind (follows_findShortcut object types name) (fun s => ?_) ?_
  · cases s <;> infer_instance
  · rintro s _ ⟨rfl, hs⟩
    simp only [List.mem_cons, List.not_mem_nil, or_false] at hs
    rcases hs with rfl | rfl | rfl <;> infer_instance

instance : Follows θ (lift vs.counted) (lift vs'.counted) (OperandsLike θ) := follows_counted hvs

/-- Lists of terms that stand for one another. -/
class TermsLike (θ : Likeness) (ts ts' : List Term) : Prop where
  like : List.Forall₂ (TermLike θ) ts ts'

instance (ts : List Term) : TermsLike .equal ts ts :=
  ⟨List.forall₂_same.2 fun _ _ => inferInstance⟩

instance (ts ts' : List Term) [h : TermsLike θ ts ts'] : OperandsLike θ (ts.map (·.value)) (ts'.map (·.value)) where
  like := by
    simp only [List.forall₂_map_left_iff, List.forall₂_map_right_iff]
    exact h.like.imp fun _ _ ⟨_, hv⟩ => hv

instance (p : Pair (TermsLike θ)) : TermsLike θ p.left p.right := p.like

instance (x y : Emit (List Term)) (f : List Term → Emit β) (g : List Term → Emit β')
    [Follows θ x y (TermsLike θ)] [∀ ts, (f ts).Grows]
    [h : ∀ p : Pair (TermsLike θ), Follows θ (f p.left) (g p.right) R] : Follows θ (x >>= f) (y >>= g) R :=
  .bind inferInstance inferInstance fun ts ts' hts => h ⟨ts, ts', hts⟩

theorem TermsLike.types_eq {ts ts' : List Term} (h : TermsLike θ ts ts') : ts'.map (·.type) = ts.map (·.type) := by
  obtain ⟨h⟩ := h
  induction h with
  | nil => rfl
  | cons ht _ ih =>
    cases ht
    simp only [List.map_cons, ih]

instance (vs vs' : List Operand) [h : OperandsLike θ vs vs'] (types : List (Option ValueType)) :
    Alike θ (boxArgs vs types) (boxArgs vs' types) (TermsLike θ) := ⟨by
  have hvs := h.like
  clear h
  have hgrows : ∀ vs types, Grows (boxArgs vs types) := by
    intro vs types
    fun_induction boxArgs vs types <;> infer_instance
  induction hvs generalizing types with
  | nil => exact .pure ⟨.nil⟩
  | cons hv _ ih =>
    cases types with
    | nil => exact .pure ⟨.nil⟩
    | cons t types =>
      refine .after (TermLike θ) fun b b' hb => ?_
      exact .bind (ih types) inferInstance fun bs bs' hbs => .pure ⟨.cons hb hbs.like⟩⟩

instance : Follows θ (discard (lift vs.replaceable)) (discard (lift vs'.replaceable)) Eq := by
  cases hvs with
  | list => exact .pure rfl
  | fixed => exact .throw
  | stream => exact .throw
  | single => exact .throw

instance : Alike θ (boxInPlace vs types) (boxInPlace vs' types) (BatchLike θ) := ⟨by
  unfold boxInPlace
  refine .bind (follows_each hvs) (fun xs => .bind inferInstance fun ts => ?_) fun xs ys hxs => ?_
  · split <;> infer_instance
  refine .bind (Q := Eq) inferInstance (fun ts => ?_) ?_
  · split <;> infer_instance
  rintro ts _ rfl
  obtain ⟨hxs⟩ := hxs
  cases hxs with
  | nil => exact .pure hvs
  | cons ha hs =>
    cases ts with
    | nil => exact .pure hvs
    | cons t ts =>
      have : OperandsLike θ _ _ := ⟨hs⟩
      refine .after (TermLike θ) fun first first' hfirst => ?_
      refine .after Eq fun _ _ _ => ?_
      refine .after Eq fun _ _ _ => ?_
      refine .after (TermsLike θ) fun bs bs' hbs => .pure (.list ?_)
      have hboxed : TermsLike θ (first :: bs) (first' :: bs') := ⟨.cons hfirst hbs.like⟩
      rw [hboxed.like.length_eq]
      exact ⟨List.rel_append (OperandsLike.like) (List.forall₂_drop _ (.cons ha hs))⟩⟩

instance : Alike θ (callDefault name a vs types kw) (callDefault name a' vs' types kw') (TermLike θ) := ⟨by
  unfold callDefault
  refine .after (BatchLike θ) fun ws ws' hws => ?_
  refine .after (OperandLike θ) fun v v' hv => ?_
  refine .after Eq ?_
  rintro ts _ rfl
  refine .bind (follows_each hvs) inferInstance fun xs ys hxs => ?_
  rw [hxs.like.length_eq]
  infer_instance⟩

instance (name : String) (slot : Nat) :
    Alike θ (callIteration name slot a) (callIteration name slot a') (OperandLike θ) :=
  ⟨by unfold callIteration; infer_instance⟩

instance (vs vs' : List Operand) [hvs : OperandsLike θ vs vs'] :
    Alike θ (boxEach vs types) (boxEach vs' types) (TermsLike θ) := ⟨by
  unfold boxEach
  refine .mono (.mapM (rel_zipIdx hvs.like 0) inferInstance ?_) fun _ _ h => ⟨h⟩
  rintro ⟨v, i⟩ ⟨v', _⟩ ⟨hv, rfl⟩
  infer_instance⟩

instance : Alike θ (callCompare name type a b types vs) (callCompare name type a' b' types vs') (OperandLike θ) := ⟨by
  unfold callCompare
  refine .after Eq fun _ _ _ => ?_
  refine .after (TypeLike θ) ?_
  rintro ptr _ ⟨rfl, hptr⟩
  refine .after (OperandLike θ) fun v v' hv => ?_
  refine .bind (follows_each hvs) inferInstance fun xs xs' hxs => ?_
  refine .after (TermsLike θ) fun ts ts' hts => ?_
  rw [hts.types_eq]
  infer_instance⟩

/-- The type of a function in hand, and of its result. -/
structure SignatureLike (θ : Likeness) (x x' : MachineType × MachineType) : Prop where
  eq : x' = x
  function : TypeFits θ x.1
  result : TypeFits θ x.2

instance (t u : MachineType) [ht : TypeFits θ t] [hu : TypeFits θ u] :
    Follows θ (pure (t, u)) (pure (t, u)) (SignatureLike θ) :=
  .pure ⟨rfl, ht, hu⟩

instance (name : String) (vs vs' : List Operand) [hvs : OperandsLike θ vs vs'] :
    Alike θ (numberSignature name vs) (numberSignature name vs') (SignatureLike θ) := ⟨by
  unfold numberSignature
  rw [hvs.like.length_eq]
  infer_instance⟩

instance (label : Label) :
    Alike θ (callNumber label type a b types vs) (callNumber label type a' b' types vs') (OperandLike θ) := ⟨by
  unfold callNumber
  dsimp only
  refine .after Eq ?_
  rintro name _ rfl
  refine .after Eq fun _ _ _ => ?_
  refine .bind (follows_counted hvs) inferInstance fun xs xs' hxs => ?_
  rw [hxs.like.length_eq]
  refine .after (SignatureLike θ) ?_
  rintro ⟨function, result⟩ _ ⟨rfl, hfunction, hresult⟩
  dsimp only at hfunction hresult ⊢
  refine .after (OperandLike θ) fun v v' hv => ?_
  refine .after (RefLike θ) fun r1 r1' h1 => ?_
  refine .after (RefLike θ) fun r2 r2' h2 => ?_
  refine .after (RefLike θ) fun r3 r3' h3 => ?_
  refine .after (RefLike θ) fun r4 r4' h4 => ?_
  refine .after Eq ?_
  rintro ts _ rfl
  refine .after (TermsLike θ) fun bs bs' hbs => ?_
  rw [hbs.types_eq]
  infer_instance⟩

instance : Follows θ (lift (vs.extended a)) (lift (vs'.extended a')) (BatchLike θ) := by
  cases hvs with
  | list h => exact .pure (.list ⟨List.rel_append h.like (.cons ‹_› .nil)⟩)
  | fixed => exact .throw
  | stream => exact .throw
  | single => exact .throw

theorem follows_completePower (name : Label) (types : Batch (Option ValueType)) :
    Follows θ (completePower name vs types) (completePower name vs' types)
      (Option.Rel fun x x' => BatchLike θ x.1 x'.1 ∧ x'.2 = x.2) := by
  unfold completePower
  dsimp only
  split
  · exact .pure .none
  refine .bind (follows_counted hvs) inferInstance fun xs xs' hxs => ?_
  rw [hxs.like.length_eq]
  split
  · refine .after Eq ?_
    rintro i _ rfl
    refine .after (OperandLike θ) fun v v' hv => ?_
    refine .after Eq fun _ _ _ => ?_
    refine .after (OperandLike θ) fun w w' hw => ?_
    refine .after (BatchLike θ) fun ws ws' hws => ?_
    exact .after Eq fun ts ts' hts => .pure (.some ⟨hws, hts.symm⟩)
  · split
    · exact .pure (.some ⟨hvs, rfl⟩)
    · exact .pure .none

instance (args : Batch Operand) : Grows (completePower name args types) :=
  have h : Follows .equal (completePower name args types) (completePower name args types) _ :=
    follows_completePower name types
  h.grows

instance (f : Option (Batch Operand × Batch (Option ValueType)) → Emit β)
    (g : Option (Batch Operand × Batch (Option ValueType)) → Emit β') [(f none).Grows]
    [∀ x, (f (some x)).Grows] [Follows θ (f none) (g none) R]
    [h : ∀ (p : Pair (BatchLike θ)) types, Follows θ (f (some (p.left, types))) (g (some (p.right, types))) R] :
    Follows θ (completePower name vs types >>= f) (completePower name vs' types >>= g) R := by
  refine .bind (follows_completePower name types) (fun x => ?_) ?_
  · cases x <;> infer_instance
  · rintro _ _ (⟨hx, htypes⟩ | _)
    · rename_i x x'
      obtain ⟨args, types⟩ := x
      obtain ⟨args', types'⟩ := x'
      obtain rfl : types' = types := htypes
      exact h ⟨args, args', hx⟩ types'
    · infer_instance

instance (label : Label) :
    Alike θ (callMethod label a type vs types kw) (callMethod label a' type vs' types kw') (TermLike θ) := ⟨by
  unfold callMethod
  dsimp only
  refine .after Eq ?_
  rintro t _ rfl
  refine .after Eq fun _ _ _ => ?_
  refine .after (TermLike θ) fun o o' ho => ?_
  refine .bind (follows_counted hvs) inferInstance fun xs xs' hxs => ?_
  rw [hxs.like.length_eq]
  cases ho
  infer_instance⟩

instance : Alike θ (builtinBool t) (builtinBool t') (TermLike θ) := ⟨by
  cases ht
  unfold builtinBool
  infer_instance⟩

instance : Alike θ (typeText type) (typeText type) Eq := ⟨by
  unfold typeText
  cases type <;> infer_instance⟩

instance (negated : Bool) : Alike θ (identity negated t u) (identity negated t' u') (TermLike θ) := ⟨by
  cases ht
  cases hu
  unfold identity
  infer_instance⟩

instance (op : Operator) : Alike θ (specialComparison op t u) (specialComparison op t' u') (TermLike θ) := ⟨by
  cases ht
  cases hu
  unfold specialComparison
  cases op <;> infer_instance⟩

instance (name : String) : Alike θ (methodComparison name t u) (methodComparison name t' u') (TermLike θ) := ⟨by
  cases ht
  cases hu
  unfold methodComparison
  infer_instance⟩

instance (op : Operator) : Alike θ (plainComparison op t u) (plainComparison op t' u') (TermLike θ) := ⟨by
  cases ht
  cases hu
  unfold plainComparison
  cases op <;> infer_instance⟩

instance : Alike θ (anyObject t u) (anyObject t' u') Eq := ⟨by
  cases ht
  cases hu
  unfold anyObject
  infer_instance⟩

instance (op : Option Operator) : Alike θ (comparison op t u) (comparison op t' u') (TermLike θ) :=
  ⟨by unfold comparison; infer_instance⟩

instance (name : String) (plain : Binary) :
    Alike θ (connective.both t u name plain) (connective.both t' u' name plain) (TermLike θ) := ⟨by
  cases ht
  cases hu
  unfold connective.both
  infer_instance⟩

instance (op : Option Operator) : Alike θ (connective op t u) (connective op t' u') (TermLike θ) := ⟨by
  unfold connective
  rcases op with _ | op
  · infer_instance
  · cases op <;> infer_instance⟩

instance : Alike θ (restToList r t) (restToList r' t') (TermLike θ) := ⟨by
  cases ht
  unfold restToList
  infer_instance⟩

instance (count : Operand) : Alike θ (listWithoutLast count t b) (listWithoutLast count t' b') (TermLike θ) := ⟨by
  cases ht
  unfold listWithoutLast
  infer_instance⟩

instance (back : Int) : Alike θ (itemFromEnd t a back) (itemFromEnd t' a' back) (TermLike θ) := ⟨by
  cases ht
  unfold itemFromEnd
  infer_instance⟩

end Lowering.Emit
