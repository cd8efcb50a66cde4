import Lowering.Proofs.Pairing

/-!
Actions that follow one another: beside every completed run of the first there is a run of the second,
and what they leave is paired. The rules go by the way actions are put together.
-/
namespace Lowering

variable {θ : Likeness} {α α' β β' γ γ' : Type}

/-- A completed run of the first action is followed by the second. -/
class Follows (θ : Likeness) (x : Emit α) (y : Emit α') (Q : outParam (α → α' → Prop)) : Prop where
  grows : x.Grows
  run : ∀ (d : Pairing θ) {s t s' : State} {a : α}, d.Paired s t → x s = .ok a s' →
    s'.program.Grown d.final → ∃ b t', y t = .ok b t' ∧ d.Paired s' t' ∧ Q a b

/-- Pieces of code that are alike. -/
class Alike (θ : Likeness) (x : Emit α) (y : Emit α') (Q : outParam (α → α' → Prop)) : Prop where
  follows : Follows θ x y Q

instance (x : Emit α) (y : Emit α') (Q : α → α' → Prop) [Alike θ x y Q] : Follows θ x y Q :=
  Alike.follows

/-- A piece of code is like itself under equality, so it makes the program grow. -/
instance (x : Emit α) (Q : α → α → Prop) [h : Alike .equal x x Q] : x.Grows :=
  h.follows.grows

/-- Code that follows itself can be run beside itself. -/
theorem paired_of_ok {x : Emit α} {Q : α → α → Prop} [hx : Follows θ x x Q]
    {d : Pairing θ} {s t s' : State} {a : α} (hst : d.Paired s t) (h : x s = .ok a s') (hgrown : s'.program.Grown d.final) :
    ∃ t', d.Paired s' t' := by
  obtain ⟨-, t', -, hst', -⟩ := hx.run d hst h hgrown
  exact ⟨t', hst'⟩

class RefLike (θ : Likeness) (r r' : BlockRef) : Prop where
  like : θ.block r r'

class BackLike (θ : Likeness) (r r' : Option BlockRef) : Prop where
  like : Option.Rel θ.block r r'

class VarLike (θ : Likeness) (i i' : Nat) : Prop where
  like : θ.var i i'

/-- A function in hand, with how many arguments it takes. -/
class CalleeLike (θ : Likeness) (n : Nat) (i i' : Nat) : Prop where
  eq : i' = i
  takes : θ.callee i n

structure TypeLike (θ : Likeness) (t t' : MachineType) : Prop where
  eq : t' = t
  fits : TypeFits θ t

/-- The name of a function that takes so many arguments. -/
structure NameLike (θ : Likeness) (n : Nat) (name name' : String) : Prop where
  eq : name' = name
  takes : Takes θ name n

instance (type : Option ValueType) (v v' : Operand) [h : OperandLike θ v v'] : TermLike θ ⟨type, v⟩ ⟨type, v'⟩ :=
  ⟨type, h⟩

instance (t : Term) : TermLike .equal t t := ⟨t.type, inferInstance⟩
instance (r : BlockRef) : RefLike .equal r r := ⟨rfl⟩
instance (i : Nat) : VarLike .equal i i := ⟨rfl⟩
variable {n : Nat}

instance (i : Nat) : CalleeLike .equal n i i := ⟨rfl, trivial⟩

structure Pair (R : α → α' → Prop) where
  left : α
  right : α'
  like : R left right

/-- A relation of which both sides are followed up. -/
class Tracked (R : α → α' → Prop) : Prop

instance : Tracked (OperandLike θ) := ⟨⟩
instance : Tracked (RefLike θ) := ⟨⟩
instance : Tracked (BackLike θ) := ⟨⟩
instance : Tracked (VarLike θ) := ⟨⟩
instance : Tracked (CalleeLike θ n) := ⟨⟩

instance (p : Pair (OperandLike θ)) : OperandLike θ p.left p.right := p.like
instance (p : Pair (RefLike θ)) : RefLike θ p.left p.right := p.like
instance (p : Pair (BackLike θ)) : BackLike θ p.left p.right := p.like
instance (p : Pair (VarLike θ)) : VarLike θ p.left p.right := p.like
instance (p : Pair (CalleeLike θ n)) : CalleeLike θ n p.left p.right := p.like

structure Fitting (θ : Likeness) where
  type : MachineType
  fits : TypeFits θ type

instance (p : Fitting θ) : TypeFits θ p.type := p.fits

structure Named (θ : Likeness) (n : Nat) where
  name : String
  takes : Takes θ name n

instance (p : Named θ n) : Takes θ p.name n := p.takes

namespace Follows

open Emit

theorem bind {x : Emit α} {y : Emit α'} {Q : α → α' → Prop} {f : α → Emit β} {g : α' → Emit β'}
    {R : β → β' → Prop} (hx : Follows θ x y Q) (hgrows : ∀ a, (f a).Grows)
    (hf : ∀ a b, Q a b → Follows θ (f a) (g b) R) : Follows θ (x >>= f) (y >>= g) R where
  grows := have := hx.grows; inferInstance
  run d s t s' b hst h hfinal := by
    obtain ⟨a, s1, hxa, hfa⟩ := bind_eq_ok.1 h
    have hs1 := (hx.grows.extends_of_ok hxa hst.program.sound).1
    have hgrown := ((hgrows a).extends_of_ok hfa hs1).2
    obtain ⟨a', t1, hya, hst1, hq⟩ := hx.run d hst hxa (hgrown.trans hfinal)
    obtain ⟨b', t', hgb, hst', hr⟩ := (hf a a' hq).run d hst1 hfa hfinal
    exact ⟨b', t', bind_eq_ok.2 ⟨a', t1, hya, hgb⟩, hst', hr⟩

/-- A step whose results are related in a known way, then the rest. -/
theorem after {x : Emit α} {y : Emit α'} {f : α → Emit β} {g : α' → Emit β'} {R : β → β' → Prop} (Q : α → α' → Prop)
    [hx : Follows θ x y Q] [hgrows : ∀ a, (f a).Grows] (hf : ∀ a b, Q a b → Follows θ (f a) (g b) R) :
    Follows θ (x >>= f) (y >>= g) R := hx.bind hgrows hf

theorem pure {Q : α → α' → Prop} {a : α} {a' : α'} (h : Q a a') : Follows θ (pure a) (pure a') Q where
  grows := inferInstance
  run d s t s' b hst hrun _ := by
    obtain ⟨rfl, rfl⟩ := pure_eq_ok.1 hrun
    exact ⟨a', t, rfl, hst, h⟩

theorem throw {Q : α → α' → Prop} {e : Fault} {y : Emit α'} : Follows θ (throw e) y Q where
  grows := inferInstance
  run _ _ _ _ _ _ h := absurd h throw_ne_ok

theorem throw_bind (e : Fault) (f : α → Emit β) : (MonadExcept.throw e >>= f : Emit β) = MonadExcept.throw e := rfl

theorem mono {x : Emit α} {y : Emit α'} {Q R : α → α' → Prop} (hx : Follows θ x y Q)
    (h : ∀ a b, Q a b → R a b) : Follows θ x y R where
  grows := hx.grows
  run d _ _ _ _ hst hrun hfinal := by
    obtain ⟨b, t', hy, hst', hq⟩ := hx.run d hst hrun hfinal
    exact ⟨b, t', hy, hst', h _ _ hq⟩

theorem map {x : Emit α} {y : Emit α'} {Q : α → α' → Prop} (hx : Follows θ x y Q) {f : α → β}
    {g : α' → β'} {R : β → β' → Prop} (h : ∀ a b, Q a b → R (f a) (g b)) : Follows θ (f <$> x) (g <$> y) R where
  grows := have := hx.grows; inferInstance
  run d _ _ _ _ hst hrun hfinal := by
    obtain ⟨a, hxa, rfl⟩ := map_eq_ok.1 hrun
    obtain ⟨b, t', hy, hst', hq⟩ := hx.run d hst hxa hfinal
    exact ⟨g b, t', map_eq_ok.2 ⟨b, hy, rfl⟩, hst', h a b hq⟩

theorem get_bind_of_grown {f : State → Emit β} {g : State → Emit β'} {R : β → β' → Prop} (hgrows : ∀ s, (f s).Grows)
    (hf : ∀ (d : Pairing θ) (s t : State), d.Paired s t → s.program.Grown d.final →
      Follows θ (f s) (g t) R) : Follows θ (get >>= f) (get >>= g) R where
  grows := inferInstance
  run d s t s' b hst h hfinal := by
    obtain ⟨_, _, hget, hrun⟩ := bind_eq_ok.1 h
    obtain ⟨rfl, rfl⟩ := get_eq_ok.1 hget
    have hgrown := ((hgrows _).extends_of_ok hrun hst.program.sound).2
    obtain ⟨b', t', hg, hst', hr⟩ := (hf d _ t hst (hgrown.trans hfinal)).run d hst hrun hfinal
    exact ⟨b', t', bind_eq_ok.2 ⟨t, t, get_eq_ok.2 ⟨rfl, rfl⟩, hg⟩, hst', hr⟩

theorem get_bind {f : State → Emit β} {g : State → Emit β'} {R : β → β' → Prop} (hgrows : ∀ s, (f s).Grows)
    (hf : ∀ (d : Pairing θ) (s t : State), d.Paired s t → Follows θ (f s) (g t) R) :
    Follows θ (get >>= f) (get >>= g) R :=
  get_bind_of_grown hgrows fun d s t hst _ => hf d s t hst

section Loops

inductive RoundLike (S : β → β' → Prop) : ForInStep β → ForInStep β' → Prop
  | done {b : β} {b' : β'} (h : S b b') : RoundLike S (.done b) (.done b')
  | yield {b : β} {b' : β'} (h : S b b') : RoundLike S (.yield b) (.yield b')

theorem forIn {R : γ → γ' → Prop} {S : β → β' → Prop} {xs : List γ} {ys : List γ'}
    (h : List.Forall₂ R xs ys) {f : γ → β → Emit (ForInStep β)} {g : γ' → β' → Emit (ForInStep β')}
    (hgrows : ∀ a b, (f a b).Grows)
    (hf : ∀ a a' b b', R a a' → S b b' → Follows θ (f a b) (g a' b') (RoundLike S)) {b : β} {b' : β'}
    (hb : S b b') : Follows θ (forIn xs b f) (forIn ys b' g) S := by
  induction h generalizing b b' with
  | nil => exact .pure hb
  | cons ha _ ih =>
    rw [List.forIn_cons, List.forIn_cons]
    refine .bind (hf _ _ _ _ ha hb) ?_ ?_
    · rintro (c | c)
      · exact inferInstanceAs (Grows (Pure.pure c))
      · exact .forIn _ _ hgrows c
    · rintro _ _ (hc | hc)
      · exact .pure hc
      · exact ih hc

theorem forEach {R : γ → γ' → Prop} {xs : List γ} {ys : List γ'} (h : List.Forall₂ R xs ys)
    {f : γ → β → Emit (ForInStep β)} {g : γ' → β → Emit (ForInStep β)} (hgrows : ∀ a b, (f a b).Grows)
    (hf : ∀ a a' b, R a a' → Follows θ (f a b) (g a' b) Eq) (b : β) :
    Follows θ (ForIn.forIn xs b f) (ForIn.forIn ys b g) Eq := by
  refine forIn h hgrows (fun a a' b _ ha hb => hb ▸ (hf a a' b ha).mono ?_) rfl
  rintro (c | c) _ rfl
  · exact .done rfl
  · exact .yield rfl

theorem mapM {R : γ → γ' → Prop} {S : β → β' → Prop} {xs : List γ} {ys : List γ'}
    (h : List.Forall₂ R xs ys) {f : γ → Emit β} {g : γ' → Emit β'} (hgrows : ∀ a, (f a).Grows)
    (hf : ∀ a a', R a a' → Follows θ (f a) (g a') S) : Follows θ (xs.mapM f) (ys.mapM g) (List.Forall₂ S) := by
  induction h with
  | nil => exact .pure .nil
  | cons ha _ ih =>
    rw [List.mapM_cons, List.mapM_cons]
    exact .bind (hf _ _ ha) (fun _ => inferInstance) fun b b' hb =>
      .bind ih (fun _ => inferInstance) fun bs bs' hbs => .pure (.cons hb hbs)

theorem forM {R : γ → γ' → Prop} {xs : List γ} {ys : List γ'} (h : List.Forall₂ R xs ys)
    {f : γ → Emit PUnit} {g : γ' → Emit PUnit} (hgrows : ∀ a, (f a).Grows)
    (hf : ∀ a a', R a a' → Follows θ (f a) (g a') Eq) : Follows θ (xs.forM f) (ys.forM g) Eq := by
  induction h with
  | nil => exact .pure rfl
  | cons ha _ ih => exact .bind (hf _ _ ha) (fun _ => inferInstance) fun _ _ _ => ih

theorem foldlM {R : γ → γ' → Prop} {S : β → β' → Prop} {xs : List γ} {ys : List γ'}
    (h : List.Forall₂ R xs ys) {f : β → γ → Emit β} {g : β' → γ' → Emit β'} (hgrows : ∀ b a, (f b a).Grows)
    (hf : ∀ b b' a a', S b b' → R a a' → Follows θ (f b a) (g b' a') S) {b : β} {b' : β'}
    (hb : S b b') : Follows θ (xs.foldlM f b) (ys.foldlM g b') S := by
  induction h generalizing b b' with
  | nil => exact .pure hb
  | cons ha _ ih =>
    rw [List.foldlM_cons, List.foldlM_cons]
    exact .bind (hf _ _ _ _ hb ha) (fun _ => inferInstance) fun _ _ hc => ih hc

end Loops

end Follows

section Instances

open Emit

variable {x : Emit α} {y : Emit α'} {R : β → β' → Prop}

instance (x y : Emit α) (f : α → Emit β) (g : α → Emit β') [Follows θ x y Eq]
    [h : ∀ a, Follows θ (f a) (g a) R] : Follows θ (x >>= f) (y >>= g) R :=
  .bind inferInstance (fun a => (h a).grows) fun a _ hab => hab ▸ h a

instance (x y : Emit (Option α)) (f : Option α → Emit β) (g : Option α → Emit β') [Follows θ x y Eq]
    [hn : Follows θ (f none) (g none) R] [hs : ∀ a, Follows θ (f (some a)) (g (some a)) R] :
    Follows θ (x >>= f) (y >>= g) R := by
  refine .bind (Q := Eq) inferInstance ?_ ?_
  · rintro (_ | a)
    · exact hn.grows
    · exact (hs a).grows
  · rintro (_ | a) _ rfl
    · exact hn
    · exact hs a

instance (x : Emit α) (y : Emit α') (f : α → Emit β) (g : α' → Emit β') (Q : α → α' → Prop) [Tracked Q]
    [Follows θ x y Q] [∀ a, (f a).Grows] [h : ∀ p : Pair Q, Follows θ (f p.left) (g p.right) R] :
    Follows θ (x >>= f) (y >>= g) R :=
  .bind inferInstance inferInstance fun a b hab => h ⟨a, b, hab⟩

instance (x y : Emit MachineType) (f : MachineType → Emit β) (g : MachineType → Emit β')
    [Follows θ x y (TypeLike θ)] [∀ a, (f a).Grows]
    [h : ∀ p : Fitting θ, Follows θ (f p.type) (g p.type) R] : Follows θ (x >>= f) (y >>= g) R :=
  .bind inferInstance inferInstance fun t _ ⟨ht, hfits⟩ => ht ▸ h ⟨t, hfits⟩

instance (n : Nat) (x y : Emit String) (f : String → Emit β) (g : String → Emit β')
    [Follows θ x y (NameLike θ n)] [∀ a, (f a).Grows]
    [h : ∀ p : Named θ n, Follows θ (f p.name) (g p.name) R] : Follows θ (x >>= f) (y >>= g) R :=
  .bind inferInstance inferInstance fun name _ ⟨hname, htakes⟩ => hname ▸ h ⟨name, htakes⟩

instance (x y : Emit Term) (f : Term → Emit β) (g : Term → Emit β') [Follows θ x y (TermLike θ)] [∀ a, (f a).Grows]
    [h : ∀ type (p : Pair (OperandLike θ)), Follows θ (f ⟨type, p.left⟩) (g ⟨type, p.right⟩) R] :
    Follows θ (x >>= f) (y >>= g) R :=
  .bind inferInstance inferInstance fun _ _ ⟨type, hv⟩ => h type ⟨_, _, hv⟩

instance (a : α) : Follows θ (pure a) (pure a) Eq := .pure rfl

instance (t : MachineType) [h : TypeFits θ t] : Follows θ (pure t) (pure t) (TypeLike θ) :=
  .pure ⟨rfl, h⟩

variable {v v' : Operand} {e e' : Fault}

instance [h : OperandLike θ v v'] : Follows θ (pure v) (pure v') (OperandLike θ) :=
  .pure h

instance (r r' : BlockRef) [h : RefLike θ r r'] : Follows θ (pure r) (pure r') (RefLike θ) := .pure h

instance (i i' : Nat) [h : VarLike θ i i'] : Follows θ (pure i) (pure i') (VarLike θ) := .pure h

instance (i i' : Nat) [h : VarLike θ i i'] : Follows θ (pure (some i)) (pure (some i')) (Option.Rel (VarLike θ)) :=
  .pure (.some h)

instance (type : Option ValueType) [h : OperandLike θ v v'] :
    Follows θ (pure (Term.mk type v)) (pure (Term.mk type v')) (TermLike θ) :=
  .pure ⟨type, h⟩

instance [h : OperandLike θ v v'] : Follows θ (pure (some v)) (pure (some v')) (Option.Rel (OperandLike θ)) :=
  .pure (.some h)

instance : Follows θ (pure (none : Option Operand)) (pure none) (Option.Rel (OperandLike θ)) :=
  .pure .none

instance (type : Option ValueType) [h : OperandLike θ v v'] :
    Follows θ (pure (some (Term.mk type v))) (pure (some (Term.mk type v'))) (Option.Rel (TermLike θ)) :=
  .pure (.some ⟨type, h⟩)

instance : Follows θ (pure (none : Option Term)) (pure none) (Option.Rel (TermLike θ)) :=
  .pure .none

instance (x y : Emit (Option Operand)) (f : Option Operand → Emit β) (g : Option Operand → Emit β')
    [Follows θ x y (Option.Rel (OperandLike θ))] [hn : (f none).Grows] [hs : ∀ v, (f (some v)).Grows]
    [Follows θ (f none) (g none) R] [h : ∀ p : Pair (OperandLike θ), Follows θ (f (some p.left)) (g (some p.right)) R] :
    Follows θ (x >>= f) (y >>= g) R := by
  refine .bind inferInstance ?_ ?_
  · rintro (_ | v)
    · exact hn
    · exact hs v
  · rintro _ _ (hv | _)
    · exact h ⟨_, _, hv⟩
    · infer_instance

instance (x y : Emit (Option Term)) (f : Option Term → Emit β) (g : Option Term → Emit β')
    [Follows θ x y (Option.Rel (TermLike θ))] [hn : (f none).Grows] [hs : ∀ t, (f (some t)).Grows]
    [Follows θ (f none) (g none) R] [h : ∀ type (p : Pair (OperandLike θ)),
      Follows θ (f (some ⟨type, p.left⟩)) (g (some ⟨type, p.right⟩)) R] : Follows θ (x >>= f) (y >>= g) R := by
  refine .bind inferInstance ?_ ?_
  · rintro (_ | t)
    · exact hn
    · exact hs t
  · rintro _ _ (⟨type, hv⟩ | _)
    · exact h type ⟨_, _, hv⟩
    · infer_instance

instance (priority := low) : Follows θ (throw e : Emit α) (throw e') Eq := .throw
instance : Follows θ (throw e) (throw e') (OperandLike θ) := .throw
instance : Follows θ (throw e) (throw e') (TermLike θ) := .throw

instance (x y : Emit α) (Q : α → α → Prop) [h : Follows θ x y Q] : Follows θ (discard x) (discard y) Eq :=
  h.map fun _ _ _ => rfl

instance (c : Prop) [Decidable c] (x1 x2 : Emit α) (y1 y2 : Emit α') (Q : α → α' → Prop)
    [Follows θ x1 y1 Q] [Follows θ x2 y2 Q] : Follows θ (if c then x1 else x2) (if c then y1 else y2) Q := by
  split <;> infer_instance

instance (c : Prop) [Decidable c] (x : Emit α) (y : Emit α') (Q : α → α' → Prop)
    [Follows θ x y Q] : Follows θ (if c then throw e else x) (if c then throw e' else y) Q := by
  split
  · exact .throw
  · infer_instance

instance (c : Prop) [Decidable c] (x : Emit α) (y : Emit α') (Q : α → α' → Prop)
    [Follows θ x y Q] : Follows θ (if c then x else throw e) (if c then y else throw e') Q := by
  split
  · infer_instance
  · exact .throw

instance (x : Except Fault α) : Follows θ (lift x) (lift x) Eq where
  grows := inferInstance
  run d s t s' a hst h _ := by
    obtain ⟨hx, rfl⟩ := lift_eq_ok.1 h
    exact ⟨a, t, lift_eq_ok.2 ⟨hx, rfl⟩, hst, rfl⟩

instance (x : Option α) : Follows θ (expect x e) (expect x e) Eq := by
  cases x with
  | none => exact .throw
  | some a => exact .pure rfl

instance (xs : List γ) (f : γ → β → Emit (ForInStep β)) (g : γ → β → Emit (ForInStep β))
    [h : ∀ a b, Follows θ (f a b) (g a b) Eq] (init : β) : Follows θ (forIn xs init f) (forIn xs init g) Eq :=
  .forEach (List.forall₂_same.2 fun _ _ => rfl) (fun a b => (h a b).grows)
    (fun a _ b ha => ha ▸ h a b) init

instance (xs : Array γ) (f : γ → β → Emit (ForInStep β)) (g : γ → β → Emit (ForInStep β))
    [∀ a b, Follows θ (f a b) (g a b) Eq] (init : β) : Follows θ (forIn xs init f) (forIn xs init g) Eq := by
  rw [← Array.forIn_toList, ← Array.forIn_toList]
  infer_instance

instance (xs : List γ) (f g : γ → Emit PUnit) [h : ∀ a, Follows θ (f a) (g a) Eq] :
    Follows θ (xs.forM f) (xs.forM g) Eq :=
  .forM (List.forall₂_same.2 fun _ _ => rfl) (fun a => (h a).grows) fun a _ ha => ha ▸ h a

end Instances
end Lowering
