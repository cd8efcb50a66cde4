import Lowering.Proofs.Twins.Mirror

/-!
How the two functions of a definition bind their arguments, side by side. The one that is called with a tuple
is followed through its code; for every argument the other computes three values less.
-/
namespace Lowering.Twins

open Emit Lower

variable {s s' t : State} {f e k n i : Nat} {is is' : List Instr} {param : Node} {shift : Int} {m : Mirror}

theorem parameterName_eq_ok {name : Label} (h : parameterName param s = .ok name s') :
    s' = s ∧ ∀ t, parameterName param t = .ok name t := by
  unfold parameterName at h ⊢
  cases hform : param.form <;> rw [hform] at h
  case arg | keyword =>
    obtain ⟨rfl, rfl⟩ := pure_eq_ok.1 h
    exact ⟨rfl, fun _ => rfl⟩
  all_goals exact absurd h throw_ne_ok

/-- A function binds its arguments: code goes to one of its blocks, and variables are made in another. -/
structure Binds (s : State) (f e k n : Nat) (is : List Instr) : Prop extends Stands s f k n is where
  lowerer : s.lowerer = .tree
  entry : s.tree.entry = ⟨f, e⟩

/-- An argument has been bound from a tuple: its variable was there or was made, then its place was computed. -/
structure Bound (f e k n : Nat) (is : List Instr) (i : Nat) (param : Node) (type : MachineType) (c : Nat)
    (s s' : State) : Prop where
  le : n ≤ c
  whole : ∀ j ∈ tupleCode type i c, j.Whole
  steps : ∃ name v s₁, (∀ t, parameterName param t = .ok name t) ∧ variableFor name s = .ok v s₁ ∧
    Binds s₁ f e k c is ∧ tuplePlace i s₁ = .ok (.id (c + 4 : Nat)) (appended s₁ f k (tupleCode type i c)) ∧
    modifyVariable v (fun v => { v with slot := .value (.id (c + 4 : Nat)) }) (appended s₁ f k (tupleCode type i c)) =
      .ok () s'
  binds : Binds s' f e k (c + 5) (is ++ tupleCode type i c)

variable {type : MachineType}

theorem Binds.bindAt_eq_ok (hs : Binds s f e k n is) (he : e ≠ k)
    (hobject : Program.objectPtr s.program = .ok type s.program) (hsound : s.program.Sound)
    (h : bindAt tuplePlace i param s = .ok () s') : ∃ c, Bound f e k n is i param type c s s' := by
  unfold bindAt at h
  obtain ⟨name, s0, hname, h0⟩ := bind_eq_ok.1 h
  obtain ⟨rfl, hname'⟩ := parameterName_eq_ok hname
  obtain ⟨v, s1, hvar, h1⟩ := bind_eq_ok.1 h0
  obtain ⟨⟨c, hle, hs1⟩, hlowerer, htree⟩ := hs.toStands.variableFor hs.lowerer hs.entry he hvar
  have hgrown := (Grows.extends_of_ok hvar hsound).2
  obtain ⟨address, s2, hplace, h2⟩ := bind_eq_ok.1 h1
  obtain ⟨type', hobject', hwhole, rfl, rfl⟩ := hs1.tuplePlace_eq_ok hplace
  obtain rfl : type' = type := by
    have hsame := (Program.Settled.ok_of_ok hgrown.known hgrown.structs hobject).2
    cases hobject'.symm.trans hsame
    rfl
  have hentry : s1.tree.entry = ⟨f, e⟩ := htree ▸ hs.entry
  obtain ⟨hs', hlowerer', htree'⟩ := (hs1.appended _).modifyVariable h2
  exact ⟨c, hle, hwhole, ⟨name, v, s1, hname', hvar, ⟨hs1, hlowerer, hentry⟩, hplace, h2⟩,
    ⟨hs', hlowerer'.trans hlowerer, htree' ▸ hentry⟩⟩

theorem result?_tupleCode {c j : Nat} {code : Instr} (h : (tupleCode type i c)[j]? = some code) :
    code.result? = some (c + j) := by
  match j with
  | 0 | 1 | 2 | 3 | 4 => cases h; rfl
  | j + 5 => cases h

theorem Bound.follow {c : Nat} (hb : Bound m.home e (m.first + 1) n is i param type c s s')
    (h : m.Abreast n shift is is' s t) (hgrown : s'.program.Grown m.final)
    (hbefore : ∀ x : Nat, n ≤ x → x < c → m.likeness.value x (x + shift))
    (hplace : m.likeness.value (c + 4 : Nat) (c + 1 + shift)) (hshift : shift ≤ 1)
    (hobject : Program.objectPtr m.final = .ok type m.final) : ∃ c' t', bindAt vectorPlace i param t = .ok () t' ∧
      m.Abreast (c + 5) (shift - 3) (is ++ tupleCode type i c) (is' ++ vectorCode type i c') s' t' := by
  obtain ⟨name, v, s1, hname, hvar, hs1, htuple, hmodify⟩ := hb.steps
  obtain ⟨hsound, -⟩ := h.sound
  obtain ⟨hsound1, -⟩ := Grows.extends_of_ok hvar hsound
  have hext2 := Grows.extends_of_ok htuple
  obtain ⟨hsound2, hgrown2⟩ := hext2 hsound1
  have hgrown3 := (Grows.extends_of_ok hmodify hsound2).2.trans hgrown
  -- the variable of the parameter
  obtain ⟨v', t1, hvar', h1, hvv⟩ := h.follow (inferInstance : Follows m.likeness (variableFor name) (variableFor name) _)
    inferInstance hvar (hgrown2.trans hgrown3) fun g hg x hx hlt => by
      obtain ⟨g', hg', rfl, -⟩ := hs1.func
      cases hg.symm.trans hg'
      exact hbefore x hx hlt
  -- the place of the argument
  obtain ⟨c', hc', ht1⟩ := h1.stands hs1.toStands
  have hle : c' ≤ c + 1 := by omega
  have hwhole := (whole_vectorCode hb.whole hle).2
  have hvector := ht1.vectorPlace_eq_ok (Program.Settled.ok_of_ok h1.grown'.known h1.grown'.structs hobject).2 hwhole
  have h2 := h1.append hs1.toStands ht1 (fun j code hj => ⟨hb.whole code (List.mem_of_getElem? hj), result?_tupleCode hj⟩)
    hext2 hgrown3 (Grows.extends_of_ok hvector)
  -- the variable is at that place
  have : OperandLike m.likeness (.id (c + 4 : Nat)) (.id (c' + 1 : Nat)) := .id (by
    rw [show ((c' + 1 : Nat) : Int) = c + 1 + shift by omega]
    exact hplace)
  have hslot : Follows m.likeness (modifyVariable v fun v => { v with slot := .value (.id (c + 4 : Nat)) })
    (modifyVariable v' fun v => { v with slot := .value (.id (c' + 1 : Nat)) }) Eq := inferInstance
  obtain ⟨_, t', hmodify', h3, -⟩ := h2.follow hslot inferInstance hmodify hgrown fun g hg x hx hlt => by
      obtain ⟨g', hg', hnext, -⟩ := hb.binds.func
      cases hg.symm.trans hg'
      exact absurd hlt (by rw [hnext]; exact Nat.not_lt.2 hx)
  refine ⟨c', t', ?_, ?_⟩
  · exact bind_eq_ok.2 ⟨name, t, hname t, bind_eq_ok.2 ⟨v', t1, hvar', bind_eq_ok.2 ⟨_, _, hvector, hmodify'⟩⟩⟩
  · rwa [show shift - 3 = shift + (vectorCode type i c').length - (tupleCode type i c).length by
      simp only [vectorCode, tupleCode, List.length_cons, List.length_nil]; omega]

theorem Bound.grows {c : Nat} (hb : Bound f e k n is i param type c s s') : s.program.Extends s'.program := by
  obtain ⟨name, v, s1, -, hvar, -, htuple, hmodify⟩ := hb.steps
  exact (Grows.extends_of_ok hvar).trans ((Grows.extends_of_ok htuple).trans (Grows.extends_of_ok hmodify))

/-- Arguments have been bound from a tuple, one after the other. -/
inductive BoundAll (f e k : Nat) (type : MachineType) :
    Nat → List Instr → Nat → List Node → List Nat → State → State → Prop
  | nil {n i : Nat} {is : List Instr} {s : State} : BoundAll f e k type n is i [] [] s s
  | cons {n i c : Nat} {is : List Instr} {param : Node} {params : List Node} {cs : List Nat} {s s₁ s' : State}
      (h : Bound f e k n is i param type c s s₁)
      (hrest : BoundAll f e k type (c + 5) (is ++ tupleCode type i c) (i + 1) params cs s₁ s') :
    BoundAll f e k type n is i (param :: params) (c :: cs) s s'

theorem Binds.exists_boundAll {params : List Node} (hs : Binds s f e k n is) (he : e ≠ k)
    (hobject : Program.objectPtr s.program = .ok type s.program) (hsound : s.program.Sound)
    (h : bindFrom tuplePlace i params s = .ok () s') : ∃ cs, BoundAll f e k type n is i params cs s s' := by
  induction params generalizing s n is i with
  | nil =>
    obtain ⟨-, rfl⟩ := pure_eq_ok.1 h
    exact ⟨[], .nil⟩
  | cons param params ih =>
    obtain ⟨_, s1, hparam, hrest⟩ := bind_eq_ok.1 h
    obtain ⟨c, hc⟩ := hs.bindAt_eq_ok he hobject hsound hparam
    obtain ⟨hsound1, hgrown1⟩ := hc.grows hsound
    obtain ⟨cs, hcs⟩ := ih hc.binds (Program.Settled.ok_of_ok hgrown1.known hgrown1.structs hobject).2 hsound1 hrest
    exact ⟨c :: cs, .cons hc hcs⟩

namespace BoundAll

variable {type : MachineType} {params : List Node} {cs : List Nat}

theorem length (h : BoundAll f e k type n is i params cs s s') : cs.length = params.length := by
  induction h with
  | nil => rfl
  | cons _ _ ih => rw [List.length_cons, List.length_cons, ih]

theorem grows (h : BoundAll f e k type n is i params cs s s') : s.program.Extends s'.program := by
  induction h with
  | nil => exact .refl _
  | cons h _ ih => exact h.grows.trans ih

theorem binds (h : BoundAll f e k type n is i params cs s s') (hs : Binds s f e k n is) :
    Marked n (ending n cs) cs ∧ Binds s' f e k (ending n cs) (is ++ prologue tupleCode type i cs) := by
  induction h with
  | nil => exact ⟨Nat.le_refl _, by rwa [prologue, List.append_nil]⟩
  | cons h _ ih =>
    obtain ⟨hmarked, hs'⟩ := ih h.binds
    refine ⟨⟨h.le, (whole_vectorCode h.whole (Nat.le_refl _)).1, hmarked⟩, ?_⟩
    rwa [prologue, ← List.append_assoc]

theorem follow (h : BoundAll m.home e (m.first + 1) type n is i params cs s s') (hst : m.Abreast n shift is is' s t)
    (hgrown : s'.program.Grown m.final) (hmarked : Marked n m.last.nextValue cs)
    (hnumbers : ∀ x y : Int, Numbers n shift cs x y → x < m.last.nextValue → m.likeness.value x y)
    (hshift : shift ≤ 1) (hobject : Program.objectPtr m.final = .ok type m.final) :
    ∃ cs' t', cs'.length = cs.length ∧ bindFrom vectorPlace i params t = .ok () t' ∧
      m.Abreast (ending n cs) (shift - 3 * cs.length) (is ++ prologue tupleCode type i cs)
        (is' ++ prologue vectorCode type i cs') s' t' := by
  -- by induction over the arguments; each lets the shift fall by three
  generalize hf : m.home = f, hk : m.first + 1 = k at h
  induction h generalizing shift is' t with
  | nil => exact ⟨[], t, rfl, rfl, by simpa [prologue, ending] using hst⟩
  | @cons n i c is param params cs s s1 s' h hrest ih =>
    subst hf hk
    have hle := hmarked.2.2.le
    have hgrown1 := (hrest.grows (h.grows hst.sound.1).1).2.trans hgrown
    obtain ⟨c', t1, hparam, hst1⟩ := h.follow hst hgrown1
      (fun x hx hlt => hnumbers _ _ (.before (by omega) (by omega)) (by omega))
      (hnumbers _ _ .place (by omega)) hshift hobject
    obtain ⟨cs', t', hlength, hparams, hst'⟩ := ih hst1 hgrown hmarked.2.2
      (fun x y hxy => hnumbers x y (.after hxy)) (by omega)
    refine ⟨c' :: cs', t', by rw [List.length_cons, List.length_cons, hlength], bind_eq_ok.2 ⟨(), t1, hparam, hparams⟩, ?_⟩
    rw [ending, prologue, prologue, ← List.append_assoc, ← List.append_assoc, List.length_cons,
      show shift - 3 * ((cs.length + 1 : Nat) : Int) = shift - 3 - 3 * cs.length by omega]
    exact hst'

end BoundAll

end Lowering.Twins
