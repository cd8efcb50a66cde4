import Lowering.Proofs.Tables

/-!
The pool of constants. A constant that was entered is found again, whatever is entered later, under
the variable that it was given first.
-/
namespace Lowering

namespace Binary64

theorem Place.same_self_of_same {a b : Place} (h : a.same b = true) : b.same b = true := by
  cases a <;> cases b <;> simp_all [Place.same]

theorem place_same_self {x : Binary64} (h : x.isNaN = false) : x.place.same x.place = true := by
  unfold place
  split
  next he =>
    split
    next => simp [Place.same]
    next hf => simp_all [isNaN]
  next => simp [Place.same]

end Binary64

namespace Constant

open Binary64 (Place)

mutual

/-- How deeply constants lie inside a constant. -/
def rank : Constant → Nat
  | tuple items | frozenset items => ranks items + 1
  | _ => 0

def ranks : List Constant → Nat
  | [] => 0
  | c :: rest => max (rank c) (ranks rest)

end

theorem float_same_self (x : Binary64) (tag : Nat) : (float x tag).same (float x tag) = true := by
  rw [same]
  split
  next h => simp [h]
  next h => exact Binary64.place_same_self (by simpa using h)

theorem complex_same_self_of_same {c : Constant} {re im : Binary64}
    (h : c.same (complex re im) = true) : (complex re im).same (complex re im) = true := by
  have hzero : im.place.same (.finite 0 0) = true → im.place.same im.place = true := by
    cases im.place <;> simp [Place.same]
  rw [same, Bool.and_eq_true]
  cases c <;> simp only [same, place?, Bool.and_eq_true, Bool.false_eq_true] at h
  case complex => exact ⟨Place.same_self_of_same h.1, Place.same_self_of_same h.2⟩
  all_goals
    split at h
    next hp hq =>
      split at hq
      next him =>
        cases hq
        exact ⟨Place.same_self_of_same h, hzero him⟩
      next => cases hq
    next => cases h

mutual

theorem same_self_of_same (c d : Constant) (h : c.same d = true) : d.same d = true := by
  cases d with
  | float x tag => exact float_same_self x tag
  | complex re im => exact complex_same_self_of_same h
  | tuple ds =>
    cases c with
    | tuple cs => exact sameAll_self_of_sameAll cs ds h
    | _ => simp [same, place?] at h
  | frozenset ds =>
    cases c with
    | frozenset cs => exact sameAll_self_of_sameAll cs ds h
    | _ => simp [same, place?] at h
  | _ => simp [same, place?, Place.same]

theorem sameAll_self_of_sameAll (cs ds : List Constant) (h : sameAll cs ds = true) : sameAll ds ds = true := by
  match cs, ds with
  | [], [] => rfl
  | [], _ :: _ => simp [sameAll] at h
  | _ :: _, [] => simp [sameAll] at h
  | c :: cs, d :: ds =>
    rw [sameAll, Bool.and_eq_true] at h ⊢
    exact ⟨same_self_of_same c d h.1, sameAll_self_of_sameAll cs ds h.2⟩

end

mutual

theorem rank_eq_of_same (c d : Constant) (h : c.same d = true) : c.rank = d.rank := by
  cases c with
  | tuple cs =>
    cases d with
    | tuple ds => simp only [rank, ranks_eq_of_sameAll cs ds h]
    | _ => simp [same, place?] at h
  | frozenset cs =>
    cases d with
    | frozenset ds => simp only [rank, ranks_eq_of_sameAll cs ds h]
    | _ => simp [same, place?] at h
  | _ =>
    cases d with
    | tuple ds => simp [same, place?] at h
    | frozenset ds => simp [same, place?] at h
    | _ => rfl

theorem ranks_eq_of_sameAll (cs ds : List Constant) (h : sameAll cs ds = true) : ranks cs = ranks ds := by
  match cs, ds with
  | [], [] => rfl
  | [], _ :: _ => simp [sameAll] at h
  | _ :: _, [] => simp [sameAll] at h
  | c :: cs, d :: ds =>
    rw [sameAll, Bool.and_eq_true] at h
    rw [ranks, ranks, rank_eq_of_same c d h.1, ranks_eq_of_sameAll cs ds h.2]

end

end Constant
namespace Program

variable {p q : Program} {c : Constant} {i : Nat}

theorem constantName_inj {j k : Nat} (h : constantName j = constantName k) : j = k := by
  have hchars := congrArg String.toList h
  simp only [constantName, String.toList_append, List.append_cancel_left_eq, Nat.toString_eq_repr,
    Nat.repr_eq_ofList_toDigits, String.toList_ofList] at hchars
  have hdigits := congrArg (Nat.ofDigitChars 10 · 0) hchars
  simpa only [Nat.ofDigitChars_toDigits (by decide : 1 < 10) (by decide : 10 ≤ 10)] using hdigits

/-- The program with a constant more, in a variable of its own. -/
def withConstant (p : Program) (c : Constant) (type : MachineType) : Program :=
  { p.withGlobal { name := constantName p.constants.size, type } with
    constants := p.constants.push (c, p.globals.size) }

theorem extends_withConstant (c : Constant) (type : MachineType) : p.Extends (p.withConstant c type) := by
  intro hp
  refine ⟨⟨hp.funcs, hp.cursors, hp.size, hp.listed, hp.found, globals_withGlobal hp,
      placed_withGlobal hp.placed, fun k hk => ?_⟩,
    ⟨rfl, rfl, rfl, ?_, ?_, List.prefix_rfl, ?_,
    fun _ f hf => ⟨f, hf, .refl f⟩, fun _ c hc => ⟨c, hc, rfl⟩⟩⟩
  · simp only [withConstant, Array.size_push] at hk
    have hold := lookup_eq_none_iff.1 (hp.constants k (by omega))
    refine lookup_eq_none_iff.2 fun e he => ?_
    simp only [withConstant, withGlobal, Array.mem_push] at he
    rcases he with he | rfl
    · exact hold e he
    · intro heq
      have := constantName_inj heq
      omega
  · simp [withConstant, withGlobal]
  · simp [withConstant, withGlobal]
  · simp [withConstant]

/-- Variables for objects may have been added, and nothing else but constants. -/
structure Filled (p q : Program) : Prop where
  sound : q.Sound
  grown : p.Grown q
  kept : p.Kept q
  funcs : q.funcs = p.funcs
  typed : ∀ (k : Nat) (g : GlobalVar), q.globals[k]? = some g → p.globals[k]? = some g ∨
    objectPtr p = .ok g.type p

theorem Filled.refl (hp : p.Sound) : p.Filled p :=
  ⟨hp, .refl p, .of_eq rfl rfl, rfl, fun _ _ h => .inl h⟩

theorem Filled.trans {r : Program} (hpq : p.Filled q) (hqr : q.Filled r) : p.Filled r where
  sound := hqr.sound
  grown := hpq.grown.trans hqr.grown
  kept := hpq.kept.trans hqr.kept
  funcs := hqr.funcs.trans hpq.funcs
  typed k g hg := by
    rcases hqr.typed k g hg with hg | hg
    · exact hpq.typed k g hg
    · exact .inr (Settled.ok_of_ok hpq.grown.known.symm hpq.grown.structs.symm hg).2

theorem filled_withConstant {type : MachineType} (c : Constant) (hp : p.Sound)
    (ht : objectPtr p = .ok type p) : p.Filled (p.withConstant c type) := by
  obtain ⟨hsound, hgrown⟩ := extends_withConstant c type hp
  refine ⟨hsound, hgrown, .of_eq rfl rfl, rfl, fun k g hg => ?_⟩
  simp only [withConstant, withGlobal, Array.getElem?_push] at hg
  split at hg
  next =>
    cases hg
    exact .inr ht
  next => exact .inl hg

/-- A constant has been entered, and nothing of a greater rank. -/
structure Entered (c : Constant) (p q : Program) (i : Nat) : Prop extends Filled p q where
  found : q.findConstant c = some i
  same_self : c.same c = true
  added : ∀ e ∈ q.constants, e ∈ p.constants ∨ e.1.rank ≤ c.rank

structure MembersEntered (cs : List Constant) (p q : Program) : Prop extends Filled p q where
  same_self : Constant.sameAll cs cs = true
  added : ∀ e ∈ q.constants, e ∈ p.constants ∨ e.1.rank ≤ Constant.ranks cs

theorem pool_eq_ok {members : Build Unit} (h : pool c members p = .ok i q) : p.findConstant c = some i ∧ q = p ∨
    p.findConstant c = none ∧ isPooled c = true ∧ ∃ p1, members p = .ok () p1 ∧
      (p1.Sound → ∃ type, objectPtr p1 = .ok type p1 ∧ i = p1.globals.size ∧ q = p1.withConstant c type) := by
  rw [pool, get_bind_run] at h
  cases hfind : p.findConstant c with
  | some j =>
    rw [hfind] at h
    obtain ⟨rfl, rfl⟩ := pure_eq_ok.1 h
    exact .inl ⟨rfl, rfl⟩
  | none =>
    rw [hfind] at h
    refine .inr ⟨rfl, ?_⟩
    cases hpooled : isPooled c with
    | false =>
      simp only [hpooled, Bool.false_eq_true, if_false] at h
      obtain ⟨_, _, hthrow, -⟩ := bind_eq_ok.1 h
      exact absurd hthrow throw_ne_ok
    | true =>
      simp only [hpooled, if_true] at h
      obtain ⟨_, p1, hm, hnamed⟩ := bind_eq_ok.1 h
      obtain ⟨_, _, hget, htyped⟩ := bind_eq_ok.1 hnamed
      obtain ⟨rfl, rfl⟩ := get_eq_ok.1 hget
      obtain ⟨type, _, htype, hadded⟩ := bind_eq_ok.1 htyped
      obtain ⟨rfl, -⟩ := Settled.ok_of_ok rfl rfl htype
      obtain ⟨j, p2, hadd, hlast⟩ := bind_eq_ok.1 hadded
      refine ⟨rfl, _, hm, fun hsound => ⟨type, htype, ?_⟩⟩
      obtain ⟨rfl, rfl⟩ := (addGlobal_eq_ok (hsound.constants _ (Nat.le_refl _))).1 hadd
      cases hlast
      exact ⟨rfl, rfl⟩

theorem findConstant_eq_none_iff : p.findConstant c = none ↔ ∀ e ∈ p.constants, e.1.same c = false := by
  simp [findConstant]

theorem findConstant_mono (hp : p.constants.toList <+: q.constants.toList)
    (h : p.findConstant c = some i) : q.findConstant c = some i := by
  obtain ⟨more, hmore⟩ := hp
  unfold findConstant at *
  rw [← Array.find?_toList] at *
  rw [← hmore, List.find?_append]
  cases hf : p.constants.toList.find? (fun k => k.1.same c) with
  | none => simp [hf] at h
  | some e => simpa [hf] using h

theorem findConstant_withConstant {type : MachineType} (hself : c.same c = true) (hnone : p.findConstant c = none) :
    (p.withConstant c type).findConstant c = some p.globals.size := by
  have hold := findConstant_eq_none_iff.1 hnone
  have hfind : p.constants.find? (fun k => k.1.same c) = none := by
    simpa using hold
  simp [findConstant, withConstant, Array.find?_push, hfind, hself]

theorem same_self_of_found (h : p.findConstant c = some i) : c.same c = true := by
  unfold findConstant at h
  obtain ⟨e, he, -⟩ := Option.map_eq_some_iff.1 h
  exact Constant.same_self_of_same e.1 c (by simpa using Array.find?_some he)

/-- Constants of a smaller rank do not take the place of a constant. -/
theorem findConstant_eq_none_of_rank (hnone : p.findConstant c = none)
    (hadded : ∀ e ∈ q.constants, e ∈ p.constants ∨ e.1.rank < c.rank) : q.findConstant c = none := by
  refine findConstant_eq_none_iff.2 fun e he => ?_
  rcases hadded e he with hold | hrank
  · exact findConstant_eq_none_iff.1 hnone e hold
  · by_contra hsame
    have := Constant.rank_eq_of_same e.1 c (by simpa using hsame)
    omega

theorem pool_entered {members : Build Unit} (hp : p.Sound) (h : pool c members p = .ok i q)
    (hm : ∀ p1, isPooled c = true → members p = .ok () p1 →
      p.Filled p1 ∧ c.same c = true ∧ ∀ e ∈ p1.constants, e ∈ p.constants ∨ e.1.rank < c.rank) : Entered c p q i := by
  rcases pool_eq_ok h with ⟨hfound, rfl⟩ | ⟨hnone, hpooled, p1, hmembers, hq⟩
  · exact ⟨.refl hp, hfound, same_self_of_found hfound, fun e he => .inl he⟩
  · obtain ⟨hfilled, hself, hadded⟩ := hm p1 hpooled hmembers
    obtain ⟨type, htype, rfl, rfl⟩ := hq hfilled.sound
    have hnone1 := findConstant_eq_none_of_rank hnone hadded
    refine ⟨hfilled.trans (filled_withConstant c hfilled.sound htype),
      findConstant_withConstant hself hnone1, hself, ?_⟩
    intro e he
    simp only [withConstant, Array.mem_push] at he
    rcases he with he | rfl
    · exact (hadded e he).imp_right Nat.le_of_lt
    · exact .inr (Nat.le_refl _)

theorem plain_entered (hp : p.Sound) (h : pool c (return ()) p = .ok i q)
    (hself : isPooled c = true → c.same c = true) : Entered c p q i := by
  refine pool_entered hp h fun p1 hpooled hm => ?_
  obtain ⟨-, rfl⟩ := pure_eq_ok.1 hm
  exact ⟨.refl hp, hself hpooled, fun e he => .inl he⟩

mutual

theorem constantVar_entered (c : Constant) {p q : Program} {i : Nat} (hp : p.Sound)
    (h : constantVar c p = .ok i q) : Entered c p q i := by
  cases c with
  | tuple cs =>
    refine pool_entered hp h fun p1 _ hm => ?_
    have hcs := memberVars_entered cs hp hm
    exact ⟨hcs.toFilled, hcs.same_self, fun e he =>
      (hcs.added e he).imp_right Nat.lt_succ_of_le⟩
  | frozenset cs =>
    refine pool_entered hp h fun p1 _ hm => ?_
    have hcs := memberVars_entered cs hp hm
    exact ⟨hcs.toFilled, hcs.same_self, fun e he =>
      (hcs.added e he).imp_right Nat.lt_succ_of_le⟩
  | float x tag => exact plain_entered hp h fun _ => Constant.float_same_self x tag
  | bool b => exact plain_entered hp h fun _ => by simp [Constant.same, Constant.place?, Binary64.Place.same]
  | int n => exact plain_entered hp h fun _ => by simp [Constant.same, Constant.place?, Binary64.Place.same]
  | text s => exact plain_entered hp h fun _ => by simp [Constant.same]
  | _ => exact plain_entered hp h fun hpooled => by simp [isPooled] at hpooled

theorem memberVars_entered (cs : List Constant) {p q : Program} (hp : p.Sound)
    (h : memberVars cs p = .ok () q) : MembersEntered cs p q := by
  cases cs with
  | nil =>
    obtain ⟨-, rfl⟩ := pure_eq_ok.1 h
    exact ⟨.refl hp, rfl, fun e he => .inl he⟩
  | cons c cs =>
    obtain ⟨_, p1, hfirst, hrest⟩ := bind_eq_ok.1 h
    obtain ⟨i, hfirst, -⟩ := map_eq_ok.1 hfirst
    have hc := constantVar_entered c hp hfirst
    have hcs := memberVars_entered cs hc.sound hrest
    refine ⟨hc.toFilled.trans hcs.toFilled, ?_, fun e he => ?_⟩
    · rw [Constant.sameAll, hc.same_self, hcs.same_self]
      rfl
    · rw [Constant.ranks]
      rcases hcs.added e he with he | he
      · exact (hc.added e he).imp_right fun h => by omega
      · exact .inr (by omega)

end

theorem constantVar_of_found (h : p.findConstant c = some i) : constantVar c p = .ok i p := by
  have hpool : ∀ members, pool c members p = .ok i p := by
    intro members
    rw [pool, get_bind_run, h]
    rfl
  cases c <;> exact hpool _

instance (c : Constant) : Request (constantVar c) where
  extends_of_ok h hp :=
    have hc := constantVar_entered c hp h
    ⟨hc.sound, hc.grown⟩
  kept hp h := (constantVar_entered c hp h).kept
  granted hp h hr :=
    constantVar_of_found (findConstant_mono hr.constants (constantVar_entered c hp h).found)

end Program
end Lowering
