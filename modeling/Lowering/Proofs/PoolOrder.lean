import Lowering.Proofs.Setup

/-!
The order of the pool of constants. Whatever constants are asked for, also such as are refused, the keys
of the pool are different, each has the variable of its place, and what lies inside a key comes before it.
-/
namespace Lowering

namespace Binary64

theorem Place.same_comm (a b : Place) : a.same b = b.same a := by
  cases a <;> cases b <;> simp [Place.same, BEq.comm]

theorem place_of_isNaN {x : Binary64} (h : x.isNaN = true) : x.place = .nowhere := by
  simp only [isNaN, Bool.and_eq_true, beq_iff_eq, bne_iff_ne] at h
  simp [place, h.1, h.2]

end Binary64

namespace Constant

open Binary64 (Place)

theorem float_same_comm (x y : Binary64) (i j : Nat) : (float x i).same (float y j) = (float y j).same (float x i) := by
  rw [same, same]
  cases hx : x.isNaN <;> cases hy : y.isNaN
  · simp [Place.same_comm]
  · simp [Binary64.place_of_isNaN hy, Place.same]
  · simp [Binary64.place_of_isNaN hx, Place.same]
  · simp [BEq.comm]

theorem complex_same_comm (re im : Binary64) (d : Constant) : (complex re im).same d = d.same (complex re im) := by
  cases d with
  | complex => simp only [same, Place.same_comm]
  | _ => cases h : im.place.same (.finite 0 0) <;> simp [same, place?, h, Place.same_comm]

mutual

theorem same_comm (c d : Constant) : c.same d = d.same c := by
  cases c with
  | tuple cs =>
    cases d with
    | tuple ds => exact sameAll_comm cs ds
    | _ => simp [same, place?]
  | frozenset cs =>
    cases d with
    | frozenset ds => exact sameAll_comm cs ds
    | _ => simp [same, place?]
  | float x i =>
    cases d with
    | float y j => exact float_same_comm x y i j
    | complex re im => exact (complex_same_comm re im _).symm
    | _ => simp only [same, place?, Place.same_comm]
  | complex re im => exact complex_same_comm re im d
  | _ =>
    cases d with
    | complex re im => exact (complex_same_comm re im _).symm
    | _ => simp [same, place?, Place.same_comm, BEq.comm]

theorem sameAll_comm (cs ds : List Constant) : sameAll cs ds = sameAll ds cs := by
  match cs, ds with
  | [], [] => rfl
  | [], _ :: _ => simp [sameAll]
  | _ :: _, [] => simp [sameAll]
  | c :: cs, d :: ds => rw [sameAll, sameAll, same_comm c d, sameAll_comm cs ds]

end

/-- What lies inside a constant. -/
def members : Constant → List Constant
  | tuple items | frozenset items => items
  | _ => []

end Constant

namespace Program

variable {p q : Program} {c : Constant} {i : Nat}

/-- The keys of the pool are different, each has the variable of its place, and what lies inside a key is
a key before it. -/
structure Ordered (p : Program) : Prop where
  sound : p.Sound
  pooled : ∀ (k : Nat) (e : Constant × Nat), p.constants[k]? = some e → isPooled e.1 = true
  distinct : ∀ (j k : Nat) (e e' : Constant × Nat), p.constants[j]? = some e → p.constants[k]? = some e' →
    j ≠ k → e.1.same e'.1 = false
  named : ∀ (k : Nat) (e : Constant × Nat), p.constants[k]? = some e →
    lookup p.globalTable (constantName k) = some e.2
  members : ∀ (k : Nat) (e : Constant × Nat), p.constants[k]? = some e → ∀ x ∈ e.1.members,
    ∃ (j : Nat) (e' : Constant × Nat), j < k ∧ p.constants[j]? = some e' ∧ e'.1.same x = true

theorem ordered_ready : Compile.ready.program.Ordered where
  sound := Compile.sound_ready
  pooled := by simp [Compile.constants_ready]
  distinct := by simp [Compile.constants_ready]
  named := by simp [Compile.constants_ready]
  members := by simp [Compile.constants_ready]

theorem exists_of_found (h : p.findConstant c = some i) :
    ∃ (j : Nat) (e : Constant × Nat), p.constants[j]? = some e ∧ e.1.same c = true ∧ e.2 = i := by
  obtain ⟨e, he, rfl⟩ := Option.map_eq_some_iff.1 h
  obtain ⟨j, hj⟩ := Array.getElem?_of_mem (Array.mem_of_find?_eq_some he)
  exact ⟨j, e, hj, by simpa using Array.find?_some he, rfl⟩

theorem Ordered.withConstant (hp : p.Ordered) (hc : isPooled c = true) (hnone : p.findConstant c = none)
    (hmembers : ∀ x ∈ c.members, ∃ i, p.findConstant x = some i) (type : MachineType) :
    (p.withConstant c type).Ordered := by
  have hold := findConstant_eq_none_iff.1 hnone
  have hget : ∀ (k : Nat) (e : Constant × Nat), (p.withConstant c type).constants[k]? = some e →
      p.constants[k]? = some e ∨ k = p.constants.size ∧ e = (c, p.globals.size) := by
    intro k e he
    simp only [Program.withConstant, Array.getElem?_push] at he
    split at he
    next hk => exact .inr ⟨hk, (Option.some.inj he).symm⟩
    next => exact .inl he
  have hkeep : ∀ (k : Nat) (e : Constant × Nat), p.constants[k]? = some e →
      (p.withConstant c type).constants[k]? = some e := fun k e he => getElem?_push_of_some he
  have htable : p.globalTable.toList <+: (p.withConstant c type).globalTable.toList := by
    simp [Program.withConstant, withGlobal]
  refine ⟨(extends_withConstant c type hp.sound).1, fun k e hk => ?_, fun j k e e' hj hk hjk => ?_,
    fun k e hk => ?_, fun k e hk x hx => ?_⟩
  · rcases hget k e hk with hk | ⟨rfl, rfl⟩
    · exact hp.pooled k e hk
    · exact hc
  · rcases hget j e hj with hj | ⟨rfl, rfl⟩ <;> rcases hget k e' hk with hk | ⟨rfl, rfl⟩
    · exact hp.distinct j k e e' hj hk hjk
    · exact hold e (Array.mem_of_getElem? hj)
    · exact (c.same_comm e'.1).trans (hold e' (Array.mem_of_getElem? hk))
    · exact absurd rfl hjk
  · rcases hget k e hk with hk | ⟨rfl, rfl⟩
    · exact lookup_mono htable (hp.named k e hk)
    · exact lookup_push_self (hp.sound.constants _ (Nat.le_refl _))
  · rcases hget k e hk with hk | ⟨rfl, rfl⟩
    · obtain ⟨j, e', hjk, hj, hsame⟩ := hp.members k e hk x hx
      exact ⟨j, e', hjk, hkeep j e' hj, hsame⟩
    · obtain ⟨i, hi⟩ := hmembers x hx
      obtain ⟨j, e', hj, hsame, -⟩ := exists_of_found hi
      exact ⟨j, e', (Array.getElem?_eq_some_iff.1 hj).1, hkeep j e' hj, hsame⟩

/-- The variable of a key is listed, after those of the setup, and numbered by its place. -/
theorem Ordered.exists_place (hp : p.Ordered) {k : Nat} {e : Constant × Nat} (he : p.constants[k]? = some e) :
    ∃ (j : Nat) (g : GlobalVar), 7 ≤ j ∧ p.globalTable[j]? = some (constantName k, e.2) ∧
      p.globals[e.2]? = some g ∧ g.name = constantName k ∧ g.id = j := by
  obtain ⟨j, hj⟩ := Array.getElem?_of_mem (mem_of_lookup (hp.named k e he))
  obtain ⟨g, hg, hname, hid⟩ := hp.sound.placed.number j _ hj
  have hseven : 7 ≤ j := by
    by_contra hlt
    have hlt' : j < setupNames.length := by
      rw [show setupNames.length = 7 from rfl]
      omega
    have hnames := List.prefix_iff_getElem?.1 hp.sound.placed.setup j hlt'
    rw [List.getElem?_map, Array.getElem?_toList, hj] at hnames
    have hplain : ∀ name ∈ setupNames, name.toList.head? ≠ some '@' := by decide
    exact constantName_ne (hplain _ (List.getElem_mem hlt')) (Option.some.inj hnames)
  exact ⟨j, g, hseven, hj, hg, hname, by rw [hid, numberAt, if_neg (by omega)]⟩

theorem objectPtr_eq_error {e : Fault} (h : objectPtr p = .error e q) : q = p := by
  rcases bind_eq_error.1 h with hobject | ⟨t, p1, -, hlast⟩
  · rcases bind_eq_error.1 hobject with h | ⟨i, p1, hi, h⟩
    · rw [known!, get_bind_run] at h
      cases hknown : p.known.objectStruct with
      | none =>
        rw [hknown] at h
        exact (throw_eq_error.1 h).2
      | some i =>
        rw [hknown] at h
        exact absurd h pure_ne_error
    · rw [(known!_eq_ok.1 hi).2, get_bind_run] at h
      cases hstruct : p.structs[i]? with
      | none =>
        rw [hstruct] at h
        exact (throw_eq_error.1 h).2
      | some d =>
        rw [hstruct] at h
        exact absurd h pure_ne_error
  · exact absurd hlast pure_ne_error

theorem pool_eq_error {members : Build Unit} {e : Fault} (h : pool c members p = .error e q) :
    q = p ∨ q = leftBy (members p) := by
  rw [Program.pool, get_bind_run] at h
  cases hfind : p.findConstant c with
  | some j =>
    rw [hfind] at h
    exact absurd h pure_ne_error
  | none =>
    rw [hfind] at h
    cases hpooled : isPooled c with
    | false =>
      simp only [hpooled, Bool.false_eq_true, if_false] at h
      rcases bind_eq_error.1 h with h | ⟨_, _, hthrow, -⟩
      · exact .inl (throw_eq_error.1 h).2
      · exact absurd hthrow throw_ne_ok
    | true =>
      simp only [hpooled, if_true] at h
      refine .inr ?_
      rcases bind_eq_error.1 h with h | ⟨_, p1, hm, h⟩
      · rw [h]
        rfl
      rw [hm]
      rw [get_bind_run] at h
      rcases bind_eq_error.1 h with h | ⟨type, p2, htype, h⟩
      · exact objectPtr_eq_error h
      · rcases bind_eq_error.1 h with h | ⟨j, p3, -, h⟩
        · cases h
        · cases h

theorem exists_found_of_memberVars {cs : List Constant} (hp : p.Sound) (h : memberVars cs p = .ok () q)
    {x : Constant} (hx : x ∈ cs) : ∃ i, q.findConstant x = some i := by
  induction cs generalizing p with
  | nil => cases hx
  | cons c cs ih =>
    obtain ⟨_, p1, hfirst, hrest⟩ := bind_eq_ok.1 h
    obtain ⟨i, hfirst, -⟩ := map_eq_ok.1 hfirst
    have hc := constantVar_entered c hp hfirst
    rcases List.mem_cons.1 hx with rfl | hx
    · exact ⟨i, findConstant_mono (memberVars_entered cs hc.sound hrest).grown.constants hc.found⟩
    · exact ih hc.sound hrest hx

/-- The program after constants have been asked for, one after the other. -/
def afterRequests : List Constant → Program → Program
  | [], p => p
  | c :: cs, p => afterRequests cs (leftBy (constantVar c p))

/-- A property of programs that stays when a constant is entered whose members are keys already. -/
structure Steady (I : Program → Prop) : Prop where
  sound : ∀ {p : Program}, I p → p.Sound
  withConstant : ∀ {p : Program} {c : Constant} (type : MachineType), I p → isPooled c = true →
    p.findConstant c = none → (∀ x ∈ c.members, ∃ i, p.findConstant x = some i) → I (p.withConstant c type)

variable {I : Program → Prop}

theorem Steady.pool {members : Build Unit} (hI : Steady I) (hp : I p) (hm : I (leftBy (members p)))
    (hfound : ∀ p1, p.findConstant c = none → members p = .ok () p1 →
      p1.findConstant c = none ∧ ∀ x ∈ c.members, ∃ i, p1.findConstant x = some i) :
    I (leftBy (Program.pool c members p)) := by
  cases h : Program.pool c members p with
  | error e q =>
    rcases pool_eq_error h with rfl | rfl
    · exact hp
    · exact hm
  | ok i q =>
    rcases pool_eq_ok h with ⟨-, rfl⟩ | ⟨hnone, hc, p1, hmembers, hq⟩
    · exact hp
    · rw [hmembers] at hm
      obtain ⟨hnone1, hfound1⟩ := hfound p1 hnone hmembers
      obtain ⟨type, -, -, rfl⟩ := hq (hI.sound hm)
      exact hI.withConstant type hm hc hnone1 hfound1

mutual

/-- The property stays when a constant is asked for, granted or not. -/
theorem Steady.constantVar (hI : Steady I) (c : Constant) {p : Program} (hp : I p) :
    I (leftBy (Program.constantVar c p)) := by
  have hplain : c.members = [] → I (leftBy (Program.pool c (return ()) p)) := fun hc =>
    hI.pool hp hp fun p1 hnone hm => by
      obtain ⟨-, rfl⟩ := pure_eq_ok.1 hm
      exact ⟨hnone, by simp [hc]⟩
  have hitems : ∀ items, c.members = items → c.rank = Constant.ranks items + 1 →
      I (leftBy (Program.memberVars items p)) →
      I (leftBy (Program.pool c (Program.memberVars items) p)) := fun items hc hrank hm =>
    hI.pool hp hm fun p1 hnone h => by
      have hentered := memberVars_entered items (hI.sound hp) h
      refine ⟨findConstant_eq_none_of_rank hnone fun e he => ?_, fun x hx => ?_⟩
      · exact (hentered.added e he).imp_right fun hle => by omega
      · exact exists_found_of_memberVars (hI.sound hp) h (hc ▸ hx)
  cases c with
  | tuple items => exact hitems items rfl rfl (hI.memberVars items hp)
  | frozenset items => exact hitems items rfl rfl (hI.memberVars items hp)
  | _ => exact hplain rfl

theorem Steady.memberVars (hI : Steady I) (cs : List Constant) {p : Program} (hp : I p) :
    I (leftBy (Program.memberVars cs p)) := by
  cases cs with
  | nil => exact hp
  | cons c cs =>
    have hc := hI.constantVar c hp
    rcases leftBy_bind (discard (Program.constantVar c)) (fun _ => Program.memberVars cs) p with
      h | ⟨_, p1, hfirst, h⟩
    · rwa [Program.memberVars, h, leftBy_discard]
    · obtain ⟨i, hfirst, -⟩ := map_eq_ok.1 hfirst
      rw [hfirst] at hc
      rw [Program.memberVars, h]
      exact hI.memberVars cs hc

end

theorem Steady.afterRequests (hI : Steady I) (cs : List Constant) {p : Program} (hp : I p) :
    I (afterRequests cs p) := by
  induction cs generalizing p with
  | nil => exact hp
  | cons c cs ih => exact ih (hI.constantVar c hp)

theorem steady_ordered : Steady Ordered :=
  ⟨fun h => h.sound, fun type h hc hnone hmembers => h.withConstant hc hnone hmembers type⟩

/-- Nothing but constants, each with a variable, has been added to a program. -/
structure Pooled (p q : Program) : Prop where
  sound : q.Sound
  rest : q = { p with globals := q.globals, globalTable := q.globalTable, constants := q.constants }
  globals : p.globals.toList <+: q.globals.toList
  size : q.globalTable.size + p.constants.size = p.globalTable.size + q.constants.size

theorem Pooled.refl (hp : p.Sound) : p.Pooled p := ⟨hp, rfl, List.prefix_rfl, rfl⟩

theorem steady_pooled (p : Program) : Steady p.Pooled where
  sound h := h.sound
  withConstant {q c} type h _ _ _ := by
    refine ⟨(extends_withConstant c type h.sound).1, ?_, ?_, ?_⟩
    · simp only [Program.withConstant, withGlobal]
      rw [h.rest]
    · exact h.globals.trans (by simp [Program.withConstant, withGlobal])
    · have hsize := h.size
      simp only [Program.withConstant, withGlobal, Array.size_push]
      omega

end Program
end Lowering
