import Lowering.Proofs.Comprehension
import Lowering.Proofs.Flow

/-!
The loops of a comprehension. Where the items of a generator are used up, code goes on with the next item of the
generator before it, and behind the comprehension if there is none. Where a condition fails, it goes on with the next
item of the same generator.
-/
namespace Lowering.Lower

open Emit

set_option synthInstance.maxSize 10000000000000000000

variable {home : Home} {e : BlockRef} {s s' : State} {r : Recur} {p : Program} {f head : Nat}

/-- The block in hand ends, and code goes on from a new one. -/
@[reducible] def forward (close : BlockRef → Emit Unit) : Emit BlockRef := do
  let next ← createBlock
  close next
  setBlock next
  return next

@[reducible] def isExhausted (item : Term) : Emit Operand := do
  let zero ← null (← objectPtr)
  discard clearError
  eq item.value zero

/-- The conditions of a generator, one after the other. One that fails goes to the head of the loop, and one that holds
to where the next is tested, or to what follows. -/
inductive Guarded (r : Recur) (p : Program) (f head : Nat) : List Node → State → State → Prop
  | nil {s : State} : Guarded r p f head [] s s
  | cons {test : Node} {tests : List Node} {s s₁ s₂ s₃ s₄ s' : State} {t c : Term} {holds last : Nat} :
    createBlock none s = .ok ⟨f, holds⟩ s₁ → r.term test s₁ = .ok t s₂ → condition t.type t.value s₂ = .ok c s₃ →
    s₃.here.block = some ⟨f, last⟩ → p.successors ⟨f, last⟩ = [holds, head] →
    guardBy r ⟨f, head⟩ test s = .ok () s₄ → s₄.here.block = some ⟨f, holds⟩ → Guarded r p f head tests s₄ s' →
    Guarded r p f head (test :: tests) s s'

/-- The loop of a generator. Its iterable is evaluated before the head of the loop, where the next item is asked for. If
there is none, code goes to the outer block. -/
inductive Looped (r : Recur) (node : Node) (p : Program) (f outer head : Nat) (generator : Node) : State → State → Prop
  | mk {target iter ifs : Node} {tests : List Node} {source iterator item : Term} {none : Operand}
    {before test inside : Nat} {s s₁ s₂ s₃ s₄ s₅ s₆ s₇ s' : State} :
    generator.form = .comprehension target iter ifs → ifs.items? = some tests →
    r.term iter s = .ok source s₁ → callMethod "__iter__" source.value source.type .empty .empty .none s₁ = .ok iterator s₂ →
    forward branch s₂ = .ok ⟨f, head⟩ s₃ → s₂.here.block = some ⟨f, before⟩ → p.successors ⟨f, before⟩ = [head] →
    s₃.here.block = some ⟨f, head⟩ →
    callMethod "__next__" iterator.value iterator.type .empty .empty .none s₃ = .ok item s₄ → isExhausted item s₄ = .ok none s₅ →
    forward (condBranch none ⟨f, outer⟩) s₅ = .ok ⟨f, inside⟩ s₆ → s₅.here.block = some ⟨f, test⟩ →
    p.successors ⟨f, test⟩ = [outer, inside] → s₆.here.block = some ⟨f, inside⟩ →
    bindTarget r node target source.type item s₆ = .ok () s₇ → Guarded r p f head tests s₇ s' →
    Looped r node p f outer head generator s s'

/-- Loops inside each other, with the head of the innermost. -/
inductive Nested (r : Recur) (node : Node) (p : Program) (f : Nat) : Nat → List Node → State → Nat → State → Prop
  | nil {outer : Nat} {s : State} : Nested r node p f outer [] s outer s
  | cons {outer head inner : Nat} {generator : Node} {generators : List Node} {s s₁ s' : State} :
    Looped r node p f outer head generator s s₁ → Nested r node p f head generators s₁ inner s' →
    Nested r node p f outer (generator :: generators) s inner s'

theorem openLoop_eq_forward {r : Recur} {mark : Mark} {node target iter ifs : Node} {done : BlockRef} :
    openLoop r node ⟨mark, .comprehension target iter ifs⟩ done = (do
      let source ← r.term iter
      let iterator ← callMethod "__iter__" source.value source.type .empty .empty
      let head ← forward branch
      let item ← callMethod "__next__" iterator.value iterator.type .empty .empty
      let none ← isExhausted item
      let _ ← forward (condBranch none done)
      bindTarget r node target source.type item
      for test in ← each ifs do
        guardBy r head test
      return head) := by
  simp only [openLoop, Node.form, forward, isExhausted, bind_assoc, pure_bind]

theorem guardBy_eq_forward {otherwise : BlockRef} {test : Node} : guardBy r otherwise test = (do
      let _ ← forward fun holds => do
        let t ← r.term test
        let c ← condition t.type t.value
        condBranch c.value holds otherwise
      return ()) := by
  simp only [guardBy, forward, bind_assoc, pure_bind]
  rfl

section Runs

variable {look : Look} {fuel : Nat} {k : Token} {b c : Bool} {node : Node}

theorem forward_of_ok {close : BlockRef → Emit Unit} {j : Nat} {r : BlockRef} [∀ t, Grows (close t)]
    [∀ p t, Heeds (nearing home p e t) (close t)] (hs : s.Flows home e j) (h : forward close s = .ok r s') :
    ∃ next s1 s2, r = ⟨home.func, next⟩ ∧ createBlock none s = .ok ⟨home.func, next⟩ s1 ∧ s1.Flows home e j ∧
      s1.Nears home e ⟨home.func, next⟩ ∧ close ⟨home.func, next⟩ s1 = .ok () s2 ∧ s.program.width home.func ≤ next ∧
      s2.program.Grown s'.program ∧ s'.Flows home e next := by
  obtain ⟨_, s1, h1, h⟩ := bind_eq_ok.1 h
  obtain ⟨hs1, hnear, rfl⟩ := hs.createBlock h1
  obtain ⟨_, s2, h2, h⟩ := bind_eq_ok.1 h
  obtain ⟨_, s3, h3, h⟩ := bind_eq_ok.1 h
  obtain ⟨rfl, rfl⟩ := pure_eq_ok.1 h
  have hnear2 := hnear.of_ok h2
  exact ⟨_, s1, s2, rfl, h1, hs1, hnear, h2, Nat.le_refl _, (Grows.extends_of_ok h3 hnear2.sound).2, hnear2.setBlock h3⟩

theorem guarded_of_ok (hr : Sees look (recur fuel) (recurExpr fuel)) {tests : List Node} (hp : p.Sound)
    (hs : (drifting home e k b).Holds s) (hlook : tests.foldlM (look k) b = some c) (hhead : head < s.program.width home.func)
    (h : (forIn tests PUnit.unit fun test _ => do
      guardBy (recur fuel) ⟨home.func, head⟩ test
      pure (ForInStep.yield PUnit.unit) : Emit PUnit) s = .ok ⟨⟩ s') (hgrown : s'.program.Grown p) :
    (drifting home e k c).Holds s' ∧ Guarded (recur fuel) p home.func head tests s s' := by
  induction tests generalizing s b with
  | nil =>
    cases hlook
    obtain ⟨-, rfl⟩ := pure_eq_ok.1 h
    exact ⟨hs, .nil⟩
  | cons test tests ih =>
    obtain ⟨b1, htest, htests⟩ := Option.bind_eq_some_iff.1 hlook
    rw [List.forIn_cons] at h
    obtain ⟨_, s4, hguard, h⟩ := bind_eq_ok.1 h
    obtain ⟨_, _, hguard, hyield⟩ := bind_eq_ok.1 hguard
    obtain ⟨rfl, rfl⟩ := pure_eq_ok.1 hyield
    obtain ⟨⟨j, hj⟩, hidle⟩ := hs
    have hidle4 := ((hr.guardBy htest) _ hidle _ _).2 hguard
    have hforward := hguard
    rw [guardBy_eq_forward] at hforward
    obtain ⟨_, _, hforward, hdone⟩ := bind_eq_ok.1 hforward
    obtain ⟨-, rfl⟩ := pure_eq_ok.1 hdone
    obtain ⟨holds, s1, s2, -, h1, hj1, hnear, hclose, hfresh, hgrown2, hs4⟩ := forward_of_ok hj hforward
    have hs4' : (drifting home e k b1).Holds s4 := ⟨⟨holds, hs4⟩, hidle4⟩
    obtain ⟨hs', hguarded⟩ := ih hs4' htests (Nat.lt_trans (Nat.lt_of_lt_of_le hhead hfresh) hs4.lt_width) h
    obtain ⟨t, s5, h5, hclose⟩ := bind_eq_ok.1 hclose
    have hs5 := (hr.term htest).drifts ⟨⟨j, hj1⟩, holds_of_ok (R := idle k b) hidle h1⟩ h5
    obtain ⟨c', s6, h6, hclose⟩ := bind_eq_ok.1 hclose
    obtain ⟨⟨last, hlast⟩, -⟩ := holds_of_ok hs5 h6
    have hholds := ((hnear.of_ok h5).of_ok h6).lt_width
    have hgrown4 := (Grows.extends_of_ok h hs4.awaits.sound).2.trans hgrown
    have hedge := hlast.condBranch hholds (Nat.lt_trans (Nat.lt_of_lt_of_le hhead hfresh) hholds) hclose hp
      (hgrown2.trans hgrown4)
    exact ⟨hs', .cons h1 h5 h6 hlast.awaits.at_.here.2 hedge hguard hs4.awaits.at_.here.2 hguarded⟩

theorem looped_of_ok (hr : Sees look (recur fuel) (recurExpr fuel)) {generator : Node} {outer : Nat} {loop : BlockRef}
    (hp : p.Sound) (hs : (drifting home e k b).Holds s) (hlook : lookLoop look k b generator = some c)
    (houter : outer < s.program.width home.func)
    (h : openLoop (recur fuel) node generator ⟨home.func, outer⟩ s = .ok loop s') (hgrown : s'.program.Grown p) :
    (drifting home e k c).Holds s' ∧ ∃ head, loop = ⟨home.func, head⟩ ∧ head < s'.program.width home.func ∧
      Looped (recur fuel) node p home.func outer head generator s s' := by
  obtain ⟨mark, form⟩ := generator
  cases form with
  | comprehension target iter ifs =>
    obtain ⟨b1, hiter, hlook⟩ := Option.bind_eq_some_iff.1 hlook
    obtain ⟨b2, hbinding, hifs⟩ := Option.bind_eq_some_iff.1 hlook
    rw [openLoop_eq_forward] at h
    obtain ⟨source, s1, h1, h⟩ := bind_eq_ok.1 h
    have hs1 := (hr.term hiter).drifts hs h1
    obtain ⟨iterator, s2, h2, h⟩ := bind_eq_ok.1 h
    obtain ⟨⟨before, hbefore⟩, hidle2⟩ := holds_of_ok hs1 h2
    obtain ⟨_, s3, h3, h⟩ := bind_eq_ok.1 h
    obtain ⟨head, _, _, rfl, -, hbefore', hhead, hbranch, hfresh, hgrown3, hs3⟩ := forward_of_ok hbefore h3
    obtain ⟨item, s4, h4, h⟩ := bind_eq_ok.1 h
    obtain ⟨none, s5, h5, h⟩ := bind_eq_ok.1 h
    have hs4 : (drifting home e k b1).Holds s4 := holds_of_ok (R := drifting home e k b1)
      ⟨⟨head, hs3⟩, holds_of_ok (R := idle k b1) hidle2 h3⟩ h4
    obtain ⟨⟨test, htest⟩, hidle5⟩ := holds_of_ok hs4 h5
    obtain ⟨_, s6, h6, h⟩ := bind_eq_ok.1 h
    obtain ⟨inside, _, _, rfl, -, htest', hinside, hbranch6, hfresh6, hgrown6, hs6⟩ := forward_of_ok htest h6
    obtain ⟨_, s7, h7, h⟩ := bind_eq_ok.1 h
    have hs7 := (hr.bindTarget hbinding).drifts ⟨⟨inside, hs6⟩, holds_of_ok (R := idle k b1) hidle5 h6⟩ h7
    obtain ⟨tests, s8, h8, htests⟩ := bind_eq_ok.1 h
    obtain ⟨hitems, rfl⟩ := each_eq_ok.1 h8
    rw [lookEach, itemsOf, hitems] at hifs
    obtain ⟨_, s9, h9, hdone⟩ := bind_eq_ok.1 htests
    obtain ⟨rfl, rfl⟩ := pure_eq_ok.1 hdone
    have hw2 := Nat.le_trans (width_le (sound_of_drifting hs) h1 home.func) (width_le (sound_of_drifting hs1) h2 _)
    have hw5 := Nat.le_trans (width_le hs3.awaits.sound h4 home.func) (width_le (sound_of_drifting hs4) h5 _)
    have hw7 := width_le hs6.awaits.sound h7 home.func
    have hhead3 := hs3.lt_width
    have hinside6 := hs6.lt_width
    have hgrown7 := grown_of_ok (sound_of_drifting hs7) h9 hgrown
    have hgrown6' := grown_of_ok hs6.awaits.sound h7 hgrown7
    have hgrown3' := grown_of_ok hs3.awaits.sound h4 <| grown_of_ok (sound_of_drifting hs4) h5 <|
      grown_of_ok htest.awaits.sound h6 hgrown6'
    obtain ⟨hs', hguarded⟩ := guarded_of_ok hr hp hs7 hifs (by omega) h9 hgrown
    have hedge3 := hbefore'.branch hhead.lt_width hbranch hp (hgrown3.trans hgrown3')
    have hedge6 := htest'.condBranch (by have := hinside.lt_width; simp at this; omega) hinside.lt_width hbranch6 hp (hgrown6.trans hgrown6')
    refine ⟨hs', head, rfl, ?_, .mk rfl hitems h1 h2 h3 hbefore.awaits.at_.here.2 hedge3 hs3.awaits.at_.here.2 h4 h5 h6
      htest.awaits.at_.here.2 hedge6 hs6.awaits.at_.here.2 h7 hguarded⟩
    have hw := width_le (sound_of_drifting hs7) h9 home.func
    omega
  | _ => cases h

/-- The loops of the generators stand inside each other, the action in all of them, and the next item is asked of the
innermost after it. -/
theorem nested_of_ok (hr : Sees look (recur fuel) (recurExpr fuel)) {action : Emit Unit} [Grows action] {g : Node}
    {generators : List Node} {outer : Nat} (hp : p.Sound) (hs : (drifting home e k b).Holds s)
    (hlook : (g :: generators).foldlM (lookLoop look k) b = some c) (houter : outer < s.program.width home.func)
    (h : openLoops (recur fuel) node action (g :: generators) ⟨home.func, outer⟩ s = .ok () s')
    (hgrown : s'.program.Grown p) :
    ∃ inner s1 s2, Nested (recur fuel) node p home.func outer (g :: generators) s inner s1 ∧
      (drifting home e k c).Holds s1 ∧ inner < s1.program.width home.func ∧ action s1 = .ok () s2 ∧
      branch ⟨home.func, inner⟩ s2 = .ok () s' := by
  induction generators generalizing g outer s b with
  | nil =>
    obtain ⟨b1, hg, hdone⟩ := Option.bind_eq_some_iff.1 hlook
    cases hdone
    obtain ⟨loop, s1, h1, h⟩ := bind_eq_ok.1 h
    obtain ⟨_, s2, h2, h3⟩ := bind_eq_ok.1 h
    have hs1 : s1.program.Sound := (Grows.extends_of_ok h1 (sound_of_drifting hs)).1
    have hs2 : s2.program.Sound := (Grows.extends_of_ok h2 hs1).1
    have hgrown1 := grown_of_ok hs1 h2 (grown_of_ok hs2 h3 hgrown)
    obtain ⟨hdrift, head, rfl, hhead, hloop⟩ := looped_of_ok hr hp hs hg houter h1 hgrown1
    exact ⟨head, s1, s2, .cons hloop .nil, hdrift, hhead, h2, h3⟩
  | cons g' generators ih =>
    obtain ⟨b1, hg, hrest⟩ := Option.bind_eq_some_iff.1 hlook
    obtain ⟨loop, s1, h1, h⟩ := bind_eq_ok.1 h
    have hs1 : s1.program.Sound := (Grows.extends_of_ok h1 (sound_of_drifting hs)).1
    obtain ⟨hdrift, head, rfl, hhead, hloop⟩ := looped_of_ok hr hp hs hg houter h1 (grown_of_ok hs1 h hgrown)
    obtain ⟨inner, s2, s3, hnested, hrest⟩ := ih hdrift hrest hhead h
    exact ⟨inner, s2, s3, .cons hloop hnested, hrest⟩

end Runs

/-- A comprehension has something to start from, a way to add an element to it, and generators. -/
structure Comprehension where
  start : Emit Operand
  add : Operand → Emit Unit
  generators : Node

def comprehension? (r : Recur) (n : Node) : Option Comprehension :=
  match n.form with
  | .listComp elt generators => some ⟨do newList (← int64 0), fun list => do
      let t ← r.term elt
      let item ← box t.value t.type
      listAppend list item.type item.value, generators⟩
  | .setComp elt generators => some ⟨do newSet (← null (← objectPtr)), fun set => do
      let t ← r.term elt
      let item ← box t.value t.type
      discard (setAdd set item.value), generators⟩
  | .dictComp key value generators => some ⟨newDict, fun dict => do
      let k ← r.term key
      let v ← r.term value
      let k ← box k.value k.type
      let v ← box v.value v.type
      discard (dictSet dict k.value v.value), generators⟩
  | _ => none

theorem construct_comprehension {n : Node} {kind : Comprehension} (h : comprehension? r n = some kind) :
    construct r n = (do
      let container ← kind.start
      comprehend r n kind.generators (kind.add container)
      setLast ⟨some .python, container⟩) := by
  obtain ⟨mark, form⟩ := n
  cases form <;> cases h <;> simp only [construct, Node.form, listComp, setComp, dictComp, bind_assoc]

section Kinds

variable {look : Look} {fuel : Nat} {k : Token} {b c : Bool} {n : Node} {kind : Comprehension}

/-- Adding an element to a comprehension of any kind leaves an open block. -/
theorem comprehension_adds (home : Home) (e : BlockRef) (hr : Sees look (recur fuel) (recurExpr fuel))
    (hkind : comprehension? (recur fuel) n = some kind) (hlook : surveyExpr look k b n = some c) :
    Heeds (drifting home e k b) kind.start ∧ ∃ d, (itemsOf kind.generators).foldlM (lookLoop look k) b = some d ∧
      ∀ container, Grows (kind.add container) ∧ (∀ p t, Heeds (nearing home p e t) (kind.add container)) ∧
        ∀ {s s' : State}, (drifting home e k d).Holds s → kind.add container s = .ok () s' →
          (drifting home e k false).Holds s' := by
  obtain ⟨mark, form⟩ := n
  cases form <;> cases hkind
  case listComp elt generators =>
    obtain ⟨d, hloops, h⟩ := Option.bind_eq_some_iff.1 hlook
    obtain ⟨_, helt, -⟩ := Option.map_eq_some_iff.1 h
    exact ⟨inferInstance, d, hloops, fun list => ⟨inferInstance, fun _ _ => inferInstance, fun hs h =>
      (Accords.bind (hr.term helt) fun _ => .rest).drifts hs h⟩⟩
  case setComp elt generators =>
    obtain ⟨d, hloops, h⟩ := Option.bind_eq_some_iff.1 hlook
    obtain ⟨_, helt, -⟩ := Option.map_eq_some_iff.1 h
    exact ⟨inferInstance, d, hloops, fun set => ⟨inferInstance, fun _ _ => inferInstance, fun hs h =>
      (Accords.bind (hr.term helt) fun _ => .rest).drifts hs h⟩⟩
  case dictComp key value generators =>
    obtain ⟨d, hloops, h⟩ := Option.bind_eq_some_iff.1 hlook
    obtain ⟨_, hkey, h⟩ := Option.bind_eq_some_iff.1 h
    obtain ⟨_, hvalue, -⟩ := Option.map_eq_some_iff.1 h
    exact ⟨inferInstance, d, hloops, fun dict => ⟨inferInstance, fun _ _ => inferInstance, fun hs h =>
      (Accords.bind (hr.term hkey) fun _ => .bind (hr.term hvalue) fun _ => .rest).drifts hs h⟩⟩

/-- The items of the items of `x` that hold. -/
def itemsOfItems : Node :=
  .mk {} (.listComp (.mk {} (.name "z" (some .load))) (.group [
    .mk {} (.comprehension (.mk {} (.name "y" (some .store))) (.mk {} (.name "x" (some .load)))
      (.group [.mk {} (.name "y" (some .load))])),
    .mk {} (.comprehension (.mk {} (.name "z" (some .store))) (.mk {} (.name "y" (some .load))) (.group []))]))

theorem flows_begunState : ∃ home j, begunState.Flows home begunState.tree.entry j := by
  obtain ⟨_, s1, hrun⟩ := exists_of_completes (show completes (start 0 unaryState) = true by decide +kernel)
  have hleft : begunState = s1 := by rw [begunState, hrun]; rfl
  obtain ⟨f, cursor, -, m, -, -, -, -, hwithin, hsound, hat, hentry, -⟩ :=
    start_blocks (show unaryState.program.Sound from Compile.sound_ready) hrun
  have hopen : ((begunState.here.block.bind begunState.program.blockAt).map (·.needsEnd)) = some true := by decide +kernel
  rw [hleft] at hopen ⊢
  rw [hat.here.2] at hopen
  obtain ⟨b, hb, hend⟩ := Option.map_eq_some_iff.1 hopen
  have hopened : s1.program.OpenAt ⟨f, m + 1⟩ := ⟨b, hb, hend⟩
  exact ⟨⟨f, cursor⟩, m + 1, ⟨hsound, hat, hopened⟩, hwithin, rfl, Nat.lt_trans hentry (Nat.lt_of_succ_lt hopened.lt_width)⟩

end Kinds

end Lowering.Lower
