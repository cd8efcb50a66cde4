import Lowering.Proofs.Framing.Run
import Lowering.Proofs.OpenBlocks
import Lowering.Proofs.Twins.Companions
import Mathlib.Logic.Relation

/-!
Where a call with keyword arguments goes. The parameters are looked up one after the other, and each has a block
for when it is found. The block of the first parameter gets no code and is closed with the rest, so a function that
finds it returns nothing. The block of any other one is also where that parameter is looked up, so a function that
finds it looks it up again. Only where no parameter is found does the body follow.
-/
namespace Lowering

open Emit

set_option synthInstance.maxSize 100000000

variable {p q : Program} {s s' : State} {i f k m : Nat}

namespace Program

/-- Every path of written branches from a block of a function comes to another block. -/
inductive LeadsTo (p : Program) (f goal : Nat) : Nat → Prop
  | here : LeadsTo p f goal goal
  | step {k : Nat} (hends : p.successors ⟨f, k⟩ ≠ []) (h : ∀ j ∈ p.successors ⟨f, k⟩, LeadsTo p f goal j) :
      LeadsTo p f goal k

/-- A path of written branches goes from one block of a function to another. -/
def Reaches (p : Program) (f : Nat) : Nat → Nat → Prop :=
  Relation.ReflTransGen fun k j => j ∈ p.successors ⟨f, k⟩

/-- Where the goal is not reached from one of the successors, not every path leads to it. -/
theorem not_leadsTo {goal j : Nat} (hj : j ∈ p.successors ⟨f, k⟩) (hk : k ≠ goal) (hlost : ¬ p.Reaches f j goal) :
    ¬ p.LeadsTo f goal k := by
  have hstray : ∀ k, p.LeadsTo f goal k → ¬ p.Reaches f j k := by
    intro k h
    induction h with
    | here => exact hlost
    | step hends _ ih =>
      intro hreach
      obtain ⟨l, hl⟩ := List.exists_mem_of_ne_nil _ hends
      exact ih l hl (hreach.tail hl)
  rintro (- | ⟨-, h⟩)
  · exact hk rfl
  · exact hstray j (h j hj) .refl

end Program

/-- Where the lookup of parameters goes on when one is not found: at the next, if there is one. -/
def nextLookup (m n j : Nat) : Nat := if j < n then m + 2 + j else m + 1

/-- The second of the blocks goes on at the third if there are keyword arguments, and else at the fourth. -/
def TestsKeywords (p : Program) (f : Nat) (keywords : Operand) (k m : Nat) : Prop :=
  ∃ (b : Block) (type : MachineType) (null c : Nat), p.blockAt ⟨f, k⟩ = some b ∧
    .instr (.null type null) ∈ b.items ∧ .instr (.binary .ne (.id null) keywords c) ∈ b.items ∧
    b.terminator? = some (.condBranch (.id c) (m) (m + 1))

/-- The blocks in which a function looks its parameters up among the keyword arguments. It starts in the third. The
fourth is that of the body, and the others are those of the parameters. -/
structure KeywordBlocks (p : Program) (f : Nat) (keywords : Operand) (k m n : Nat) : Prop where
  tests : TestsKeywords p f keywords k m
  empty : n = 0 → p.successors ⟨f, m⟩ = [m + 1]
  head : 0 < n → p.successors ⟨f, m⟩ = [m + 2, nextLookup m n 1]
  later : ∀ j, 0 < j → j < n → p.successors ⟨f, m + 2 + j⟩ = [m + 2 + j, nextLookup m n (j + 1)]

/-- What a block holds stays in it. -/
theorem Program.Grown.mem_items (h : p.Grown q) {r : BlockRef} {b c : Block} {x : Item} (hb : p.blockAt r = some b)
    (hx : x ∈ b.items) (hc : q.blockAt r = some c) : x ∈ c.items := by
  obtain ⟨c', hc', hbc⟩ := h.exists_block hb
  cases hc'.symm.trans hc
  exact Array.mem_toList_iff.1 (hbc.items.subset (Array.mem_toList_iff.2 hx))

theorem TestsKeywords.mono {keywords : Operand} (hk : TestsKeywords p f keywords k m) (hp : p.Sound)
    (h : p.Grown q) : TestsKeywords q f keywords k m := by
  obtain ⟨b, type, null, c, hb, hnull, hne, hend⟩ := hk
  obtain ⟨b', hb', hend'⟩ := hp.terminator_mono h hb hend
  exact ⟨b', type, null, c, hb', h.mem_items hb hnull hb', h.mem_items hb hne hb', hend'⟩

theorem KeywordBlocks.mono {keywords : Operand} {n : Nat} (hk : KeywordBlocks p f keywords k m n) (hp : p.Sound)
    (hq : q.Sound) (h : p.Grown q) : KeywordBlocks q f keywords k m n where
  tests := hk.tests.mono hp h
  empty hn := hp.successors_mono hq h (hk.empty hn) (by simp)
  head hn := hp.successors_mono hq h (hk.head hn) (by simp)
  later j hj hn := hp.successors_mono hq h (hk.later j hj hn) (by simp)

theorem State.Awaits.assign_mem {mk : Nat → Instr} {v : Operand} (hs : s.Awaits i f k ⟨f, k⟩)
    (h : Emit.assign mk s = .ok v s') :
    ∃ (n : Nat) (b : Block), v = .id n ∧ s'.program.blockAt ⟨f, k⟩ = some b ∧ .instr (mk n) ∈ b.items := by
  obtain ⟨ref, g, href, -, hw, rfl, rfl⟩ := assign_eq_ok.1 h
  cases href.symm.trans hs.at_.here.2
  obtain ⟨b, hb, hend⟩ := hs.opened
  have hunlocked : b.locked = false := by rw [(hs.sound.shaped hb).locked, hend]; rfl
  rw [Program.block, hb] at hw
  refine ⟨g.nextValue, (b.push (mk g.nextValue)).1, rfl, ?_, ?_⟩
  · rw [State.withProgram, pushValue]
    refine (Program.blockAt_mapFunc _ _ (h := fun g => { g with nextValue := g.nextValue + 1 }) (fun _ => rfl) _).trans ?_
    rw [Program.blockAt_mapBlock, if_pos rfl, hb]
    rfl
  · rw [Block.push_of_unlocked hunlocked hw]
    exact Array.mem_push_self

theorem KeywordBlocks.reaches {keywords : Operand} {n : Nat} (hk : KeywordBlocks p f keywords k m n) :
    p.Reaches f m (m + 1) := by
  have hnext : ∀ l j, j + l = n → 0 < j → p.Reaches f (nextLookup m n j) (m + 1) := by
    intro l
    induction l with
    | zero =>
      intro j hj _
      rw [nextLookup, if_neg (by omega)]
      exact .refl
    | succ l ih =>
      intro j hj hpos
      have hstep := hk.later j hpos (by omega)
      rw [nextLookup, if_pos (by omega)]
      exact .head (by rw [hstep]; simp) (ih (j + 1) (by omega) (by omega))
  rcases Nat.eq_zero_or_pos n with hn | hn
  · exact .single (by rw [hk.empty hn]; simp)
  · exact .head (by rw [hk.head hn]; simp) (hnext (n - 1) 1 (by omega) (by omega))

theorem Program.OpenAt.lt_width {r : BlockRef} (hr : p.OpenAt r) : r.index < p.width r.func := by
  obtain ⟨g, hg, hlt⟩ := hr.exists_func
  rw [width, hg]
  exact hlt

theorem State.Awaits.added {label : Option String} {t : BlockRef} {j : Nat} (hs : s.Awaits i f k ⟨f, j⟩)
    (h : Emit.createBlock label s = .ok t s') : t = ⟨f, s.program.width f⟩ ∧
      s'.program.width f = s.program.width f + 1 ∧ s'.Awaits i f k ⟨f, s.program.width f⟩ ∧ s'.Awaits i f k ⟨f, j⟩ := by
  obtain ⟨g, hg, -⟩ := hs.opened.exists_func
  obtain ⟨ht, hg', -⟩ := createBlock_added hs.at_ hg h
  obtain ⟨hkept, n, htn, hn, -⟩ := hs.createBlock h
  have hwidth : s.program.width f = g.blocks.size := by rw [Program.width, hg]; rfl
  rw [← hwidth] at ht
  cases htn.symm.trans ht
  refine ⟨ht, ?_, hn, hkept⟩
  rw [hwidth, Program.width, hg']
  simp [Func.addBlock]

namespace Lower

theorem createBlocks_added {params : List Node} {changes : List (Node × BlockRef)} {j : Nat}
    (hs : s.Awaits i f k ⟨f, j⟩)
    (h : (params.mapM fun param => return (param, ← createBlock) : Emit _) s = .ok changes s') :
    changes.map (·.2) = (List.range' (s.program.width f) params.length).map (BlockRef.mk f) ∧
      s'.program.width f = s.program.width f + params.length ∧ s'.Awaits i f k ⟨f, j⟩ ∧
      ∀ l, l < params.length → s'.program.OpenAt ⟨f, s.program.width f + l⟩ := by
  induction params generalizing s changes j with
  | nil =>
    obtain ⟨rfl, rfl⟩ := pure_eq_ok.1 h
    exact ⟨rfl, rfl, hs, by simp⟩
  | cons param params ih =>
    rw [List.mapM_cons] at h
    obtain ⟨e, s1, h1, h⟩ := bind_eq_ok.1 h
    obtain ⟨t, s2, h2, hlast⟩ := bind_eq_ok.1 h1
    obtain ⟨rfl, rfl⟩ := pure_eq_ok.1 hlast
    obtain ⟨rfl, hwidth, hnew, hs1⟩ := hs.added h2
    obtain ⟨rest, s3, h3, h⟩ := bind_eq_ok.1 h
    obtain ⟨rfl, rfl⟩ := pure_eq_ok.1 h
    obtain ⟨hrest, hwidth3, hs3, hopen⟩ := ih hs1 h3
    obtain ⟨-, -, hnew3, -⟩ := ih hnew h3
    rw [hwidth] at hrest hwidth3 hopen
    refine ⟨?_, ?_, hs3, fun l hl => ?_⟩
    · rw [List.map_cons, hrest, List.length_cons, List.range'_succ, List.map_cons]
    · rw [hwidth3, List.length_cons]
      omega
    · cases l with
      | zero => exact hnew3.opened
      | succ l =>
        have hl' := hopen l (by simpa using hl)
        rwa [Nat.add_right_comm, Nat.add_assoc] at hl'

/-- Ending an open block with a condition gives it its successors and leaves the others open. -/
theorem condBranch_successors {c : Operand} {yes no : Nat} (hs : s.Awaits i f k ⟨f, k⟩)
    (hyes : yes < s.program.width f) (hno : no < s.program.width f) (h : condBranch c ⟨f, yes⟩ ⟨f, no⟩ s = .ok () s') :
    s'.program.successors ⟨f, k⟩ = [yes, no] ∧ s'.At i f k ∧ s'.program.Sound ∧
      ∀ j, j ≠ k → s.program.OpenAt ⟨f, j⟩ → s'.program.OpenAt ⟨f, j⟩ := by
  have hs' := (Grows.extends_of_ok h hs.sound).1
  have hends := condBranch_eq_ok.1 h
  obtain ⟨b, hb, hend⟩ := hs.opened
  refine ⟨?_, hends.at_ hs.at_, hs', fun j hj hopen => hends.openAt hs.at_ hopen (by simpa using hj)⟩
  rw [hends.successors_here hs.sound hs' rfl hs.at_.here.2 hb hend, Instr.targets, hs.sound.block_id hyes,
    hs.sound.block_id hno]

/-- Each parameter is looked up in the block in hand, which ends there: one that is found goes to its own block, and
one that is not to the next, in which the next parameter is looked up. -/
theorem lookUpKeywords_successors {keywords zero : Operand} {after stop : Nat} {changes : List (Node × BlockRef)}
    (hs : s.Awaits i f k ⟨f, k⟩) (hk : k ≤ m) (hstop : stop = m + changes.length) (hafter : after < s.program.width f)
    (hwidth : stop ≤ s.program.width f)
    (hchanges : changes.map (·.2) = (List.range' m changes.length).map (BlockRef.mk f))
    (hopen : ∀ j, m < j → j < stop → s.program.OpenAt ⟨f, j⟩)
    (h : lookUpKeywords keywords zero ⟨f, after⟩ changes s = .ok () s') :
    (m < stop → s'.program.successors ⟨f, k⟩ = [m, if m + 1 < stop then m + 1 else after]) ∧
      (∀ j, m < j → j < stop → s'.program.successors ⟨f, j⟩ = [j, if j + 1 < stop then j + 1 else after]) ∧
      (∃ k', s'.At i f k' ∧ (k' = k ∨ m < k')) ∧
      ∀ r, r ≠ k → r ≤ m → s.program.OpenAt ⟨f, r⟩ → s'.program.OpenAt ⟨f, r⟩ := by
  induction changes generalizing s k m with
  | nil =>
    obtain ⟨-, rfl⟩ := pure_eq_ok.1 h
    rw [List.length_nil] at hstop
    exact ⟨fun _ => by omega, fun _ _ _ => by omega, ⟨k, hs.at_, .inl rfl⟩, fun _ _ _ hr => hr⟩
  | cons e rest ih =>
    obtain ⟨param, change⟩ := e
    rw [List.map_cons, List.length_cons, List.range'_succ, List.map_cons, List.cons_eq_cons] at hchanges
    obtain ⟨rfl, hrest⟩ := hchanges
    rw [List.length_cons] at hstop
    rw [lookUpKeywords] at h
    obtain ⟨name, s1, h1, h⟩ := bind_eq_ok.1 h
    obtain ⟨text, s2, h2, h⟩ := bind_eq_ok.1 h
    obtain ⟨found, s3, h3, h⟩ := bind_eq_ok.1 h
    obtain ⟨there, s4, h4, h⟩ := bind_eq_ok.1 h
    have hkeep : ∀ r, s.program.OpenAt r → s4.Awaits i f k r := by
      intro r hr
      have hs1 : s1.Awaits i f k r := Preserves.of_ok ⟨hs.sound, hs.at_, hr⟩ h1
      have hs2 : s2.Awaits i f k r := Preserves.of_ok hs1 h2
      have hs3 : s3.Awaits i f k r := Preserves.of_ok hs2 h3
      exact Preserves.of_ok hs3 h4
    have hwidth4 : s.program.width f ≤ s4.program.width f := by
      obtain ⟨hs1, hgrown1⟩ := Grows.extends_of_ok h1 hs.sound
      obtain ⟨hs2, hgrown2⟩ := Grows.extends_of_ok h2 hs1
      obtain ⟨hs3, hgrown3⟩ := Grows.extends_of_ok h3 hs2
      exact (hgrown1.trans (hgrown2.trans (hgrown3.trans (Grows.extends_of_ok h4 hs3).2))).width_le f
    cases rest with
    | nil =>
      rw [List.length_nil] at hstop
      obtain ⟨_, s5, h5, h⟩ := bind_eq_ok.1 h
      obtain ⟨-, rfl⟩ := pure_eq_ok.1 h
      obtain ⟨hsucc, hat, -, hothers⟩ := condBranch_successors (hkeep _ hs.opened) (by omega) (by omega) h5
      refine ⟨fun _ => ?_, fun j hj hlt => by omega, ⟨k, hat, .inl rfl⟩, fun r hr _ hro => hothers r hr (hkeep _ hro).opened⟩
      rw [hsucc, if_neg (by omega)]
    | cons next rest =>
      obtain ⟨param', change'⟩ := next
      rw [List.map_cons, List.length_cons, List.range'_succ, List.map_cons, List.cons_eq_cons] at hrest
      obtain ⟨rfl, hrest⟩ := hrest
      rw [List.length_cons] at hstop
      obtain ⟨_, s5, h5, h⟩ := bind_eq_ok.1 h
      obtain ⟨_, s6, h6, h⟩ := bind_eq_ok.1 h
      obtain ⟨hsucc, hat5, hs5, hothers⟩ := condBranch_successors (hkeep _ hs.opened) (by omega) (by omega) h5
      have hopen6 : ∀ j, j ≠ k → s.program.OpenAt ⟨f, j⟩ → s6.Awaits i f (m + 1) ⟨f, j⟩ := fun j hj hjo =>
        State.Awaits.setBlock ⟨hs5, hat5, hothers j hj (hkeep _ hjo).opened⟩ h6
      have hs6 := hopen6 (m + 1) (by omega) (hopen (m + 1) (by omega) (by omega))
      obtain ⟨-, hgrown5⟩ := Grows.extends_of_ok h5 (hkeep _ hs.opened).sound
      obtain ⟨-, hgrown6⟩ := Grows.extends_of_ok h6 hs5
      have hwidth6 := Nat.le_trans hwidth4 ((hgrown5.trans hgrown6).width_le f)
      obtain ⟨hs', hgrown'⟩ := Grows.extends_of_ok h hs6.sound
      obtain ⟨hfirst, hlater, ⟨k', hat', hk'⟩, hothers'⟩ := ih hs6 (Nat.le_refl _) (by rw [List.length_cons]; omega)
        (by omega) (by omega) (by rw [List.length_cons, List.range'_succ, List.map_cons, List.map_cons, hrest])
        (fun j hj hlt => (hopen6 j (by omega) (hopen j (by omega) hlt)).opened) h
      refine ⟨fun _ => ?_, fun j hj hlt => ?_, ⟨k', hat', .inr (by omega)⟩, fun r hr hrm hro => ?_⟩
      · rw [if_pos (by omega)]
        exact hs5.successors_mono hs' (hgrown6.trans hgrown') hsucc (by simp)
      · by_cases hjm : j = m + 1
        · rw [hjm]
          exact hfirst (by omega)
        · exact hlater j (by omega) hlt
      · exact hothers' r (by omega) (by omega) (hopen6 r hr hro).opened

/-- The block in hand ends with whether there are keyword arguments. -/
theorem testsKeywords_of_ok {keywords zero there : Operand} {type : MachineType} {s1 s2 s3 : State}
    (hs : s.Awaits i f k ⟨f, k⟩) (hwidth : m + 1 < s.program.width f)
    (h1 : objectPtr s = .ok type s1) (h2 : null type s1 = .ok zero s2) (h3 : ne zero keywords s2 = .ok there s3)
    (h : condBranch there ⟨f, m⟩ ⟨f, m + 1⟩ s3 = .ok () s') :
    TestsKeywords s'.program f keywords k m ∧ ∀ j, j ≠ k → s.program.OpenAt ⟨f, j⟩ → s'.Awaits i f k ⟨f, j⟩ := by
  have hkeep : ∀ j, s.program.OpenAt ⟨f, j⟩ → s3.Awaits i f k ⟨f, j⟩ := by
    intro j hj
    have hj1 : s1.Awaits i f k ⟨f, j⟩ := Preserves.of_ok ⟨hs.sound, hs.at_, hj⟩ h1
    have hj2 : s2.Awaits i f k ⟨f, j⟩ := Preserves.of_ok hj1 h2
    exact Preserves.of_ok hj2 h3
  have hs1 : s1.Awaits i f k ⟨f, k⟩ := Preserves.of_ok hs h1
  have hs2 : s2.Awaits i f k ⟨f, k⟩ := Preserves.of_ok hs1 h2
  have hs3 := hkeep k hs.opened
  have hgrown1 := (Grows.extends_of_ok h1 hs.sound).2
  have hgrown2 := (Grows.extends_of_ok h2 hs1.sound).2
  have hgrown3 := (Grows.extends_of_ok h3 hs2.sound).2
  have hgrown := (Grows.extends_of_ok h hs3.sound).2
  have hwidth3 := (hgrown1.trans (hgrown2.trans hgrown3)).width_le f
  obtain ⟨n, b2, rfl, hb2, hnull⟩ := hs1.assign_mem h2
  obtain ⟨c, b3, rfl, hb3, hne⟩ := hs2.assign_mem h3
  obtain ⟨b, hb, hend⟩ := hs3.opened
  obtain ⟨b', hb', hlast⟩ := (condBranch_eq_ok.1 h).terminator_here hs3.sound rfl hs3.at_.here.2 hb hend
  rw [hs3.sound.block_id (by dsimp only; omega), hs3.sound.block_id (by dsimp only; omega)] at hlast
  refine ⟨⟨b', type, n, c, hb', (hgrown3.trans hgrown).mem_items hb2 hnull hb', hgrown.mem_items hb3 hne hb', hlast⟩, ?_⟩
  exact fun j hj hopen => (hkeep j hopen).condBranch h (by simpa using hj)

/-- The blocks are there when the parameters have been looked up. Code goes on in the block of the body, which is open,
and the block of the first parameter is still open. -/
theorem matchKeywords_blocks {keywords : Operand} {params : List Node}
    (hs : s.Awaits i f k ⟨f, k⟩) (hm : s.program.width f = m) (h : matchKeywords keywords params s = .ok () s') :
    KeywordBlocks s'.program f keywords k m params.length ∧ s'.At i f (m + 1) ∧ s'.program.OpenAt ⟨f, m + 1⟩ ∧
      (0 < params.length → s'.program.OpenAt ⟨f, m + 2⟩) := by
  have hs' := (Grows.extends_of_ok h hs.sound).1
  have hkm : k < m := hm ▸ hs.opened.lt_width
  obtain ⟨_, s1, h1, h⟩ := bind_eq_ok.1 h
  obtain ⟨rfl, hwidth1, hsome1, hs1⟩ := hs.added h1
  obtain ⟨_, s2, h2, h⟩ := bind_eq_ok.1 h
  obtain ⟨rfl, hwidth2, hafter2, hs2⟩ := hs1.added h2
  obtain ⟨-, -, -, hsome2⟩ := hsome1.added h2
  obtain ⟨changes, s3, h3, h⟩ := bind_eq_ok.1 h
  obtain ⟨hchanges, hwidth3, hs3, hopen3⟩ := createBlocks_added hs2 h3
  obtain ⟨-, -, hsome3, -⟩ := createBlocks_added hsome2 h3
  obtain ⟨-, -, hafter3, -⟩ := createBlocks_added hafter2 h3
  rw [hm] at hwidth1 hsome3
  rw [hwidth1] at hwidth2 hafter3
  rw [hwidth2] at hwidth3 hchanges hopen3
  have hlength : changes.length = params.length := by simpa using congrArg List.length hchanges
  have hnew3 : ∀ j, m ≤ j → j ≤ m + 1 + params.length → s3.program.OpenAt ⟨f, j⟩ := by
    intro j hle hlt
    obtain rfl | rfl | ⟨l, rfl⟩ : j = m ∨ j = m + 1 ∨ ∃ l, j = m + 1 + 1 + l := by
      by_cases hj : m + 2 ≤ j
      · exact .inr (.inr ⟨j - (m + 2), by omega⟩)
      · omega
    · exact hsome3.opened
    · exact hafter3.opened
    · exact hopen3 l (by omega)
  obtain ⟨type, s4, h4, h⟩ := bind_eq_ok.1 h
  obtain ⟨zero, s5, h5, h⟩ := bind_eq_ok.1 h
  obtain ⟨there, s6, h6, h⟩ := bind_eq_ok.1 h
  obtain ⟨_, s7, h7, h⟩ := bind_eq_ok.1 h
  rw [hm, hwidth1] at h7
  obtain ⟨htests, hopen7⟩ := testsKeywords_of_ok hs3 (by omega) h4 h5 h6 h7
  have hs7 := (hopen7 (m) (by omega) hsome3.opened).sound
  obtain ⟨-, hgrown7⟩ := Grows.extends_of_ok h hs7
  obtain ⟨_, s8, h8, h⟩ := bind_eq_ok.1 h
  obtain ⟨_, s9, h9, h⟩ := bind_eq_ok.1 h
  obtain ⟨_, s10, h10, h⟩ := bind_eq_ok.1 h
  obtain ⟨_, s11, h11, h⟩ := bind_eq_ok.1 h
  obtain ⟨_, s12, h12, h⟩ := bind_eq_ok.1 h
  obtain ⟨_, s13, h13, h⟩ := bind_eq_ok.1 h
  rw [hm] at h8
  have hnew : ∀ j, m ≤ j → j ≤ m + 1 + params.length → s13.Awaits i f (m) ⟨f, j⟩ := by
    intro j hle hlt
    have hj8 := (hopen7 j (by omega) (hnew3 j hle hlt)).setBlock h8
    have hj9 : s9.Awaits i f (m) ⟨f, j⟩ := Preserves.of_ok hj8 h9
    have hj10 : s10.Awaits i f (m) ⟨f, j⟩ := Preserves.of_ok hj9 h10
    have hj11 : s11.Awaits i f (m) ⟨f, j⟩ := Preserves.of_ok hj10 h11
    have hj12 : s12.Awaits i f (m) ⟨f, j⟩ := Preserves.of_ok hj11 h12
    exact Preserves.of_ok hj12 h13
  have hs13 := hnew (m) (by omega) (by omega)
  have hwidth13 : m + 1 + params.length < s13.program.width f :=
    (hnew (m + 1 + params.length) (by omega) (by omega)).opened.lt_width
  obtain ⟨_, s14, h14, h⟩ := bind_eq_ok.1 h
  rw [hwidth1] at h14
  have hs14 := (Grows.extends_of_ok h14 hs13.sound).1
  obtain ⟨hhead, hlater, ⟨k', hat14, hk'⟩, hothers⟩ := lookUpKeywords_successors (m := m + 2) hs13 (by omega) rfl
    (by omega) (by omega) (by rw [hlength]; exact hchanges)
    (fun j hj hlt => (hnew j (by omega) (by omega)).opened) h14
  rw [hlength] at hhead hlater
  obtain ⟨-, hgrown14⟩ := Grows.extends_of_ok h hs14
  obtain ⟨_, s15, h15, h⟩ := bind_eq_ok.1 h
  rw [hwidth1] at h15 h
  have hends := (branch_eq_ok.1 h15).2
  obtain ⟨hs15, -⟩ := Grows.extends_of_ok h15 hs14
  obtain ⟨-, hgrown15⟩ := Grows.extends_of_ok h hs15
  have hnext : ∀ j, (if m + 2 + j + 1 < m + 2 + params.length then m + 2 + j + 1 else m + 1) =
      nextLookup m params.length (j + 1) := by
    intro j
    rw [nextLookup]
    split <;> split <;> omega
  -- What is looked up in is one of the blocks of the parameters, or the block where the lookup starts.
  have hopen : ∀ j, m < j → j < m + 3 → j < m + 2 + params.length → s'.program.OpenAt ⟨f, j⟩ := by
    intro j hj hle hlt
    have hopen14 := hothers j (by omega) (by omega) (hnew j (by omega) (by omega)).opened
    have hopen15 := hends.openAt hat14 hopen14 (by simp; omega)
    rw [moveTo_eq_ok.1 h]
    exact hopen15
  refine ⟨⟨htests.mono hs7 hgrown7, fun hn => ?_, fun hn => ?_, fun j hj hlt => ?_⟩,
    at_setBlock_of_at (hends.at_ hat14) h, hopen _ (by omega) (by omega) (by omega),
    fun hn => hopen _ (by omega) (by omega) (by omega)⟩
  · rw [hn] at hlength
    rw [List.length_eq_zero_iff.1 hlength] at h14
    obtain ⟨-, rfl⟩ := pure_eq_ok.1 h14
    obtain ⟨b, hb, hend⟩ := hs13.opened
    refine hs15.successors_mono hs' hgrown15 ?_ (by simp)
    rw [hends.successors_here hs13.sound hs15 rfl hs13.at_.here.2 hb hend, Instr.targets,
      hs13.sound.block_id (by dsimp only; omega)]
  · rw [← hnext 0]
    exact hs14.successors_mono hs' hgrown14 (hhead (by omega)) (by simp)
  · rw [← hnext j]
    exact hs14.successors_mono hs' hgrown14 (hlater (m + 2 + j) (by omega) (by omega)) (by simp)

instance (keywords : Operand) (params : List Node) : Preserves (State.Writing i f) (matchKeywords keywords params) :=
  heeds_lasting <| by
    rintro s s' u ⟨k, hs⟩ h
    obtain ⟨-, hat, hopen, -⟩ := matchKeywords_blocks hs rfl h
    exact ⟨_, (Grows.extends_of_ok h hs.sound).1, hat, hopen⟩

instance (n : Nat) : Preserves (State.Writing i f) (bindParameters n) := by
  unfold bindParameters
  infer_instance

end Lower

/-- A block is left open: code goes to others. -/
def sparing (r : BlockRef) : Regime where
  Holds s := s.lowerer = .tree ∧ s.tree.entry ≠ r ∧ s.program.OpenAt r ∧
    ∃ c : Cursor, s.program.cursors[s.cursor]? = some c ∧ c.block ≠ some r
  Room t := t ≠ r
  Loose _ := True

instance (r : BlockRef) : (sparing r).Basic where
  lowerer hs := hs.1
  entry hs := hs.2.1
  stands := by
    rintro s t ⟨-, -, -, c, hc, hblock⟩ ht rfl
    rw [State.here, hc] at ht
    exact hblock ht
  adds := by
    rintro s q ⟨hlowerer, hentry, ⟨b, hb, hend⟩, c, hc, hblock⟩ h
    obtain ⟨g, hg, hgb⟩ := Option.bind_eq_some_iff.1 hb
    have hopen : q.OpenAt r := ⟨b, by rw [Program.blockAt, Program.getElem?_mono h.funcs hg]; exact hgb, hend⟩
    exact ⟨hlowerer, hentry, hopen, c, Program.getElem?_mono h.cursors hc, hblock⟩
  mapBlock := by
    rintro s t g ⟨hlowerer, hentry, hopen, hstands⟩ ht
    exact ⟨hlowerer, hentry, hopen.mapBlock fun h => absurd h ht, hstands⟩
  counted := by
    rintro s ⟨hlowerer, hentry, hopen, hstands⟩
    exact ⟨hlowerer, hentry, hopen.mapFunc fun _ _ _ hb => hb, hstands⟩
  addBlock := by
    rintro s label ⟨hlowerer, hentry, hopen, hstands⟩
    refine ⟨⟨hlowerer, hentry, hopen.addBlock, hstands⟩, ?_⟩
    obtain ⟨g, hg, hlt⟩ := hopen.exists_func
    rintro rfl
    rw [hg] at hlt
    exact Nat.lt_irrefl _ hlt
  moveTo := by
    rintro s ref ⟨hlowerer, hentry, hopen, c, hc, -⟩ href
    refine ⟨hlowerer, hentry, hopen, { c with block := ref }, ?_, fun h => href r h rfl⟩
    change (s.program.cursors.modify s.cursor _)[s.cursor]? = _
    rw [Array.getElem?_modify, if_pos rfl, hc]
    rfl
  beside := by
    rintro s t ⟨hlowerer, hentry, hopen, hstands⟩ hprogram hcursor hlowerer' hentry' - - - - -
    exact ⟨hlowerer'.trans hlowerer, hentry' ▸ hentry, hprogram ▸ hopen, by rw [hprogram, hcursor]; exact hstands⟩
  addVariable _ _ hs := ⟨hs, trivial⟩
  setSlot _ hs _ := hs
  setUsed _ _ hs := hs

/-- The lowering of a tree keeps its entry block. -/
def rooted (entry : BlockRef) : Regime where
  Holds s := s.lowerer = .tree ∧ s.tree.entry = entry
  Room _ := True
  Loose _ := True

instance (entry : BlockRef) : (rooted entry).Lax := ⟨fun _ => trivial⟩

instance (entry : BlockRef) : (rooted entry).Basic where
  lowerer hs := hs.1
  __ := Regime.Writes.of_blind (R := rooted entry) (fun _ => trivial) fun _ hs => hs
  beside hs _ _ hlowerer hentry _ _ _ _ _ := ⟨hlowerer.trans hs.1, hentry.trans hs.2⟩
  addVariable _ _ hs := ⟨hs, trivial⟩
  setSlot _ hs _ := hs
  setUsed _ _ hs := hs

namespace Lower

open Twins (parametersOf keywordsOf bindParameters_eq_ok)

theorem Opened.within {g : Func} {t : State} (ho : Opened i f g s t) (hlowerer : t.lowerer = .tree)
    (htree : t.tree.impl = i ∧ t.tree.entry.func = f) : t.Within ⟨f, g.cursor⟩ where
  lowerer := hlowerer
  cursor := ho.cursor
  entry := htree.2
  code := by
    obtain ⟨m, hm⟩ := ho.exists_impl
    rw [htree.1, ho.impls, Array.getElem?_modify, if_pos rfl, hm]
    rfl
  func := ⟨_, ho.home, rfl⟩
  place := by
    obtain ⟨c, hc, hfunc, hblock⟩ := ho.stands
    refine ⟨c, hc, hfunc, fun r hr => ?_⟩
    rw [hblock] at hr
    rw [← Option.some.inj hr]

/-- What is known when the body of a function is about to be lowered. -/
theorem start_blocks (hs : s.program.Sound) (h : start i s = .ok () s') :
    ∃ f cursor k m d params, (s.impls[i]?.getD default).parent = some d ∧
      parametersOf (s.definitions[d]?.getD default).node = some params ∧ s'.Within ⟨f, cursor⟩ ∧ s'.program.Sound ∧
      s'.At cursor f (m + 1) ∧ s'.tree.entry.index < m ∧
      KeywordBlocks s'.program f (keywordsOf (s.impls[i]?.getD default).convention) k m params.length ∧
      (0 < params.length → s'.program.OpenAt ⟨f, m + 2⟩) := by
  obtain ⟨f, g, t, ho, hlowerer, htree, hbind⟩ := start_eq_ok hs h
  obtain ⟨-, -, d, -, -, hparent, -⟩ := ho.named
  have hwithin := ho.within hlowerer (by rw [htree]; exact ⟨rfl, rfl⟩)
  have hentry : (rooted ⟨f, g.blocks.size⟩).Holds t := ⟨hlowerer, by rw [htree]⟩
  have hs' := (Grows.extends_of_ok hbind ho.sound).1
  have hwithin' := (holds_of_ok (R := framing ⟨f, g.cursor⟩ t.program) ⟨hwithin, .refl _ _⟩ hbind).1
  have hentry' := (holds_of_ok hentry hbind).2
  obtain ⟨params, t1, hparams, hargs, hmatch⟩ := (bindParameters_eq_ok (ho.parent.trans hparent) ho.convention).1 hbind
  have ht1 : t1.Awaits g.cursor f (g.blocks.size + 1) ⟨f, g.blocks.size + 1⟩ := Preserves.of_ok ho.awaits hargs
  obtain ⟨hblocks, hat, -, hopen⟩ := matchKeywords_blocks ht1 rfl hmatch
  have hlt := ht1.opened.lt_width
  rw [ho.definitions] at hparams
  exact ⟨f, g.cursor, g.blocks.size + 1, _, d, params, hparent, hparams, hwithin', hs', hat,
    by rw [hentry']; exact Nat.lt_of_succ_lt hlt, hblocks, hopen⟩

/-- A block that is open when the blocks of a function are closed leads only to blocks that are added then. -/
theorem not_reaches_of_closed {d goal : Nat} (hs : s.program.Sound) (hopen : s.program.OpenAt ⟨f, d⟩)
    (honward : Program.Onward f s.program s'.program) (hgoal : goal < s.program.width f) (hd : d ≠ goal) :
    ¬ s'.program.Reaches f d goal := by
  have hreach : ∀ j, s'.program.Reaches f d j → j = d ∨ s.program.width f ≤ j := by
    intro j h
    induction h with
    | refl => exact .inl rfl
    | @tail k j _ hj hk =>
      have hnone : s.program.successors ⟨f, k⟩ = [] := by
        obtain rfl | hk := hk
        · obtain ⟨b, hb, hend⟩ := hopen
          exact hs.successors_of_needsEnd hb hend
        · exact Program.successors_of_width_le hk
      obtain hsame | hlate := honward ⟨f, k⟩
      · rw [hsame, hnone] at hj
        cases hj
      · exact .inr (hlate j hj)
  intro h
  obtain h | h := hreach goal h
  · exact hd h.symm
  · omega

/-- Between the start of a lowering and the closing of the blocks, code goes to no block of the keyword arguments. -/
theorem openAt_lowered {cursor d : Nat} {n : Node} {s1 s2 s3 : State} (hwithin : s.Within ⟨f, cursor⟩)
    (hat : s.At cursor f k) (hentry : s.tree.entry.index ≠ d) (hk : k ≠ d) (hopen : s.program.OpenAt ⟨f, d⟩)
    (hvisit : visit n s = .ok () s1) (hset : setBlock s1.tree.entry s1 = .ok () s2)
    (hbranch : branch s1.tree.content s2 = .ok () s3) : s3.Within ⟨f, cursor⟩ ∧ s3.program.OpenAt ⟨f, d⟩ := by
  obtain ⟨c, hc, -, hblock⟩ := hat.stands
  have hspare : (sparing ⟨f, d⟩).Holds s := by
    refine ⟨hwithin.lowerer, fun h => hentry (by rw [h]), hopen, c, ?_, ?_⟩
    · rw [hat.cursor]
      exact hc
    · rw [hblock]
      simpa using hk
  have hframe : (framing ⟨f, cursor⟩ s.program).Holds s := ⟨hwithin, .refl _ _⟩
  have hspare1 := holds_of_ok hspare hvisit
  have hframe1 := holds_of_ok hframe hvisit
  have hroom : Inside (sparing ⟨f, d⟩) s1.tree.entry := ⟨hspare1.2.1⟩
  have hroom' : Inside (framing ⟨f, cursor⟩ s.program) s1.tree.entry := ⟨hframe1.1.entry⟩
  exact ⟨(holds_of_ok (holds_of_ok hframe1 hset) hbranch).1, (holds_of_ok (holds_of_ok hspare1 hset) hbranch).2.2.1⟩

/-- The blocks of a function that are written for its keyword arguments. A call with keyword arguments reaches the
body where no parameter is found, but nowhere where the first is, so every path leads there just if there are no
parameters. -/
theorem keywords_lead_to_body (hs : s.program.Sound) (h : lowerImpl i s = .ok () s') :
    ∃ s₁ f k m d params, start i s = .ok () s₁ ∧ s₁.here.block = some ⟨f, m + 1⟩ ∧
      (s.impls[i]?.getD default).parent = some d ∧ parametersOf (s.definitions[d]?.getD default).node = some params ∧
      KeywordBlocks s'.program f (keywordsOf (s.impls[i]?.getD default).convention) k m params.length ∧
      s'.program.Reaches f m (m + 1) ∧ (params ≠ [] → ¬ s'.program.Reaches f (m + 2) (m + 1)) ∧
      (s'.program.LeadsTo f (m + 1) m ↔ params = []) := by
  obtain ⟨s₁, s₂, s₃, s₄, _, hstart, -, hvisit, hset, hbranch, hclose⟩ := lowerImpl_eq_ok.1 h
  obtain ⟨f, cursor, k, m, d, params, hparent, hparams, hwithin, hs₁, hat, hentry, hblocks, hopen⟩ :=
    start_blocks hs hstart
  obtain ⟨hs₂, hgrown₂⟩ := Grows.extends_of_ok hvisit hs₁
  obtain ⟨hs₃, hgrown₃⟩ := Grows.extends_of_ok hset hs₂
  obtain ⟨hs₄, hgrown₄⟩ := Grows.extends_of_ok hbranch hs₃
  obtain ⟨hs', hgrown'⟩ := Grows.extends_of_ok hclose hs₄
  have hblocks' := hblocks.mono hs₁ hs' (hgrown₂.trans (hgrown₃.trans (hgrown₄.trans hgrown')))
  have hlost : params ≠ [] → ¬ s'.program.Reaches f (m + 2) (m + 1) := by
    intro hne
    obtain ⟨hwithin₄, hopen₄⟩ := openAt_lowered hwithin hat (by omega) (by omega) (hopen (List.length_pos_iff.2 hne))
      hvisit hset hbranch
    obtain ⟨g, hg, hcursor⟩ := hwithin₄.func
    have hm : currentImpl s₄ = .ok s₄.tree.impl s₄ := by
      rw [currentImpl, get_bind_run, hwithin₄.lowerer]
      rfl
    obtain ⟨-, -, honward⟩ := closeBlocks_closed hs₄ hm hwithin₄.code hg (hwithin₄.cursor.trans hcursor.symm) hclose
    have hlt : m + 2 < s₄.program.width f := hopen₄.lt_width
    exact not_reaches_of_closed hs₄ hopen₄ honward (by omega) (by omega)
  refine ⟨s₁, f, k, m, d, params, hstart, hat.here.2, hparent, hparams, hblocks', hblocks'.reaches, hlost, ?_⟩
  constructor
  · intro hleads
    by_contra hne
    have hpos := List.length_pos_iff.2 hne
    exact Program.not_leadsTo (by rw [hblocks'.head hpos]; simp) (by omega) (hlost hne) hleads
  · rintro rfl
    have hempty := hblocks'.empty rfl
    exact .step (by rw [hempty]; simp) fun j hj => by
      rw [hempty, List.mem_singleton] at hj
      rw [hj]
      exact .here

/-- A function of one parameter does not get to its body when it is called with that parameter as a keyword. -/
theorem unaryState_keywords : unaryState.program.Sound ∧ ∃ s' s₁ f k m, lowerImpl 0 unaryState = .ok () s' ∧
    start 0 unaryState = .ok () s₁ ∧ s₁.here.block = some ⟨f, m + 1⟩ ∧ KeywordBlocks s'.program f 2 k m 1 ∧
    s'.program.Reaches f m (m + 1) ∧ ¬ s'.program.Reaches f (m + 2) (m + 1) ∧ ¬ s'.program.LeadsTo f (m + 1) m := by
  have hsound : unaryState.program.Sound := Compile.sound_ready
  obtain ⟨_, s', hrun⟩ := exists_of_completes (show completes (lowerImpl 0 unaryState) = true by decide +kernel)
  obtain ⟨s₁, f, k, m, d, params, hstart, hhere, hparent, hparams, hblocks, hreach, hlost, hleads⟩ :=
    keywords_lead_to_body hsound hrun
  have hparent' : (unaryState.impls[0]?.getD default).parent = some 0 := by decide +kernel
  have hconvention : (unaryState.impls[0]?.getD default).convention = .tuple := by decide +kernel
  cases hparent'.symm.trans hparent
  have hlength : params.length = 1 := by
    have hone : (parametersOf (unaryState.definitions[0]?.getD default).node).map List.length = some 1 := by decide +kernel
    rw [hparams] at hone
    exact Option.some.inj hone
  have hne : params ≠ [] := by
    rintro rfl
    cases hlength
  rw [hconvention, hlength] at hblocks
  exact ⟨hsound, s', s₁, f, k, m, hrun, hstart, hhere, hblocks, hreach, hlost hne, fun h => hne (hleads.1 h)⟩

end Lower
end Lowering
