import Lowering.Proofs.Expressions
import Lowering.Proofs.Targets

/-!
Where code goes on. Emissions that part into blocks come out in a block that was added for that purpose, and nothing
but the end of a block closes it, so an expression that is lowered in an open block leaves an open block.
-/
namespace Lowering

open Emit

set_option synthInstance.maxSize 10000000000000000000

variable {α β : Type} {home : Home} {e t : BlockRef} {s s' : State} {k : Nat}

theorem Emit.width_le {x : Emit α} [Grows x] (hs : s.program.Sound) {a : α} (h : x s = .ok a s') (f : Nat) :
    s.program.width f ≤ s'.program.width f :=
  (Grows.extends_of_ok h hs).2.width_le f

theorem Emit.grown_of_ok {x : Emit α} [Grows x] {p : Program} (hs : s.program.Sound) {a : α} (h : x s = .ok a s')
    (hp : s'.program.Grown p) : s.program.Grown p :=
  (Grows.extends_of_ok h hs).2.trans hp

/-- Two regimes at once. -/
def Regime.both (R S : Regime) : Regime where
  Holds s := R.Holds s ∧ S.Holds s
  Room r := R.Room r ∧ S.Room r
  Loose i := R.Loose i ∧ S.Loose i

instance {R S : Regime} [hR : R.Basic] [hS : S.Basic] : (R.both S).Basic where
  lowerer hs := hR.lowerer hs.1
  entry hs := ⟨hR.entry hs.1, hS.entry hs.2⟩
  stands hs h := ⟨hR.stands hs.1 h, hS.stands hs.2 h⟩
  adds hs h := ⟨hR.adds hs.1 h, hS.adds hs.2 h⟩
  mapBlock g hs h := ⟨hR.mapBlock g hs.1 h.1, hS.mapBlock g hs.2 h.2⟩
  counted hs := ⟨hR.counted hs.1, hS.counted hs.2⟩
  addBlock l hs := ⟨⟨(hR.addBlock l hs.1).1, (hS.addBlock l hs.2).1⟩, (hR.addBlock l hs.1).2, (hS.addBlock l hs.2).2⟩
  moveTo hs h := ⟨hR.moveTo hs.1 fun r hr => (h r hr).1, hS.moveTo hs.2 fun r hr => (h r hr).2⟩
  beside hs a b c d e f g h i := ⟨hR.beside hs.1 a b c d e f g h i, hS.beside hs.2 a b c d e f g h i⟩
  addVariable i v hs :=
    ⟨⟨(hR.addVariable i v hs.1).1, (hS.addVariable i v hs.2).1⟩, (hR.addVariable i v hs.1).2, (hS.addVariable i v hs.2).2⟩
  setSlot slot hs h := ⟨hR.setSlot slot hs.1 h.1, hS.setSlot slot hs.2 h.2⟩
  setUsed i u hs := ⟨hR.setUsed i u hs.1, hS.setUsed i u hs.2⟩

/-- A tree is being lowered to a function from its entry block on, and code goes to an open block of the function. -/
structure State.Flows (home : Home) (e : BlockRef) (k : Nat) (s : State) : Prop where
  awaits : s.Awaits home.cursor home.func k ⟨home.func, k⟩
  within : s.Within home
  entry : s.tree.entry = e
  early : e.index < s.program.width home.func

def flowing (home : Home) (e : BlockRef) : Regime := .lasting fun s => ∃ k, s.Flows home e k

/-- A lowering goes on in its function, while code goes to other blocks than the one that is kept open. -/
abbrev nearing (home : Home) (p : Program) (e t : BlockRef) : Regime :=
  (framing home p).both ((rooted e).both (sparing t))

/-- Code goes to other blocks than one that is open, from which it will go on. -/
structure State.Nears (home : Home) (e t : BlockRef) (s : State) : Prop where
  sound : s.program.Sound
  early : e.index < s.program.width home.func
  near : (nearing home s.program e t).Holds s
  func : t.func = home.func

namespace State.Nears

theorem of_ok {x : Emit α} [Grows x] [∀ p, Heeds (nearing home p e t) x] (hs : s.Nears home e t) {a : α}
    (h : x s = .ok a s') : s'.Nears home e t := by
  obtain ⟨hs', hgrown⟩ := Grows.extends_of_ok h hs.sound
  obtain ⟨⟨hwithin, -⟩, hspared⟩ := holds_of_ok (R := nearing home s.program e t) hs.near h
  exact ⟨hs', Nat.lt_of_lt_of_le hs.early (hgrown.width_le _), ⟨⟨hwithin, .refl _ _⟩, hspared⟩, hs.func⟩

theorem lt_width (hs : s.Nears home e t) : t.index < s.program.width home.func := by
  rw [← hs.func]
  exact hs.near.2.2.2.2.1.lt_width

theorem setBlock {u : Unit} (hs : s.Nears home e t) (h : setBlock t s = .ok u s') : s'.Flows home e t.index := by
  obtain ⟨f, k⟩ := t
  cases hs.func
  obtain ⟨⟨hwithin, -⟩, hrooted, -, -, hopen, -⟩ := hs.near
  obtain ⟨hs', hgrown⟩ := Grows.extends_of_ok h hs.sound
  have hinside : Inside (framing home s.program) ⟨home.func, k⟩ := ⟨rfl⟩
  have hinside' : Inside (rooted e) ⟨home.func, k⟩ := ⟨trivial⟩
  have hat : s'.At home.cursor home.func k :=
    at_setBlock hwithin.cursor (hwithin.place.imp fun _ hc => ⟨hc.1, hc.2.1⟩) h
  refine ⟨⟨hs', hat, ?_⟩, (holds_of_ok (R := framing home s.program) ⟨hwithin, .refl _ _⟩ h).1,
    (holds_of_ok hrooted h).2, Nat.lt_of_lt_of_le hs.early (hgrown.width_le _)⟩
  rw [moveTo_eq_ok.1 h]
  exact hopen

end State.Nears

namespace State.Flows

theorem of_ok {x : Emit α} [Emit.Stays x] [∀ p, Heeds (framing home p) x] [Heeds (rooted e) x] (hs : s.Flows home e k) {a : α}
    (h : x s = .ok a s') : s'.Flows home e k := by
  have hstay := Emit.Stays.stays hs.awaits.sound h
  exact ⟨Preserves.of_ok hs.awaits h, (holds_of_ok (R := framing home s.program) ⟨hs.within, .refl _ _⟩ h).1,
    (holds_of_ok (R := rooted e) ⟨hs.within.lowerer, hs.entry⟩ h).2,
    Nat.lt_of_lt_of_le hs.early (hstay.grown.width_le _)⟩

theorem lt_width (hs : s.Flows home e k) : k < s.program.width home.func := hs.awaits.opened.lt_width

theorem nears {j : Nat} (hs : s.Flows home e k) (hj : s.program.OpenAt ⟨home.func, j⟩) (hne : j ≠ k)
    (he : e.index ≠ j) : s.Nears home e ⟨home.func, j⟩ := by
  obtain ⟨c, hc, -, hblock⟩ := hs.awaits.at_.stands
  refine ⟨hs.awaits.sound, hs.early, ⟨⟨hs.within, .refl _ _⟩, ⟨hs.within.lowerer, hs.entry⟩, hs.within.lowerer, ?_, hj, c, ?_, ?_⟩, rfl⟩
  · rw [hs.entry]
    rintro rfl
    exact he rfl
  · rw [hs.awaits.at_.cursor]
    exact hc
  · rw [hblock]
    simpa using hne.symm

theorem leave {r : BlockRef} {u : Unit} (hs : s.Flows home e k) (hr : r.func = home.func) (hne : r ≠ ⟨home.func, k⟩)
    (he : e ≠ ⟨home.func, k⟩) (h : Emit.setBlock r s = .ok u s') : s'.Nears home e ⟨home.func, k⟩ := by
  obtain ⟨hs', hgrown⟩ := Grows.extends_of_ok h hs.awaits.sound
  have hinside : Inside (framing home s.program) r := ⟨hr⟩
  have hinside' : Inside (rooted e) r := ⟨trivial⟩
  have hwithin := (holds_of_ok (R := framing home s.program) ⟨hs.within, .refl _ _⟩ h).1
  have hrooted := holds_of_ok (R := rooted e) ⟨hs.within.lowerer, hs.entry⟩ h
  obtain ⟨c, hc, -⟩ := hs.awaits.at_.stands
  refine ⟨hs', Nat.lt_of_lt_of_le hs.early (hgrown.width_le _), ⟨⟨hwithin, .refl _ _⟩, hrooted, hrooted.1,
    fun h => he (hrooted.2.symm.trans h), ?_, { c with block := some r }, ?_, by simpa using hne⟩, rfl⟩
  · rw [moveTo_eq_ok.1 h]
    exact hs.awaits.opened
  · rw [moveTo_eq_ok.1 h, State.withProgram, hs.awaits.at_.cursor]
    simp [Array.getElem?_modify, hc]

theorem createBlock {label : Option String} (hs : s.Flows home e k) (h : createBlock label s = .ok t s') :
    s'.Flows home e k ∧ s'.Nears home e t ∧ t = ⟨home.func, s.program.width home.func⟩ := by
  obtain ⟨rfl, hwidth, hnew, hold⟩ := hs.awaits.added h
  have hk := hs.lt_width
  have hs' : s'.Flows home e k := ⟨hold, (holds_of_ok (R := framing home s.program) ⟨hs.within, .refl _ _⟩ h).1,
    (holds_of_ok (R := rooted e) ⟨hs.within.lowerer, hs.entry⟩ h).2, Nat.lt_of_lt_of_le hs.early (by omega)⟩
  have he := hs.early
  exact ⟨hs', hs'.nears hnew.opened (by omega) (by omega), rfl⟩

theorem condBranch {p : Program} {c : Operand} {yes no : Nat} {u : Unit} (hs : s.Flows home e k)
    (hyes : yes < s.program.width home.func) (hno : no < s.program.width home.func)
    (h : Emit.condBranch c ⟨home.func, yes⟩ ⟨home.func, no⟩ s = .ok u s') (hp : p.Sound) (hgrown : s'.program.Grown p) :
    p.successors ⟨home.func, k⟩ = [yes, no] := by
  obtain ⟨hsucc, -, hs', -⟩ := Lower.condBranch_successors hs.awaits hyes hno h
  exact hs'.successors_mono hp hgrown hsucc (by simp)

theorem branch {p : Program} {j : Nat} {u : Unit} (hs : s.Flows home e k) (hj : j < s.program.width home.func)
    (h : Emit.branch ⟨home.func, j⟩ s = .ok u s') (hp : p.Sound) (hgrown : s'.program.Grown p) :
    p.successors ⟨home.func, k⟩ = [j] := by
  have hs' := (Grows.extends_of_ok h hs.awaits.sound).1
  obtain ⟨b, hb, hend⟩ := hs.awaits.opened
  refine hs'.successors_mono hp hgrown ?_ (by simp)
  rw [(branch_eq_ok.1 h).2.successors_here hs.awaits.sound hs' rfl hs.awaits.at_.here.2 hb hend, Instr.targets,
    hs.awaits.sound.block_id hj]

end State.Flows

namespace Emit

section Landing

variable {x : Emit α} {f : α → Emit β}

theorem heeds_flowing (x : Emit α) [Stays x] [∀ p, Heeds (framing home p) x] [Heeds (rooted e) x] :
    Heeds (flowing home e) x :=
  heeds_lasting fun hs h => hs.imp fun _ hs => hs.of_ok h

/-- Blocks of the function that have been added. -/
def Present (home : Home) (ts : List BlockRef) (s : State) : Prop :=
  ∀ t ∈ ts, t.func = home.func ∧ t.index < s.program.width home.func

/-- The action goes on in an open block, and may use blocks that were added before. -/
class Early (home : Home) (e : BlockRef) (ts : List BlockRef) (x : Emit α) : Prop where
  flows : ∀ {s s' : State} {a : α}, (∃ k, s.Flows home e k) → Present home ts s → x s = .ok a s' → ∃ k, s'.Flows home e k

/-- The action goes on from a block that is kept open. -/
class Lands (home : Home) (e : BlockRef) (ts : List BlockRef) (t : BlockRef) (x : Emit α) : Prop where
  flows : ∀ {s s' : State} {a : α}, s.Nears home e t → Present home ts s → x s = .ok a s' → ∃ k, s'.Flows home e k

/-- A block that is none of those that were added before. -/
structure Berth (home : Home) (ts : List BlockRef) where
  ref : BlockRef
  apart : ∀ t ∈ ts, t.func = home.func ∧ t ≠ ref

/-- A block other than the one that is kept open. -/
structure Aside (home : Home) (t : BlockRef) where
  ref : BlockRef
  func : ref.func = home.func
  ne : ref ≠ t

class Listed (t : BlockRef) (ts : List BlockRef) : Prop where
  mem : t ∈ ts

variable {ts : List BlockRef}

instance : Listed t (t :: ts) := ⟨List.mem_cons_self⟩
instance (r : BlockRef) [h : Listed t ts] : Listed t (r :: ts) := ⟨List.mem_cons_of_mem _ h.mem⟩

instance (p : Program) (t : Berth home ts) (r : BlockRef) [h : Listed r ts] : Inside (nearing home p e t.ref) r :=
  ⟨(t.apart r h.mem).1, trivial, (t.apart r h.mem).2⟩

instance (p : Program) (r : Aside home t) : Inside (nearing home p e t) r.ref := ⟨r.func, trivial, r.ne⟩

/-- From the block in hand code goes to others and comes back. -/
class Rests (home : Home) (e t : BlockRef) (x : Emit α) : Prop where
  flows : ∀ {s s' : State} {a : α}, s.Flows home e t.index → t.func = home.func → e ≠ t → x s = .ok a s' →
    ∃ k, s'.Flows home e k

theorem Present.of_ok [Grows x] (h : Present home ts s) (hs : s.program.Sound) {a : α}
    (hx : x s = .ok a s') : Present home ts s' :=
  fun t ht => ⟨(h t ht).1, Nat.lt_of_lt_of_le (h t ht).2 (width_le hs hx _)⟩

section Rules

variable {ts : List BlockRef}

theorem Early.heeds [h : Early home e [] x] : Heeds (flowing home e) x :=
  heeds_lasting fun hs hx => h.flows hs (fun _ ht => by cases ht) hx

instance (priority := low) [h : Heeds (flowing home e) x] : Early home e ts x := ⟨fun hs _ hx => holds_of_ok (R := flowing home e) hs hx⟩

instance [Heeds (flowing home e) x] [Grows x] [h : ∀ a, Early home e ts (f a)] : Early home e ts (x >>= f) := ⟨by
  intro s s' b hs hts hrun
  obtain ⟨a, s1, hx, hf⟩ := bind_eq_ok.1 hrun
  obtain ⟨k, hk⟩ := hs
  exact (h a).flows (holds_of_ok (R := flowing home e) ⟨k, hk⟩ hx) (hts.of_ok hk.awaits.sound hx) hf⟩

instance (label : Option String) (f : BlockRef → Emit β) [h : ∀ t : Berth home ts, Lands home e ts t.ref (f t.ref)] :
    Early home e ts (createBlock label >>= f) := ⟨by
  intro s s' b hs hts hrun
  obtain ⟨t, s1, hx, hf⟩ := bind_eq_ok.1 hrun
  obtain ⟨k, hk⟩ := hs
  obtain ⟨-, hnear, ht⟩ := hk.createBlock hx
  refine (h ⟨t, fun r hr => ⟨(hts r hr).1, fun hrt => ?_⟩⟩).flows hnear (hts.of_ok hk.awaits.sound hx) hf
  have := (hts r hr).2
  rw [hrt, ht] at this
  exact Nat.lt_irrefl _ this⟩

instance (label : Option String) (f : BlockRef → Emit β) [h : ∀ t, Early home e (t :: ts) (f t)] :
    Early home e ts (createBlock label >>= f) := ⟨by
  intro s s' b hs hts hrun
  obtain ⟨t, s1, hx, hf⟩ := bind_eq_ok.1 hrun
  obtain ⟨k, hk⟩ := hs
  obtain ⟨hk1, -, rfl⟩ := hk.createBlock hx
  have hwidth := (hk.awaits.added hx).2.1
  exact (h _).flows ⟨k, hk1⟩ (List.forall_mem_cons.2 ⟨⟨rfl, by simp [hwidth]⟩, hts.of_ok hk.awaits.sound hx⟩) hf⟩

instance (c : Prop) [Decidable c] (x y : Emit α) [Early home e ts x] [Early home e ts y] :
    Early home e ts (if c then x else y) := by
  split <;> infer_instance

instance [∀ p, Heeds (nearing home p e t) x] [Grows x] [h : ∀ a, Lands home e ts t (f a)] :
    Lands home e ts t (x >>= f) := ⟨by
  intro s s' b hs hts hrun
  obtain ⟨a, s1, hx, hf⟩ := bind_eq_ok.1 hrun
  exact (h a).flows (hs.of_ok hx) (hts.of_ok hs.sound hx) hf⟩

instance (label : Option String) (f : BlockRef → Emit β) [h : ∀ r : Aside home t, Lands home e (r.ref :: ts) t (f r.ref)] :
    Lands home e ts t (createBlock label >>= f) := ⟨by
  intro s s' b hs hts hrun
  obtain ⟨r, s1, hx, hf⟩ := bind_eq_ok.1 hrun
  have hs1 := hs.of_ok hx
  have hts1 := hts.of_ok hs.sound hx
  obtain ⟨rfl, rfl⟩ := createBlock_eq_ok.1 hx
  obtain ⟨hfunc, -, hne⟩ := (Regime.Writes.addBlock label hs.near).2
  obtain ⟨g, hg, -⟩ := hs.near.1.1.func
  have hlt : ((s.program.funcs[s.here.func]?.map (·.blocks.size)).getD 0) <
      (s.program.mapFunc s.here.func (·.addBlock label)).width home.func := by
    rw [hs.near.1.1.here.1, hg]
    simp [Program.width, Program.getElem?_mapFunc_self hg, Func.addBlock]
  exact (h ⟨_, hfunc, hne⟩).flows hs1 (List.forall_mem_cons.2 ⟨⟨hfunc, hlt⟩, hts1⟩) hf⟩

instance (c : Prop) [Decidable c] (x y : Emit α) [Lands home e ts t x] [Lands home e ts t y] : Lands home e ts t (if c then x else y) := by
  split <;> infer_instance

instance : Lands home e ts t (setBlock t) := ⟨fun hs _ hx => ⟨_, hs.setBlock hx⟩⟩

instance (f : Unit → Emit β) [h : Early home e (t :: ts) (f ⟨⟩)] : Lands home e ts t (setBlock t >>= f) := ⟨by
  intro s s' b hs hts hrun
  obtain ⟨⟨⟩, s1, hx, hf⟩ := bind_eq_ok.1 hrun
  have hs1 := hs.setBlock hx
  have ht : t = ⟨home.func, t.index⟩ := by rw [← hs.func]
  exact h.flows ⟨_, hs1⟩ (List.forall_mem_cons.2 ⟨⟨hs.func, ht ▸ hs1.awaits.opened.lt_width⟩, hts.of_ok hs.sound hx⟩) hf⟩

instance (f : Unit → Emit β) [h : Rests home e t (f ⟨⟩)] : Lands home e ts t (setBlock t >>= f) := ⟨by
  intro s s' b hs hts hrun
  obtain ⟨⟨⟩, s1, hx, hf⟩ := bind_eq_ok.1 hrun
  exact h.flows (hs.setBlock hx) hs.func (fun het => hs.near.2.2.2.1 (hs.near.2.1.2.trans het)) hf⟩

instance [Stays x] [∀ p, Heeds (framing home p) x] [Heeds (rooted e) x] [h : ∀ a, Rests home e t (f a)] :
    Rests home e t (x >>= f) := ⟨by
  intro s s' b hs ht he hrun
  obtain ⟨a, s1, hx, hf⟩ := bind_eq_ok.1 hrun
  exact (h a).flows (hs.of_ok hx) ht he hf⟩

instance (bad : BlockRef) [hbad : ∀ p, Inside (nearing home p e t) bad] (f : Unit → Emit β)
    [h : Heeds (flowing home e) (f ⟨⟩)] : Rests home e t (failAt bad t >>= f) := ⟨by
  intro s s' b hs ht he hrun
  obtain ⟨⟨⟩, s1, hx, hf⟩ := bind_eq_ok.1 hrun
  obtain ⟨_, s2, h2, h⟩ := bind_eq_ok.1 hx
  obtain ⟨_, s3, h3, h⟩ := bind_eq_ok.1 h
  obtain ⟨_, s4, h4, h⟩ := bind_eq_ok.1 h
  obtain ⟨g, j⟩ := t
  cases ht
  obtain ⟨hfunc, -, hne⟩ := (hbad s.program).room
  exact holds_of_ok (R := flowing home e) ⟨_, (((hs.leave hfunc hne he h2).of_ok h3).of_ok h4).setBlock h⟩ hf⟩

end Rules

end Landing

section Instances

instance : (flowing home e).Computes :=
  Regime.computes_of_same
    (fun hs hprogram hcursor hlowerer htree _ himpls => hs.imp fun _ hs => ⟨hs.awaits.of_same hprogram hcursor,
      hs.within.of_same hprogram hcursor hlowerer (congrArg _ htree) (congrArg _ htree) himpls,
      (congrArg _ htree).trans hs.entry, hprogram ▸ hs.early⟩)
    (fun _ => heeds_flowing _) (fun mk hend _ =>
      have := stays_assign hend
      have : Grows (assign mk) := .assign hend
      have : ∀ p, Heeds (framing home p) (assign mk) := fun _ => heeds_assign mk
      have : Heeds (rooted e) (assign mk) := heeds_assign mk
      heeds_flowing _) fun _ _ => heeds_flowing _

instance : (flowing home e).Calls where
  call id args :=
    have : Stays (assign (.call id args)) := stays_assign fun _ => rfl
    have : Grows (assign (.call id args)) := .assign fun _ => rfl
    have : ∀ p, Heeds (framing home p) (assign (.call id args)) := fun _ => heeds_assign _
    have : Heeds (rooted e) (assign (.call id args)) := heeds_assign _
    heeds_flowing _

instance : Joins (flowing home e) where
  box v t := by unfold box; exact Early.heeds
  listItem t a b := by unfold listItem; exact Early.heeds
  tupleItem a b := by unfold tupleItem; exact Early.heeds
  releaseCounted t v := by unfold releaseCounted; exact Early.heeds
  getAttribute object name type := by cases type <;> unfold getAttribute <;> dsimp only <;> exact Early.heeds
  setAttribute object name v type := by cases type <;> unfold setAttribute <;> dsimp only <;> exact Early.heeds
  callCallable a b args kw := by unfold callCallable; exact Early.heeds

instance : Dispatches (flowing home e) where
  callIteration name slot a := by unfold callIteration; dsimp only; exact Early.heeds
  callCompare l t a b types args := by unfold callCompare; exact Early.heeds
  callNumber l t a b types args := by unfold callNumber; dsimp only; exact Early.heeds

end Instances

end Emit

namespace Lower

instance : (flowing home e).Notes where
  note h := heeds_lasting fun {s _ _} hs hrun => by
    cases hrun
    have hentry := congrArg TreeFrame.entry (h s.tree)
    have himpl := congrArg TreeFrame.impl (h s.tree)
    exact hs.imp fun _ hs => ⟨hs.awaits.of_same rfl rfl, hs.within.of_same rfl rfl rfl hentry himpl rfl,
      hentry.trans hs.entry, hs.early⟩

instance (object : Operand) (l : Label) (args : List Operand) (kw : Keywords) :
    Heeds (flowing home e) (callMember object l args kw) := by
  unfold callMember
  exact Early.heeds

variable {fuel : Nat} {n : Node}

instance : Recur.Lowers ⟨lowerExpr fuel⟩ := by
  induction fuel with
  | zero => exact ⟨fun _ _ _ => .pure rfl⟩
  | succ fuel ih =>
    refine ⟨fun θ _ n => ?_⟩
    dsimp only
    unfold lowerExpr
    infer_instance

instance : (recurExpr fuel).Lowers := by unfold recurExpr; infer_instance

instance {R : Regime} [R.Basic] : Heeds R (lowerExpr fuel n) := by
  induction fuel generalizing n with
  | zero => exact inferInstanceAs (Heeds R (pure ()))
  | succ fuel ih =>
    have hvisit : ∀ n, Heeds R (Recur.visit ⟨announced (lowerExpr fuel)⟩ n) := fun n =>
      inferInstanceAs (Heeds R (announced (lowerExpr fuel) n))
    unfold lowerExpr
    infer_instance

instance {R : Regime} [R.Basic] : Heeds R ((recurExpr fuel).visit n) :=
  inferInstanceAs (Heeds R (announced (lowerExpr fuel) n))

section Trees

variable {fuel : Nat} (node a b c : Node)

section Unpacking

variable (depth : Nat) (targets : List Node) (v : Term) (before : Nat) (after : Int)

instance : Heeds (flowing home e) (unpackIterable (assignTo (recurExpr fuel) node depth) targets v before after) := by
  unfold unpackIterable
  dsimp only
  exact Early.heeds

instance : Heeds (flowing home e) (unpackSized (assignTo (recurExpr fuel) node depth) targets v before after) := by
  have := @grows_unpackIterable (assignTo (recurExpr fuel) node depth) inferInstance
  unfold unpackSized
  dsimp only
  exact Early.heeds

end Unpacking

/-- The block where a comprehension ends may be any. -/
instance (priority := low) {R : Regime} [R.Basic] (r : Recur) [∀ n, Heeds R (r.visit n)] (action : Emit Unit)
    [Heeds R action] (generators : List Node) (done : BlockRef) : Heeds R (openLoops r node action generators done) := by
  have hopen : ∀ generator, Yields R (openLoop r node generator done) := fun generator => by
    unfold openLoop
    split <;> infer_instance
  cases generators with
  | nil => exact inferInstanceAs (Heeds R (pure ()))
  | cons generator rest => cases rest <;> unfold openLoops <;> infer_instance

instance (action : Emit Unit) [∀ p t, Heeds (nearing home p e t) action] [Grows action] :
    Heeds (flowing home e) (comprehend (recurExpr fuel) node a action) := by
  unfold comprehend
  exact Early.heeds

instance : Heeds (flowing home e) (ifExp (recurExpr fuel) a b c) := heeds_lasting fun _ h => absurd h Fails.ne_ok

end Trees

instance : Heeds (flowing home e) (lowerExpr fuel n) := by
  induction fuel generalizing n with
  | zero => exact inferInstanceAs (Heeds _ (pure ()))
  | succ fuel ih =>
    have hvisit : ∀ n, Heeds (flowing home e) ((recurExpr fuel).visit n) := fun n =>
      inferInstanceAs (Heeds _ (announced (lowerExpr fuel) n))
    unfold lowerExpr
    split
    case isTrue => infer_instance
    next hn =>
      rw [Node.isStatement] at hn
      change Heeds _ (construct (recurExpr fuel) n)
      unfold construct
      split
      all_goals first | infer_instance | simp_all

instance : Heeds (flowing home e) ((recurExpr fuel).visit n) :=
  inferInstanceAs (Heeds _ (announced (lowerExpr fuel) n))

/-- Code goes to an open block, and what is left over is known. -/
def drifting (home : Home) (e : BlockRef) (k : Token) (b : Bool) : Regime :=
  .lasting fun s => (∃ j, s.Flows home e j) ∧ s.Idle k b

instance {k : Token} {b : Bool} (x : Emit α) [Heeds (flowing home e) x] [Heeds (idle k b) x] :
    Heeds (drifting home e k b) x :=
  heeds_lasting fun hs h => ⟨holds_of_ok (R := flowing home e) hs.1 h, holds_of_ok (R := idle k b) hs.2 h⟩

theorem sound_of_drifting {k : Token} {b : Bool} (hs : (drifting home e k b).Holds s) : s.program.Sound :=
  hs.1.elim fun _ hj => hj.awaits.sound

theorem Accords.drifts {k : Token} {b c : Bool} {x y : Emit α} {a : α} (h : Idles k b c x y) [Heeds (flowing home e) y]
    (hs : (drifting home e k b).Holds s) (hx : x s = .ok a s') : (drifting home e k c).Holds s' := by
  obtain ⟨hsame, hidle⟩ := h s hs.2 a s'
  exact ⟨holds_of_ok (R := flowing home e) hs.1 (hsame.1 hx), hidle hx⟩

end Lower

end Lowering
