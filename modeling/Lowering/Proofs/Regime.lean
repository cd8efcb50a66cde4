import Lowering.Lower.Frame
import Lowering.Proofs.Framing

/-!
What a lowering keeps to. A regime is a condition on the state, with the blocks that code may go to and the
variables that may be given another place. Under a regime two actions can be the same that differ elsewhere;
every emission is put together from a few actions on blocks and tables, and instances follow the way it is put
together. A block that an action moves to has to be one that the regime allows, so the blocks that actions give
are followed up.
-/
namespace Lowering

structure Regime where
  Holds : State → Prop
  /-- The blocks that code may go to. -/
  Room : BlockRef → Prop
  /-- The variables that may be given another place. -/
  Loose : Nat → Prop
  /-- What is still known where an action has failed. -/
  Fallen : State → Prop := Holds
  /-- What is known instead where the first of two actions has failed and the second goes on. -/
  Gone : State → Prop := fun _ => False
  /-- Whether the second may then fail in a way of its own. -/
  Lost : Prop := False
  falls {s : State} : Holds s → Fallen s := by first | exact fun h => h | exact fun _ => trivial
  loses {s : State} : Gone s → Lost := by first | exact fun h => h | exact fun _ => trivial

namespace Emit

variable {α β γ : Type} {R : Regime}

/-- What the second of two actions comes to when the first has failed. -/
def Strays (R : Regime) (Q : α → Prop) : EStateM.Result Fault State α → Prop
  | .ok a s => R.Gone s ∧ Q a
  | .error _ _ => R.Lost

/-- What two actions come to where the regime holds. -/
def Matches (R : Regime) (Q : α → Prop) : EStateM.Result Fault State α → EStateM.Result Fault State α → Prop
  | .ok a s, y => y = .ok a s ∧ R.Holds s ∧ Q a
  | .error e s, y => y = .error e s ∧ R.Fallen s ∨ Strays R Q y

/-- Where the regime holds the two actions are the same, and it holds after them; what they give has a
property. If the first fails the second may go on, where something else is known. -/
def Agree (R : Regime) (x y : Emit α) (Q : α → Prop) : Prop :=
  (∀ s, R.Holds s → Matches R Q (x s) (y s)) ∧ ∀ s, R.Gone s → Strays R Q (y s)

/-- The regime allows code to go to the block. -/
class Inside (R : Regime) (r : BlockRef) : Prop where
  room : R.Room r

structure Room (R : Regime) where
  ref : BlockRef
  inside : Inside R ref

instance (r : Room R) : Inside R r.ref := r.inside
instance (r : BlockRef) [h : Inside R r] : Inside R ((none : Option BlockRef).getD r) := h
instance (r q : BlockRef) [h : Inside R r] : Inside R ((some r).getD q) := h

/-- Under the regime the two actions are the same. -/
class Agrees (R : Regime) (x y : Emit α) : Prop where
  agree : Agree R x y fun _ => True

/-- Under the regime the two actions are the same, and give a block that code may go to. -/
class Meets (R : Regime) (x y : Emit BlockRef) : Prop where
  agree : Agree R x y R.Room

/-- The action keeps to the regime. -/
abbrev Heeds (R : Regime) (x : Emit α) : Prop := Agrees R x x

/-- The action keeps to the regime and gives a block that code may go to. -/
abbrev Yields (R : Regime) (x : Emit BlockRef) : Prop := Meets R x x

namespace Agree

variable {x y : Emit α} {Q : α → Prop}

theorem pure {a : α} (h : Q a) : Agree R (Pure.pure a) (Pure.pure a) Q :=
  ⟨fun _ hs => ⟨rfl, hs, h⟩, fun _ hs => ⟨hs, h⟩⟩

theorem throw (e : Fault) : Agree R (MonadExcept.throw e : Emit α) (MonadExcept.throw e) Q :=
  ⟨fun _ hs => .inl ⟨rfl, R.falls hs⟩, fun _ hs => R.loses hs⟩

theorem bind {f g : α → Emit β} {P : β → Prop} (hx : Agree R x y Q) (hf : ∀ a, Q a → Agree R (f a) (g a) P) :
    Agree R (x >>= f) (y >>= g) P := by
  have hstray : ∀ s, Strays R Q (y s) → Strays R P ((y >>= g) s) := by
    intro s hs
    cases h : y s with
    | ok a s1 =>
      rw [h] at hs
      rw [bind_run_of_ok h]
      exact (hf a hs.2).2 s1 hs.1
    | error e s1 =>
      rw [h] at hs
      rw [bind_eq_error.2 (.inl h)]
      exact hs
  refine ⟨fun s hs => ?_, fun s hs => hstray s (hx.2 s hs)⟩
  have hrun := hx.1 s hs
  cases h : x s with
  | ok a s1 =>
    rw [h] at hrun
    obtain ⟨hy, hholds, ha⟩ := hrun
    rw [bind_run_of_ok h, bind_run_of_ok hy]
    exact (hf a ha).1 s1 hholds
  | error e s1 =>
    rw [h] at hrun
    rw [bind_eq_error.2 (.inl h)]
    exact hrun.imp (fun ⟨hy, hfallen⟩ => ⟨bind_eq_error.2 (.inl hy), hfallen⟩) (hstray s)

theorem mono {P : α → Prop} (hx : Agree R x y Q) (h : ∀ a, Q a → P a) : Agree R x y P := by
  have hrun := hx.bind fun a ha => .pure (h a ha)
  rwa [bind_pure, bind_pure] at hrun

theorem map {f : α → β} {P : β → Prop} (hx : Agree R x y Q) (h : ∀ a, Q a → P (f a)) :
    Agree R (f <$> x) (f <$> y) P := by
  rw [map_eq_pure_bind, map_eq_pure_bind]
  exact hx.bind fun a ha => .pure (h a ha)

theorem read {f g : State → Emit β} {P : β → Prop} (hf : ∀ s, Agree R (f s) (g s) P) :
    Agree R (get >>= f) (get >>= g) P :=
  ⟨fun s => (hf s).1 s, fun s => (hf s).2 s⟩

theorem forIn {f g : γ → β → Emit (ForInStep β)} {S : β → Prop} (xs : List γ)
    (hf : ∀ a ∈ xs, ∀ b, S b → Agree R (f a b) (g a b) fun
      | .done b | .yield b => S b) {init : β} (hinit : S init) :
    Agree R (ForIn.forIn xs init f) (ForIn.forIn xs init g) S := by
  induction xs generalizing init with
  | nil => exact .pure hinit
  | cons x xs ih =>
    rw [List.forIn_cons, List.forIn_cons]
    refine (hf x List.mem_cons_self init hinit).bind ?_
    rintro (b | b) hb
    · exact .pure hb
    · exact ih (fun a ha => hf a (List.mem_cons_of_mem x ha)) hb

theorem mapM {f g : γ → Emit β} {S : β → Prop} (xs : List γ) (hf : ∀ a, Agree R (f a) (g a) S) :
    Agree R (xs.mapM f) (xs.mapM g) fun bs => ∀ b ∈ bs, S b := by
  induction xs with
  | nil => exact .pure (by simp)
  | cons x xs ih =>
    rw [List.mapM_cons, List.mapM_cons]
    exact (hf x).bind fun b hb => ih.bind fun bs hbs => .pure (List.forall_mem_cons.2 ⟨hb, hbs⟩)

theorem left (h : Agree R x y Q) (hfallen : R.Fallen = R.Holds) (hlost : ¬R.Lost) {s : State} (hs : R.Holds s) :
    y s = x s ∧ R.Holds (leftBy (x s)) ∧ ∀ a s', x s = .ok a s' → Q a := by
  have hrun := h.1 s hs
  cases hx : x s with
  | ok a s1 =>
    rw [hx] at hrun
    obtain ⟨hy, hholds, ha⟩ := hrun
    exact ⟨hy, hholds, fun b s' hok => by cases hok; exact ha⟩
  | error e s1 =>
    rw [hx] at hrun
    have hkept : ¬Strays R Q (y s) := by
      cases y s with
      | ok a s2 => exact fun hstray => hlost (R.loses hstray.1)
      | error e s2 => exact hlost
    obtain ⟨hy, hs1⟩ := hrun.resolve_right hkept
    exact ⟨hy, hfallen ▸ hs1, fun b s' hok => by cases hok⟩

end Agree

theorem Agrees.holds_of_ok {x y : Emit α} (h : Agrees R x y) {s s' : State} {a : α} (hs : R.Holds s)
    (hx : x s = .ok a s') : y s = .ok a s' ∧ R.Holds s' := by
  have hrun := h.agree.1 s hs
  rw [hx] at hrun
  exact ⟨hrun.1, hrun.2.1⟩

theorem holds_of_ok {x : Emit α} [h : Heeds R x] {s s' : State} {a : α} (hs : R.Holds s) (hx : x s = .ok a s') :
    R.Holds s' :=
  (h.holds_of_ok hs hx).2

/-- Where nothing is asked of failures, only what is completed counts. -/
theorem agree_of_ok {x : Emit α} {Q : α → Prop} (hfallen : ∀ s, R.Fallen s) (hgone : ∀ s, ¬R.Gone s)
    (h : ∀ {s s' : State} {a : α}, R.Holds s → x s = .ok a s' → R.Holds s' ∧ Q a) : Agree R x x Q := by
  refine ⟨fun s hs => ?_, fun s hs => absurd hs (hgone s)⟩
  cases hx : x s with
  | ok a s' => exact ⟨rfl, h hs hx⟩
  | error e s' => exact .inl ⟨rfl, hfallen s'⟩

theorem heeds_of_ok {x : Emit α} (hfallen : ∀ s, R.Fallen s) (hgone : ∀ s, ¬R.Gone s)
    (h : ∀ {s s' : State} {a : α}, R.Holds s → x s = .ok a s' → R.Holds s') : Heeds R x :=
  ⟨agree_of_ok hfallen hgone fun hs hx => ⟨h hs hx, trivial⟩⟩

section Instances

instance (a : α) : Heeds R (pure a : Emit α) := ⟨.pure trivial⟩
variable {e : Fault} {x y : Emit BlockRef}

instance : Heeds R (throw e : Emit α) := ⟨.throw e⟩
instance : Heeds R (get : Emit State) := ⟨⟨fun _ hs => ⟨rfl, hs, trivial⟩, fun _ hs => ⟨hs, trivial⟩⟩⟩

instance (r : BlockRef) [h : Inside R r] : Yields R (pure r) := ⟨.pure h.room⟩
instance : Yields R (throw e) := ⟨.throw e⟩

instance (priority := low) [h : Meets R x y] : Agrees R x y :=
  ⟨h.agree.mono fun _ _ => trivial⟩

instance (x y : Emit α) (f g : α → Emit β) [hx : Agrees R x y] [hf : ∀ a, Agrees R (f a) (g a)] :
    Agrees R (x >>= f) (y >>= g) :=
  ⟨hx.agree.bind fun a _ => (hf a).agree⟩

instance (x y : Emit α) (f g : α → Emit BlockRef) [hx : Agrees R x y] [hf : ∀ a, Meets R (f a) (g a)] :
    Meets R (x >>= f) (y >>= g) :=
  ⟨hx.agree.bind fun a _ => (hf a).agree⟩

instance (x y : Emit (Option α)) (f g : Option α → Emit β) [hx : Agrees R x y] [hn : Agrees R (f none) (g none)]
    [hs : ∀ a, Agrees R (f (some a)) (g (some a))] : Agrees R (x >>= f) (y >>= g) := by
  refine ⟨hx.agree.bind fun a _ => ?_⟩
  cases a with
  | none => exact hn.agree
  | some a => exact (hs a).agree

instance (x y : Emit (α × γ)) (f g : α × γ → Emit β) [hx : Agrees R x y]
    [hf : ∀ a c, Agrees R (f (a, c)) (g (a, c))] : Agrees R (x >>= f) (y >>= g) :=
  ⟨hx.agree.bind fun ⟨a, c⟩ _ => (hf a c).agree⟩

instance (f g : BlockRef → Emit β) [hx : Meets R x y]
    [hf : ∀ r : Room R, Agrees R (f r.ref) (g r.ref)] : Agrees R (x >>= f) (y >>= g) :=
  ⟨hx.agree.bind fun r hr => (hf ⟨r, ⟨hr⟩⟩).agree⟩

instance (f g : BlockRef → Emit BlockRef) [hx : Meets R x y]
    [hf : ∀ r : Room R, Meets R (f r.ref) (g r.ref)] : Meets R (x >>= f) (y >>= g) :=
  ⟨hx.agree.bind fun r hr => (hf ⟨r, ⟨hr⟩⟩).agree⟩

instance (a : α) (f g : α → Emit β) [h : Agrees R (f a) (g a)] : Agrees R (pure a >>= f) (pure a >>= g) :=
  ⟨(Agree.pure (Q := (· = a)) rfl).bind fun _ ha => ha ▸ h.agree⟩

instance (f g : Option BlockRef → Emit β) [hx : Meets R x y]
    [hf : ∀ r : Room R, Agrees R (f (some r.ref)) (g (some r.ref))] :
    Agrees R ((some <$> x) >>= f) ((some <$> y) >>= g) := by
  refine ⟨(hx.agree.map (P := fun o => ∃ r : Room R, o = some r.ref) fun r hr => ⟨⟨r, ⟨hr⟩⟩, rfl⟩).bind ?_⟩
  rintro _ ⟨r, rfl⟩
  exact (hf r).agree

/-- Nothing follows a fault. -/
instance (f g : α → Emit β) : Agrees R (throw e >>= f) (throw e >>= g) := ⟨.throw e⟩

instance (f : α → β) (x y : Emit α) [h : Agrees R x y] : Agrees R (f <$> x) (f <$> y) :=
  ⟨h.agree.map fun _ _ => trivial⟩

instance (x y : Emit α) [Agrees R x y] : Agrees R (discard x) (discard y) :=
  inferInstanceAs (Agrees R ((fun _ => PUnit.unit) <$> x) ((fun _ => PUnit.unit) <$> y))

instance (c : Prop) [Decidable c] (x y x' y' : Emit α) [Agrees R x x'] [Agrees R y y'] :
    Agrees R (if c then x else y) (if c then x' else y') := by
  split <;> infer_instance

instance (x : Except Fault α) : Heeds R (lift x) := by
  cases x with
  | ok a => exact inferInstanceAs (Heeds R (pure a))
  | error e => exact inferInstanceAs (Heeds R (throw e))

instance (x : Option α) : Heeds R (expect x e) := by
  cases x with
  | none => exact inferInstanceAs (Heeds R (throw e))
  | some a => exact inferInstanceAs (Heeds R (pure a))

theorem heeds_entryBlock : Heeds R entryBlock := ⟨.read fun s => by cases s.lowerer <;> exact Agrees.agree⟩

instance (xs : List γ) (f g : γ → β → Emit (ForInStep β)) [hf : ∀ a b, Agrees R (f a b) (g a b)] (init : β) :
    Agrees R (forIn xs init f) (forIn xs init g) :=
  ⟨.forIn xs (fun a _ b _ => (hf a b).agree.mono fun r _ => by cases r <;> trivial) trivial⟩

instance (xs : List γ) (f g : γ → Emit β) [hf : ∀ a, Agrees R (f a) (g a)] : Agrees R (xs.mapM f) (xs.mapM g) :=
  ⟨(Agree.mapM xs fun a => (hf a).agree).mono fun _ _ => trivial⟩

instance (xs : List γ) (f g : γ → Emit PUnit) [hf : ∀ a, Agrees R (f a) (g a)] : Agrees R (xs.forM f) (xs.forM g) := by
  induction xs with
  | nil => exact inferInstanceAs (Heeds R (pure PUnit.unit))
  | cons x xs ih => exact inferInstanceAs (Agrees R (f x >>= fun _ => xs.forM f) (g x >>= fun _ => xs.forM g))

instance (xs : List γ) (f g : β → γ → Emit β) [hf : ∀ a b, Agrees R (f a b) (g a b)] (init : β) :
    Agrees R (xs.foldlM f init) (xs.foldlM g init) := by
  induction xs generalizing init with
  | nil => exact inferInstanceAs (Heeds R (pure init))
  | cons x xs ih =>
    rw [List.foldlM_cons, List.foldlM_cons]
    infer_instance

end Instances

end Emit

/-- Whether an instruction that computes something names a function or blocks by their numbers, or makes room for a
variable. -/
def Instr.refers : Instr → Bool
  | .call .. | .phi .. | .alloca .. => true
  | _ => false

section Classes

open Emit Lower

/-- The tables of the program can be asked for something under the regime. -/
class Regime.Requests (R : Regime) : Prop where
  build {α : Type} (x : Build α) [Program.Adding x] [Program.Request x] : Heeds R (build x)

/-- Values can be computed under the regime, as far as no function is called by its number. -/
class Regime.Computes (R : Regime) : Prop extends R.Requests where
  assign (mk : Nat → Instr) (hend : ∀ n, (mk n).isTerminator = false) (hcall : ∀ n, (mk n).refers = false) :
    Heeds R (assign mk)
  globalText (l : Label) : Heeds R (globalText l)
  entryVar (type : MachineType) (nulled : Bool) : Heeds R (entryVar type nulled)
  print (line : String) : Heeds R (print line)
  report (message : String) (line row : Option Int) : Heeds R (report message line row)
  addVariable (scope : Nat) (name : String) (type : Option ValueType) :
    Agree R (addVariable scope name type) (addVariable scope name type) R.Loose
  setSlot {i : Nat} (hi : R.Loose i) (slot : Slot) : Heeds R (modifyVariable i fun v => { v with slot })
  setUsed (i : Nat) (used : Bool) : Heeds R (modifyVariable i fun v => { v with used })

/-- Functions can be called by their numbers. -/
class Regime.Calls (R : Regime) : Prop where
  call (id : Int) (args : List Operand) : Heeds R (assign (.call id args))

/-- Code can go from block to block. -/
class Regime.Branches (R : Regime) : Prop where
  createBlock (label : Option String) : Yields R (createBlock label)
  setBlock (r : BlockRef) [Inside R r] : Heeds R (setBlock r)
  branch (r : BlockRef) [Inside R r] : Heeds R (branch r)
  condBranch (c : Operand) (yes no : BlockRef) [Inside R yes] [Inside R no] : Heeds R (condBranch c yes no)
  ret (v : Operand) : Heeds R (ret v)
  toHandler : Heeds R toHandler

/-- The values in hand and the node in hand can change. -/
class Regime.Notes (R : Regime) : Prop where
  note {u : TreeFrame → TreeFrame} (h : ∀ f, { u f with
    last := f.last, assigned := f.assigned, assignDepth := f.assignDepth, current := f.current } = f) :
    Heeds R (modifyTree u)

end Classes

/-- What a regime has to stand for code to be written. -/
class Regime.Writes (R : Regime) : Prop where
  entry {s : State} : R.Holds s → R.Room s.tree.entry
  stands {s : State} {r : BlockRef} : R.Holds s → s.here.block = some r → R.Room r
  adds {s : State} {q : Program} : R.Holds s → s.program.Adds q → R.Holds (s.withProgram q)
  mapBlock {s : State} {r : BlockRef} (g : Block → Block) :
    R.Holds s → R.Room r → R.Holds (s.withProgram (s.program.mapBlock r g))
  counted {s : State} : R.Holds s →
    R.Holds (s.withProgram (s.program.mapFunc s.here.func fun f => { f with nextValue := f.nextValue + 1 }))
  addBlock {s : State} (label : Option String) : R.Holds s →
    R.Holds (s.withProgram (s.program.mapFunc s.here.func (·.addBlock label))) ∧
      R.Room ⟨s.here.func, (s.program.funcs[s.here.func]?.map (·.blocks.size)).getD 0⟩
  moveTo {s : State} {ref : Option BlockRef} : R.Holds s → (∀ r, ref = some r → R.Room r) →
    R.Holds (s.withProgram { s.program with
      cursors := s.program.cursors.modify s.cursor fun c => { c with block := ref } })

/-- Where nothing is asked of the program, and nothing of blocks. -/
theorem Regime.Writes.of_blind {R : Regime} (hroom : ∀ r, R.Room r)
    (h : ∀ {s : State} (p : Program), R.Holds s → R.Holds (s.withProgram p)) : R.Writes where
  entry _ := hroom _
  stands _ _ := hroom _
  adds hs _ := h _ hs
  mapBlock _ hs _ := h _ hs
  counted hs := h _ hs
  addBlock _ hs := ⟨h _ hs, hroom _⟩
  moveTo hs _ := h _ hs

/-- Nothing goes on after a failure. -/
class Regime.Still (R : Regime) : Prop where
  still {s : State} : ¬R.Gone s := by exact fun h => h

/-- What a regime has to stand for code to be emitted under it while a tree is lowered. -/
class Regime.Plain (R : Regime) : Prop extends R.Writes, R.Still where
  lowerer {s : State} : R.Holds s → s.lowerer = .tree
  /-- What is printed may change, and more may be reported. -/
  printed {s t : State} : R.Holds s → t.program = s.program → t.cursor = s.cursor → t.lowerer = s.lowerer →
    t.tree = s.tree → t.impls = s.impls → t.definitions = s.definitions → t.vars = s.vars → t.scopes = s.scopes →
    s.reports.size ≤ t.reports.size → R.Holds t
  addVariable {s : State} (scope : Nat) (v : Variable) : R.Holds s →
    R.Holds { s with vars := s.vars.push v, scopes := s.scopes.modify scope (·.push s.vars.size) } ∧
      R.Loose s.vars.size
  setSlot {s : State} {i : Nat} (slot : Slot) : R.Holds s → R.Loose i →
    R.Holds { s with vars := s.vars.modify i fun v => { v with slot } }
  setUsed {s : State} (i : Nat) (used : Bool) : R.Holds s →
    R.Holds { s with vars := s.vars.modify i fun v => { v with used } }

/-- What a regime has to stand for a tree to be lowered under it. -/
class Regime.Basic (R : Regime) : Prop extends R.Plain where
  /-- Most of what is known of the tree may change too. -/
  beside {s t : State} : R.Holds s → t.program = s.program → t.cursor = s.cursor → t.lowerer = s.lowerer →
    t.tree.entry = s.tree.entry → t.tree.impl = s.tree.impl → t.tree.scope = s.tree.scope → t.impls = s.impls →
    t.vars = s.vars → t.scopes = s.scopes → R.Holds t
  printed hs hprogram hcursor hlowerer htree himpls _ hvars hscopes _ := beside hs hprogram hcursor hlowerer
    (congrArg TreeFrame.entry htree) (congrArg TreeFrame.impl htree) (congrArg TreeFrame.scope htree) himpls hvars hscopes

/-- Any variable may be given another place. -/
class Regime.Lax (R : Regime) : Prop where
  loose : ∀ i, R.Loose i

namespace Emit

variable {α β : Type} {R : Regime}

section Still

variable [hR : R.Still]

theorem agree_of_same {x y : Emit α} {Q : α → Prop}
    (h : ∀ s, R.Holds s → y s = x s ∧ R.Holds (leftBy (x s)) ∧ ∀ a s', x s = .ok a s' → Q a) : Agree R x y Q := by
  refine ⟨fun s hs => ?_, fun s hs => absurd hs hR.still⟩
  obtain ⟨hsame, hholds, hq⟩ := h s hs
  rw [hsame]
  cases hx : x s with
  | ok a s' =>
    rw [hx] at hholds
    exact ⟨rfl, hholds, hq a s' hx⟩
  | error e s' =>
    rw [hx] at hholds
    exact .inl ⟨rfl, R.falls hholds⟩

theorem agree_of_left {x : Emit α} {Q : α → Prop}
    (h : ∀ s, R.Holds s → R.Holds (leftBy (x s)) ∧ ∀ a s', x s = .ok a s' → Q a) : Agree R x x Q :=
  agree_of_same fun s hs => ⟨rfl, h s hs⟩

theorem heeds_modify {f : State → State} (h : ∀ s, R.Holds s → R.Holds (f s)) : Heeds R (modify f : Emit PUnit) :=
  ⟨agree_of_left fun s hs => ⟨h s hs, fun _ _ _ => trivial⟩⟩

theorem Agree.get_bind {f g : State → Emit β} {P : β → Prop} (hf : ∀ s, R.Holds s → Agree R (f s) (g s) P) :
    Agree R (get >>= f) (get >>= g) P :=
  ⟨fun s hs => (hf s hs).1 s hs, fun _ hs => absurd hs hR.still⟩

theorem heeds_build_of_adds (adds : ∀ {s : State} {q : Program}, R.Holds s → s.program.Adds q → R.Holds (s.withProgram q))
    (x : Build α) [hx : Program.Adding x] : Heeds R (build x) := by
  refine ⟨agree_of_left fun s hs => ⟨?_, fun _ _ _ => trivial⟩⟩
  have hleft : leftBy (build x s) = s.withProgram (leftBy (x s.program)) := by
    rw [build]
    cases x s.program <;> rfl
  rw [hleft]
  exact adds hs (hx.adds s.program)

end Still

section Plain

variable [hR : R.Plain]

theorem Agree.here_bind {f g : Cursor → Emit β} {P : β → Prop}
    (hf : ∀ c : Cursor, (∀ r, c.block = some r → Inside R r) → Agree R (f c) (g c) P) :
    Agree R (here >>= f) (here >>= g) P := by
  refine ⟨fun s hs => ?_, fun s hs => absurd hs hR.still⟩
  rw [here_bind_run, here_bind_run]
  exact (hf s.here fun r hr => ⟨hR.stands hs hr⟩).1 s hs

instance (r : BlockRef) (g : Block → Block) [h : Inside R r] : Heeds R (modifyBlock r g) :=
  heeds_modify fun _ hs => hR.mapBlock g hs h.room

theorem heeds_moveTo {ref : Option BlockRef} (href : ∀ r, ref = some r → Inside R r) : Heeds R (moveTo ref) :=
  heeds_modify fun _ hs => hR.moveTo hs fun r hr => (href r hr).room

instance : Yields R hereBlock := by
  refine ⟨.here_bind fun c hc => ?_⟩
  cases hb : c.block with
  | none => exact .throw _
  | some r => exact .pure (hc r hb).room

instance : Yields R branchSource := by
  refine ⟨.here_bind fun c hc => ?_⟩
  cases hb : c.block with
  | none => exact .throw _
  | some r => exact .pure (hc r hb).room

instance (r : BlockRef) : Heeds R (block r) := by unfold block; infer_instance
instance (r : BlockRef) : Heeds R (blockId r) := by unfold blockId; infer_instance

theorem yields_createBlock (label : Option String) : Yields R (createBlock label) := by
  refine ⟨agree_of_left fun s hs => ?_⟩
  obtain ⟨hholds, hroom⟩ := hR.addBlock label hs
  have hrun : createBlock label s = .ok _ _ := createBlock_eq_ok.2 ⟨rfl, rfl⟩
  rw [hrun]
  refine ⟨hholds, fun r s' hok => ?_⟩
  cases hok
  exact hroom

instance (push : Block → Block × Option Fault) : Heeds R (Emit.write push) := by
  refine ⟨.bind (Meets.agree : Agree R hereBlock _ _) fun r hr => ?_⟩
  have hinside : Inside R r := ⟨hr⟩
  refine .bind (Agrees.agree : Agree R (block r) _ _) fun _ _ => ?_
  refine .bind (Agrees.agree : Agree R (modifyBlock r _) _ _) fun _ _ => ?_
  split
  · exact .throw _
  · exact .pure trivial

theorem heeds_assign (mk : Nat → Instr) : Heeds R (assign mk) := by
  refine ⟨.bind (Meets.agree : Agree R hereBlock _ _) fun _ _ => ⟨fun s hs => ?_, fun s hs => absurd hs hR.still⟩⟩
  rw [here_bind_run, get_bind_run]
  cases hf : s.program.funcs[s.here.func]? with
  | none =>
    have hplace : Heeds R (do placeFields (mk 0).fields.dropLast; throw .noMember : Emit Operand) := inferInstance
    exact hplace.agree.1 s hs
  | some f =>
    dsimp only
    have hplaced := (inferInstance : Heeds R (place (mk f.nextValue))).agree.1 s hs
    cases h : place (mk f.nextValue) s with
    | error e s1 =>
      rw [h] at hplaced
      rw [bind_eq_error.2 (.inl h)]
      exact hplaced.imp (fun hfallen => ⟨rfl, hfallen.2⟩) id
    | ok u s1 =>
      rw [h] at hplaced
      rw [bind_run_of_ok h]
      have hhere : s1.here = s.here := by
        obtain ⟨ref, -, -, rfl⟩ := place_eq_ok.1 h
        rfl
      rw [← hhere]
      exact ⟨rfl, hR.counted hplaced.2.1, trivial⟩

instance (i : Instr) : Heeds R (leave i) := by unfold leave; infer_instance
instance : Heeds R retVoid := by unfold retVoid; infer_instance

instance (priority := low) (target : BlockRef) : Heeds R (branch target) := by
  have hgoes : ∀ (s : State) (r : Room R), Heeds R (match s.program.funcs[target.func]? with
      | some _ => do
        place (.branch (← blockId target))
        modifyBlock r.ref fun b => { b with branches := b.branches.push target, locked := true }
      | none => placeFields [.count 150, .defect .noMember] : Emit Unit) := by
    intro s r
    cases s.program.funcs[target.func]? <;> infer_instance
  unfold branch
  infer_instance

instance (priority := low) (c : Operand) (yes no : BlockRef) : Heeds R (condBranch c yes no) := by
  unfold condBranch; infer_instance

theorem yields_entryBlock : Yields R entryBlock := by
  refine ⟨.get_bind fun s hs => ?_⟩
  rw [hR.lowerer hs]
  exact .pure (hR.entry hs)

/-- A new variable is allocated in the entry block, and the cursor goes back to where it was. -/
theorem heeds_entryVar (type : MachineType) (nulled : Bool) : Heeds R (entryVar type nulled) := by
  refine ⟨.bind yields_entryBlock.agree fun entry hentry => ?_⟩
  have hassign : ∀ mk : Nat → Instr, Heeds R (assign mk) := heeds_assign
  have henter : Heeds R (moveTo (some entry)) := heeds_moveTo fun _ hr => Option.some.inj hr ▸ ⟨hentry⟩
  have hback : Agree R hereBlock? hereBlock? fun back => ∀ r, back = some r → Inside R r :=
    .here_bind fun c hc => .pure hc
  refine hback.bind fun back hback => .bind henter.agree fun _ _ => ?_
  have hmove : Heeds R (moveTo back) := heeds_moveTo hback
  unfold alloca null store
  exact Agrees.agree

instance : R.Computes where
  build x := heeds_build_of_adds hR.adds x
  assign mk _ _ := heeds_assign mk
  globalText l := by
    have hassign : Heeds R (assign (.globalText l.text?)) := heeds_assign _
    unfold globalText
    infer_instance
  entryVar := heeds_entryVar
  print _ := heeds_modify fun _ hs => hR.printed hs rfl rfl rfl rfl rfl rfl rfl rfl (Nat.le_refl _)
  report _ _ _ := heeds_modify fun _ hs => hR.printed hs rfl rfl rfl rfl rfl rfl rfl rfl (by simp)
  addVariable scope name type := by
    have hknown : Heeds R (known type) := by cases type <;> unfold known <;> infer_instance
    refine hknown.agree.bind fun t _ => agree_of_left fun s hs => ?_
    obtain ⟨hholds, hloose⟩ := hR.addVariable scope
      { id := (s.scopes[scope]?.getD #[]).size, name, type := t.stored, scope := some scope } hs
    refine ⟨hholds, fun i s' hok => ?_⟩
    cases hok
    exact hloose
  setSlot hi slot := heeds_modify fun _ hs => hR.setSlot slot hs hi
  setUsed i used := heeds_modify fun _ hs => hR.setUsed i used hs

instance : R.Calls := ⟨fun _ _ => heeds_assign _⟩

instance : R.Branches where
  createBlock := yields_createBlock
  setBlock _ h := heeds_moveTo fun _ hr => Option.some.inj hr ▸ h
  branch _ _ := inferInstance
  condBranch _ _ _ _ _ := inferInstance
  ret v := by unfold ret; infer_instance
  toHandler := by
    have hnull : Heeds R retNull := by unfold retNull; infer_instance
    refine ⟨.get_bind fun s hs => ?_⟩
    rw [hR.lowerer hs]
    dsimp only
    split <;> exact Agrees.agree

end Plain

instance [hR : R.Basic] : R.Notes where
  note h := by
    refine heeds_modify fun s hs => ?_
    have hentry := congrArg TreeFrame.entry (h s.tree)
    have himpl := congrArg TreeFrame.impl (h s.tree)
    have hscope := congrArg TreeFrame.scope (h s.tree)
    exact hR.beside hs rfl rfl rfl hentry himpl hscope rfl rfl rfl

section Atoms

instance [hR : R.Requests] (x : Build α) [Program.Adding x] [Program.Request x] : Heeds R (build x) := hR.build x

variable [hC : R.Computes] [hB : R.Branches]

instance (l : Label) : Heeds R (globalText l) := hC.globalText l
instance (type : MachineType) (nulled : Bool) : Heeds R (entryVar type nulled) := hC.entryVar type nulled
instance (line : String) : Heeds R (print line) := hC.print line
instance (message : String) (line row : Option Int) : Heeds R (report message line row) := hC.report message line row
instance (label : Option String) : Yields R (createBlock label) := hB.createBlock label
instance (r : BlockRef) [Inside R r] : Heeds R (setBlock r) := hB.setBlock r
instance (r : BlockRef) [Inside R r] : Heeds R (branch r) := hB.branch r
instance (c : Operand) (yes no : BlockRef) [Inside R yes] [Inside R no] : Heeds R (condBranch c yes no) :=
  hB.condBranch c yes no
instance (v : Operand) : Heeds R (ret v) := hB.ret v
instance : Heeds R toHandler := hB.toHandler

end Atoms

end Emit

/-- What is kept by actions that are completed, while code goes to some blocks. -/
def Regime.lasting (I : State → Prop) (room : BlockRef → Prop := fun _ => True) : Regime where
  Holds := I
  Room := room
  Loose _ := True
  Fallen _ := True

namespace Emit

open Lower

variable {α : Type} {I : State → Prop} {room : BlockRef → Prop}

instance : (Regime.lasting I room).Lax := ⟨fun _ => trivial⟩

theorem agree_lasting {x : Emit α} {Q : α → Prop}
    (h : ∀ {s s' : State} {a : α}, I s → x s = .ok a s' → I s' ∧ Q a) : Agree (.lasting I room) x x Q :=
  agree_of_ok (fun _ => trivial) (fun _ => id) h

theorem heeds_lasting {x : Emit α} (h : ∀ {s s' : State} {a : α}, I s → x s = .ok a s' → I s') :
    Heeds (.lasting I room) x :=
  heeds_of_ok (fun _ => trivial) (fun _ => id) h

theorem heeds_slotBody {R : Regime} {type : MachineType} {nulled : Bool} (h : ∀ mk : Nat → Instr,
    (∀ n, (mk n).isTerminator = false) → (∀ n, (mk n).targets = []) → Heeds R (assign mk)) : Heeds R (slotBody type nulled) := by
  have := h (.alloca type) (fun _ => rfl) fun _ => rfl
  have := h (.null type) (fun _ => rfl) fun _ => rfl
  have := fun zero address => h (.store zero address) (fun _ => rfl) fun _ => rfl
  unfold slotBody alloca null store
  infer_instance

end Emit

open Emit Lower in
/-- Values can be computed if what is kept does not depend on what is printed and on the variables. -/
theorem Regime.computes_of_same {I : State → Prop} {room : BlockRef → Prop}
    (same : ∀ {s s' : State}, I s → s'.program = s.program → s'.cursor = s.cursor →
      s'.lowerer = s.lowerer → s'.tree = s.tree → s'.stack = s.stack → s'.impls = s.impls → I s')
    (build : ∀ {α : Type} (x : Build α) [Program.Adding x] [Program.Request x], Heeds (.lasting I room) (build x))
    (assign : ∀ mk : Nat → Instr, (∀ n, (mk n).isTerminator = false) → (∀ n, (mk n).refers = false) →
      Heeds (.lasting I room) (assign mk))
    (entryVar : ∀ type nulled, Heeds (.lasting I room) (entryVar type nulled)) : (Regime.lasting I room).Computes where
  build := build
  assign := assign
  globalText l := heeds_lasting fun hs h =>
    (assign (.globalText l.text?) (fun _ => rfl) fun _ => rfl).holds_of_ok hs (globalText_eq_ok.1 h).2 |>.2
  entryVar := entryVar
  print _ := heeds_lasting fun hs h => by cases h; exact same hs rfl rfl rfl rfl rfl rfl
  report _ _ _ := heeds_lasting fun hs h => by cases h; exact same hs rfl rfl rfl rfl rfl rfl
  addVariable scope name type := by
    refine (heeds_lasting fun hs h => ?_).agree
    cases type with
    | none => cases h
    | some t => cases h; exact same hs rfl rfl rfl rfl rfl rfl
  setSlot _ _ := heeds_lasting fun hs h => by cases h; exact same hs rfl rfl rfl rfl rfl rfl
  setUsed _ _ := heeds_lasting fun hs h => by cases h; exact same hs rfl rfl rfl rfl rfl rfl

end Lowering
