import Lowering.Proofs.Twins.Numbers

/-!
The code that binds the arguments of a call: what it adds to the block in hand, for either way of being
called.
-/
namespace Lowering

theorem modify_congr {α : Type} {xs : Array α} {i : Nat} {f g : α → α} (h : ∀ a, xs[i]? = some a → f a = g a) :
    xs.modify i f = xs.modify i g := by
  apply Array.ext_getElem?
  intro j
  simp only [Array.getElem?_modify]
  split
  next hij =>
    subst hij
    cases hx : xs[i]? with
    | none => rfl
    | some a => rw [Option.map_some, Option.map_some, h a hx]
  next => rfl

/-- The function with instructions that compute values added to a block. -/
def Func.append (f : Func) (k : Nat) (is : List Instr) : Func :=
  { f with
    blocks := f.blocks.modify k fun b => { b with items := b.items ++ (is.map Item.instr).toArray }
    nextValue := f.nextValue + is.length }

theorem Func.getElem?_append (f : Func) (k : Nat) (is : List Instr) (j : Nat) : (f.append k is).blocks[j]? =
      if k = j then f.blocks[j]?.map fun b => { b with items := b.items ++ (is.map Item.instr).toArray }
      else f.blocks[j]? :=
  Array.getElem?_modify ..

theorem Func.size_append (f : Func) (k : Nat) (is : List Instr) : (f.append k is).blocks.size = f.blocks.size :=
  Array.size_modify

theorem Func.append_append (f : Func) (k : Nat) (is js : List Instr) :
    (f.append k is).append k js = f.append k (is ++ js) := by
  simp only [append, List.map_append, List.length_append, Nat.add_assoc, Func.mk.injEq, true_and, and_true]
  apply Array.ext_getElem?
  intro j
  simp only [Array.getElem?_modify]
  split <;> simp [Function.comp_def]

theorem Func.append_singleton {f : Func} {k : Nat} {i : Instr}
    (hopen : ∀ b : Block, f.blocks[k]? = some b → b.locked = false) (hw : i.Whole) :
    f.append k [i] = { f with blocks := f.blocks.modify k fun b => (b.push i).1, nextValue := f.nextValue + 1 } := by
  rw [append]
  congr 1
  refine modify_congr fun b hb => ?_
  have hlocked := hopen b hb
  rw [Block.push_of_unlocked hlocked (by rwa [hlocked])]
  simp

theorem Func.Numbered.append {f : Func} {k : Nat} {is : List Instr} (h : f.Numbered)
    (hopen : ∀ b : Block, f.blocks[k]? = some b → b.locked = false)
    (his : ∀ (j : Nat) (i : Instr), is[j]? = some i → i.Whole ∧ i.result? = some (f.nextValue + j)) :
    (f.append k is).Numbered := by
  induction is generalizing f with
  | nil =>
    refine h.of_resultAt rfl rfl fun k' j n hn => ?_
    rcases resultAt_modify hn with hn | ⟨rfl, b, hb, hn⟩
    · exact hn
    · rw [resultAt, hb]
      simpa using hn
  | cons i is ih =>
    obtain ⟨hw, hresult⟩ := his 0 i rfl
    have hone : (f.append k [i]).Numbered := by
      rw [append_singleton hopen hw]
      exact h.pushValue hresult fun b hb => by rw [hopen b hb]; exact hw
    rw [show i :: is = [i] ++ is from rfl, ← append_append]
    refine ih hone (fun b hb => ?_) fun j i' hi' => ?_
    · simp only [Func.append, Array.getElem?_modify, if_true] at hb
      obtain ⟨b', hb', rfl⟩ := Option.map_eq_some_iff.1 hb
      exact hopen b' hb'
    · have hnext := his (j + 1) i' hi'
      rwa [Nat.add_comm j 1, ← Nat.add_assoc] at hnext

namespace Twins

open Emit

variable {s s' : State} {f k n : Nat} {is js : List Instr} {v : Operand}

/-- The state with instructions that compute values added to a block. -/
def appended (s : State) (f k : Nat) (is : List Instr) : State :=
  s.withProgram (s.program.mapFunc f (·.append k is))

theorem appended_appended (s : State) (f k : Nat) (is js : List Instr) :
    appended (appended s f k is) f k js = appended s f k (is ++ js) := by
  simp only [appended, State.withProgram, Program.mapFunc_mapFunc, Func.append_append]

/-- Code goes to an open block of a function, which holds these instructions, and the next value has the
number `n`. -/
structure Stands (s : State) (f k n : Nat) (is : List Instr) : Prop where
  here : s.here = { func := f, block := some ⟨f, k⟩ }
  func : ∃ g : Func, s.program.funcs[f]? = some g ∧ g.nextValue = n ∧
    ∃ b : Block, g.blocks[k]? = some b ∧ b.items.toList = is.map .instr ∧ b.locked = false

namespace Stands

theorem appended (hs : Stands s f k n is) (js : List Instr) :
    Stands (appended s f k js) f k (n + js.length) (is ++ js) := by
  obtain ⟨g, hg, rfl, b, hb, hitems, hlocked⟩ := hs.func
  refine ⟨hs.here, g.append k js, Program.getElem?_mapFunc_self hg, rfl,
    { b with items := b.items ++ (js.map Item.instr).toArray }, ?_, ?_, hlocked⟩
  · simp [Func.append, Array.getElem?_modify, hb]
  · simp [hitems]

theorem of_same (hs : Stands s f k n is) (hprogram : s'.program = s.program) (hcursor : s'.cursor = s.cursor) :
    Stands s' f k n is := by
  refine ⟨?_, hprogram ▸ hs.func⟩
  rw [State.here, hprogram, hcursor]
  exact hs.here

theorem assign_eq_ok {mk : Nat → Instr} (hs : Stands s f k n is) :
    assign mk s = .ok v s' ↔ (mk n).Whole ∧ v = .id n ∧ s' = Twins.appended s f k [mk n] := by
  obtain ⟨g, hg, rfl, b, hb, -, hlocked⟩ := hs.func
  have hblock : (s.program.block ⟨f, k⟩).locked = false := by
    rw [Program.block, Program.blockAt, hg, Option.bind_some, hb]
    exact hlocked
  have happended (hw : (mk g.nextValue).Whole) :
      s.withProgram (pushValue s.program f ⟨f, k⟩ (mk g.nextValue)) = Twins.appended s f k [mk g.nextValue] := by
    rw [Twins.appended, pushValue_eq_mapFunc (i := f) (r := ⟨f, k⟩) _ _ rfl, Program.mapFunc, Program.mapFunc]
    congr 2
    refine modify_congr fun g' hg' => ?_
    cases hg.symm.trans hg'
    refine (Func.append_singleton (fun b' hb' => ?_) hw).symm
    cases hb.symm.trans hb'
    exact hlocked
  rw [Emit.assign_eq_ok, hs.here]
  constructor
  · rintro ⟨ref, g', href, hg', hw, rfl, rfl⟩
    cases href
    cases hg.symm.trans hg'
    rw [hblock] at hw
    exact ⟨hw, rfl, happended hw⟩
  · rintro ⟨hw, rfl, rfl⟩
    exact ⟨_, g, rfl, hg, by rwa [hblock], rfl, (happended hw).symm⟩

end Stands

section Code

/-- The place of an argument in a tuple. -/
def tupleCode (type : MachineType) (i c : Nat) : List Instr :=
  [.int64 (.id i) c, .cast .pointer 1 type.pointerTo (c + 1), .int64 (.id 3) (c + 2),
    .binary .add (.id c) (.id (c + 2 : Nat)) (c + 3), .element type (.id (c + 1 : Nat)) [.id (c + 3 : Nat)] (c + 4)]

/-- The place of an argument in a vector. -/
def vectorCode (type : MachineType) (i c : Nat) : List Instr := [.int64 (.id i) c, .element type 1 [.id c] (c + 1)]

/-- The code for arguments one after the other, each with the number that is counted to. -/
def prologue (code : MachineType → Nat → Nat → List Instr) (type : MachineType) : Nat → List Nat → List Instr
  | _, [] => []
  | i, c :: cs => code type i c ++ prologue code type (i + 1) cs

end Code

theorem objectPtr_eq_ok {type : MachineType} :
    objectPtr s = .ok type s' ↔ Program.objectPtr s.program = .ok type s.program ∧ s' = s := by
  constructor
  · intro h
    obtain ⟨p, hobject, rfl⟩ := build_eq_ok.1 h
    obtain ⟨rfl, -⟩ := Program.Settled.ok_of_ok rfl rfl hobject
    exact ⟨hobject, rfl⟩
  · rintro ⟨hobject, rfl⟩
    exact build_eq_ok.2 ⟨_, hobject, rfl⟩

theorem objectPtr_of_appended {type : MachineType}
    (h : Program.objectPtr (appended s f k is).program = .ok type (appended s f k is).program) :
    Program.objectPtr s.program = .ok type s.program := by
  have hknown : s.program.known = (appended s f k is).program.known := rfl
  exact (Program.Settled.ok_of_ok hknown rfl h).2

/-- The place where a call by tuple puts an argument. -/
@[reducible] def tuplePlace (i : Nat) : Emit Operand := do
  let index ← int64 i
  tupleItemPtr 1 index

/-- The place where a call by vector puts an argument. -/
@[reducible] def vectorPlace (i : Nat) : Emit Operand := do
  let ptr ← objectPtr
  let index ← int64 i
  element 1 ptr [index]

theorem Stands.tuplePlace_eq_ok {i : Nat} (hs : Stands s f k n is) (h : tuplePlace i s = .ok v s') :
    ∃ type, Program.objectPtr s.program = .ok type s.program ∧ (∀ j ∈ tupleCode type i n, j.Whole) ∧
      v = .id (n + 4 : Nat) ∧ s' = Twins.appended s f k (tupleCode type i n) := by
  obtain ⟨index, s1, hindex, hitem⟩ := bind_eq_ok.1 h
  obtain ⟨hw1, rfl, hs1⟩ := hs.assign_eq_ok.1 hindex
  have hstands1 : Stands s1 f k (n + 1) _ := hs1 ▸ hs.appended _
  obtain ⟨type, s2, hget, hcast⟩ := bind_eq_ok.1 hitem
  obtain ⟨hobject, rfl⟩ := objectPtr_eq_ok.1 hget
  obtain ⟨content, s3, hcontent, hafter3⟩ := bind_eq_ok.1 hcast
  obtain ⟨hw2, rfl, hs3⟩ := hstands1.assign_eq_ok.1 hcontent
  have hstands3 : Stands s3 f k (n + 2) _ := hs3 ▸ hstands1.appended _
  obtain ⟨three, s4, hthree, hafter4⟩ := bind_eq_ok.1 hafter3
  obtain ⟨hw3, rfl, hs4⟩ := hstands3.assign_eq_ok.1 hthree
  have hstands4 : Stands s4 f k (n + 3) _ := hs4 ▸ hstands3.appended _
  obtain ⟨place, s5, hplace, hafter5⟩ := bind_eq_ok.1 hafter4
  obtain ⟨hw4, rfl, hs5⟩ := hstands4.assign_eq_ok.1 hplace
  have hstands5 : Stands s5 f k (n + 4) _ := hs5 ▸ hstands4.appended _
  obtain ⟨type', s6, hget', helement⟩ := bind_eq_ok.1 hafter5
  obtain ⟨hobject', rfl⟩ := objectPtr_eq_ok.1 hget'
  obtain ⟨hw5, rfl, hs'⟩ := hstands5.assign_eq_ok.1 helement
  have hfirst : Program.objectPtr s.program = .ok type s.program := objectPtr_of_appended (hs1 ▸ hobject)
  have hagain : Program.objectPtr s.program = .ok type' s.program := by
    rw [hs5, hs4, hs3, hs1] at hobject'
    simp only [appended_appended] at hobject'
    exact objectPtr_of_appended hobject'
  cases hagain.symm.trans hfirst
  refine ⟨type, hfirst, ?_, rfl, ?_⟩
  · simp only [tupleCode, List.forall_mem_cons]
    exact ⟨hw1, hw2, hw3, hw4, hw5, by simp⟩
  · rw [hs', hs5, hs4, hs3, hs1]
    simp only [appended_appended]
    rfl

theorem Stands.vectorPlace_eq_ok {i : Nat} {type : MachineType} (hs : Stands s f k n is)
    (hobject : Program.objectPtr s.program = .ok type s.program) (hw : ∀ j ∈ vectorCode type i n, j.Whole) :
    vectorPlace i s = .ok (.id (n + 1 : Nat)) (Twins.appended s f k (vectorCode type i n)) := by
  simp only [vectorCode, List.forall_mem_cons] at hw
  obtain ⟨hw1, hw2, -⟩ := hw
  refine bind_eq_ok.2 ⟨type, s, objectPtr_eq_ok.2 ⟨hobject, rfl⟩, ?_⟩
  refine bind_eq_ok.2 ⟨_, _, hs.assign_eq_ok.2 ⟨hw1, rfl, rfl⟩, ?_⟩
  refine (hs.appended _).assign_eq_ok.2 ⟨hw2, rfl, ?_⟩
  rw [appended_appended]
  rfl

theorem lt_of_fits {n : Nat} (h : fitsSigned 4 n = true) : n < 2 ^ 31 := by
  have hrange : byteRange 4 = 2 ^ 32 := rfl
  simp only [fitsSigned, hrange, Bool.and_eq_true, decide_eq_true_eq] at h
  omega

theorem whole_vectorCode {type : MachineType} {i c c' : Nat} (hw : ∀ j ∈ tupleCode type i c, j.Whole)
    (hc : c' ≤ c + 1) : c + 4 < 2 ^ 31 ∧ ∀ j ∈ vectorCode type i c', j.Whole := by
  simp only [tupleCode, List.forall_mem_cons, Instr.whole_iff, Instr.fields, List.cons_append,
    List.forall_mem_append, List.map_cons, List.map_nil, Field.fits_count] at hw
  obtain ⟨⟨hint, hindex, -⟩, -, -, -, ⟨helement, ⟨htype, -⟩, hlast, -⟩, -⟩ := hw
  have hlt := lt_of_fits hlast
  have hfits : ∀ n : Nat, n ≤ c + 4 → fitsSigned 4 n = true := fun n hn => fitsSigned_of_lt (by omega)
  refine ⟨hlt, ?_⟩
  simp only [vectorCode, List.forall_mem_cons, Instr.whole_iff, Instr.fields, List.cons_append,
    List.forall_mem_append, List.map_cons, List.map_nil, Field.fits_count, Field.fits_word_id]
  exact ⟨⟨hint, hindex, hfits _ (by omega), by simp⟩,
    ⟨helement, ⟨htype, by decide, hfits 1 (by omega), hfits _ (by omega), by simp⟩, hfits _ (by omega), by simp⟩, by simp⟩

section Variables

open Lower

theorem Stands.cursor_eq (hs : Stands s f k n is) :
    s.program.cursors[s.cursor]? = some { func := f, block := some ⟨f, k⟩ } := by
  have hhere := hs.here
  rw [State.here] at hhere
  cases hc : s.program.cursors[s.cursor]? with
  | none =>
    rw [hc] at hhere
    cases hhere
  | some c =>
    rw [hc] at hhere
    rw [← hhere]
    rfl

theorem Stands.entryVar {type : MachineType} {e : Nat} (hs : Stands s f k n is) (hlowerer : s.lowerer = .tree)
    (hentry : s.tree.entry = ⟨f, e⟩) (he : e ≠ k) (h : entryVar type false s = .ok v s') :
    Stands s' f k (n + 1) is ∧ s'.lowerer = .tree ∧ s'.tree = s.tree := by
  obtain ⟨g, hg, rfl, b, hb, hitems, hlocked⟩ := hs.func
  have hc := hs.cursor_eq
  obtain ⟨_, s3, s4, hblock, hmove, hbody, hreturn⟩ := entryVar_eq_ok.1 h
  rw [entryBlock, get_bind_run, hlowerer] at hblock
  obtain ⟨rfl, -⟩ := pure_eq_ok.1 hblock
  have hs3 := moveTo_eq_ok.1 hmove
  have hhere3 : s3.here = { func := f, block := some ⟨f, e⟩ } := by
    rw [hs3, State.here]
    simp [State.withProgram, Array.getElem?_modify, hc, hentry]
  obtain ⟨address, _, hassign, hlast⟩ := bind_eq_ok.1 hbody
  obtain ⟨-, rfl⟩ := pure_eq_ok.1 hlast
  obtain ⟨ref, g', href, -, -, rfl, hs4⟩ := Emit.assign_eq_ok.1 hassign
  rw [hhere3] at href hs4
  cases href
  rw [pushValue_eq_mapFunc (i := f) (r := ⟨f, e⟩) _ _ rfl] at hs4
  have hs5 := moveTo_eq_ok.1 hreturn
  subst hs3 hs4 hs5
  refine ⟨⟨?_, ?_⟩, hlowerer, rfl⟩
  · simp [State.here, State.withProgram, Program.mapFunc, Array.getElem?_modify, hc]
  · refine ⟨_, Program.getElem?_mapFunc_self hg, rfl, b, ?_, hitems, hlocked⟩
    simp only [Array.getElem?_modify, if_neg he, hb]

theorem state_of_variableAt {scope i : Nat} {place : Int} (h : variableAt scope place s = .ok i s') : s' = s := by
  unfold variableAt at h
  rw [get_bind_run] at h
  generalize (s.scopes[scope]?.getD #[])[(_ : Nat)]? = found at h
  cases found with
  | none => exact absurd h throw_ne_ok
  | some j =>
    dsimp only at h
    split at h
    · exact absurd h throw_ne_ok
    · exact (pure_eq_ok.1 h).2

theorem Stands.modifyVariable {i : Nat} {g : Variable → Variable} {u : Unit} (hs : Stands s f k n is)
    (h : modifyVariable i g s = .ok u s') : Stands s' f k n is ∧ s'.lowerer = s.lowerer ∧ s'.tree = s.tree := by
  cases h
  exact ⟨hs.of_same rfl rfl, rfl, rfl⟩

/-- The block that code goes to stays as it was when a variable is looked up or made. -/
theorem Stands.variableFor {name : Label} {i e : Nat} (hs : Stands s f k n is) (hlowerer : s.lowerer = .tree)
    (hentry : s.tree.entry = ⟨f, e⟩) (he : e ≠ k) (h : variableFor name s = .ok i s') :
    (∃ n', n ≤ n' ∧ Stands s' f k n' is) ∧ s'.lowerer = .tree ∧ s'.tree = s.tree := by
  have hstay : s' = s → (∃ n', n ≤ n' ∧ Stands s' f k n' is) ∧ s'.lowerer = .tree ∧ s'.tree = s.tree := by
    rintro rfl
    exact ⟨⟨n, Nat.le_refl n, hs⟩, hlowerer, rfl⟩
  unfold Lower.variableFor at h
  obtain ⟨scope, s1, hscope, hfor⟩ := bind_eq_ok.1 h
  obtain rfl : s1 = s := by
    rw [lookupScope, get_bind_run, hlowerer] at hscope
    exact (pure_eq_ok.1 hscope).2
  cases htext : name.text? with
  | none =>
    rw [htext] at hfor
    cases hnumber : name.number? with
    | none =>
      rw [hnumber] at hfor
      exact absurd hfor throw_ne_ok
    | some place =>
      rw [hnumber] at hfor
      exact hstay (state_of_variableAt hfor)
  | some text =>
    rw [htext] at hfor
    obtain ⟨found, s2, hfind, hmake⟩ := bind_eq_ok.1 hfor
    obtain ⟨hfound, rfl⟩ := pure_eq_ok.1 hfind
    cases found with
    | some j => exact hstay (pure_eq_ok.1 hmake).2
    | none =>
      obtain ⟨j, s3, hadd, hrest⟩ := bind_eq_ok.1 hmake
      have hsame : s3.program = s2.program ∧ s3.cursor = s2.cursor ∧ s3.lowerer = .tree ∧ s3.tree = s2.tree := by
        cases hadd
        exact ⟨rfl, rfl, hlowerer, rfl⟩
      obtain ⟨hprogram, hcursor, hlowerer3, htree3⟩ := hsame
      obtain ⟨type, s4, hget, hrest4⟩ := bind_eq_ok.1 hrest
      obtain ⟨-, rfl⟩ := objectPtr_eq_ok.1 hget
      obtain ⟨address, s5, hvar, hrest5⟩ := bind_eq_ok.1 hrest4
      obtain ⟨hs5, hmade⟩ := (hs.of_same hprogram hcursor).entryVar hlowerer3 (htree3 ▸ hentry) he hvar
      obtain ⟨_, s6, hmodify, hlast⟩ := bind_eq_ok.1 hrest5
      obtain ⟨hs6, hlowerer6, htree6⟩ := hs5.modifyVariable hmodify
      obtain ⟨-, rfl⟩ := pure_eq_ok.1 hlast
      exact ⟨⟨n + 1, Nat.le_succ n, hs6⟩, hlowerer6.trans hmade.1, htree6.trans (hmade.2.trans htree3)⟩

/-- Binds a parameter to the place of an argument. -/
def bindAt (place : Nat → Emit Operand) (i : Nat) (param : Node) : Emit Unit := do
  let v ← variableFor (← parameterName param)
  let address ← place i
  modifyVariable v fun v => { v with slot := .value address }

/-- Binds parameters to the places of arguments, from one on. -/
def bindFrom (place : Nat → Emit Operand) : Nat → List Node → Emit Unit
  | _, [] => return ()
  | i, param :: params => do
    bindAt place i param
    bindFrom place (i + 1) params

theorem forIn_eq_bindFrom (place : Nat → Emit Operand) (params : List Node) (i : Nat) :
    (forIn (params.zipIdx i) PUnit.unit fun (e : Node × Nat) _ => do
      bindAt place e.2 e.1
      return ForInStep.yield PUnit.unit) = bindFrom place i params := by
  induction params generalizing i with
  | nil => rfl
  | cons param params ih =>
    rw [List.zipIdx_cons, List.forIn_cons, bindFrom, bind_assoc, ← ih]
    simp only [pure_bind]

theorem bindArguments_tuple (params : List Node) : bindArguments .tuple params = bindFrom tuplePlace 0 params := by
  rw [← forIn_eq_bindFrom]
  simp only [bindArguments, bindAt, tuplePlace, bind_assoc]
  exact bind_pure _

theorem bindArguments_vector (params : List Node) : bindArguments .vector params = bindFrom vectorPlace 0 params := by
  rw [← forIn_eq_bindFrom]
  simp only [bindArguments, bindAt, vectorPlace, bind_assoc]
  exact bind_pure _

end Variables

end Twins
end Lowering
