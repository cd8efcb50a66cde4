import Lowering.Proofs.Compiling
import Lowering.Proofs.StreamReader

/-!
What a completed compilation writes: values are numbered in range and once only, and everything that the
code, the signatures and the variables refer to is in the tables of the stream.
-/
namespace Lowering

theorem Field.Writes.exists_bytes {fs : List Field} {bs : Bytes} (h : Writes fs bs) :
    ∀ f ∈ fs, ∃ bs, f.bytes = .ok bs := by
  induction fs generalizing bs with
  | nil => simp
  | cons f fs ih =>
    obtain ⟨b, rest, hb, hrest, -⟩ := writes_cons_iff.1 h
    exact List.forall_mem_cons.2 ⟨⟨b, hb⟩, ih hrest⟩

namespace Instr

variable {i : Instr}

theorem word_mem_fields {v : Operand} (h : v ∈ i.uses) : .word v ∈ i.fields := by
  cases i <;> simp_all [uses, fields]
  all_goals grind

theorem Whole.toInt?_of_uses (hi : i.Whole) {v : Operand} (h : v ∈ i.uses) : ∃ n, v.toInt? = some n := by
  have hwrites : Field.Writes i.fields i.bytes := Prod.ext rfl hi
  obtain ⟨bs, hbs⟩ := hwrites.exists_bytes _ (word_mem_fields h)
  cases hv : v.toInt? with
  | some n => exact ⟨n, rfl⟩
  | none =>
    rw [Field.bytes, Field.integer, hv] at hbs
    cases hbs

end Instr

theorem Block.Shaped.whole {b : Block} (h : b.Shaped) {i : Instr} (hi : .instr i ∈ b.items) : i.Whole := by
  rcases h with ⟨body, hopen⟩ | ⟨body, last, hended⟩
  · have hmem : Item.instr i ∈ body.map Item.instr := hopen.items ▸ hi.val
    obtain ⟨j, hj, heq⟩ := List.mem_map.1 hmem
    cases heq
    exact (hopen.plain i hj).whole
  · have hmem : Item.instr i ∈ (body ++ [last]).map Item.instr := hended.items ▸ hi.val
    obtain ⟨j, hj, heq⟩ := List.mem_map.1 hmem
    cases heq
    rcases List.mem_append.1 hj with hj | hj
    · exact (hended.plain i hj).whole
    · cases List.mem_singleton.1 hj
      exact hended.final.whole

namespace Program

variable {p : Program}

/-- When every entry of a table is there, the entries keep their places. -/
theorem getElem?_filterMap {α β : Type} {f : α → Option β} {xs : List α}
    (h : ∀ x ∈ xs, ∃ y, f x = some y) (k : Nat) : (xs.filterMap f)[k]? = xs[k]?.bind f := by
  induction xs generalizing k with
  | nil => rfl
  | cons x xs ih =>
    obtain ⟨⟨y, hy⟩, hxs⟩ := List.forall_mem_cons.1 h
    rw [List.filterMap_cons_some hy]
    cases k with
    | zero => exact hy.symm
    | succ k => exact ih hxs k

theorem Sound.getElem?_listedFuncs (hp : p.Sound) (k : Nat) : p.listedFuncs[k]? = p.funcs[k]? := by
  have hthere : ∀ e ∈ p.funcTable.toList, ∃ f, p.funcs[e.2]? = some f := fun e he =>
    (hp.table (Array.mem_toList_iff.1 he)).imp fun _ hf => hf.1
  rw [listedFuncs, getElem?_filterMap hthere, Array.getElem?_toList]
  cases hf : p.funcs[k]? with
  | none =>
    have hnone : p.funcTable[k]? = none := by
      rw [Array.getElem?_eq_none_iff] at hf ⊢
      rwa [hp.size]
    rw [hnone, Option.bind_none]
  | some f => rw [(hp.listed k f hf).2, Option.bind_some, hf]

theorem Placed.getElem?_listedGlobals (hp : Placed p.globals p.globalTable) (k : Nat) :
    p.listedGlobals[k]? = p.globalTable[k]?.bind fun e => p.globals[e.2]? := by
  rw [listedGlobals, getElem?_filterMap, Array.getElem?_toList]
  intro e he
  obtain ⟨k, hk⟩ := List.getElem?_of_mem he
  obtain ⟨g, hg, -⟩ := hp.number k e (by rwa [Array.getElem?_toList] at hk)
  exact ⟨g, hg⟩

theorem Placed.length_listedGlobals (hp : Placed p.globals p.globalTable) :
    p.listedGlobals.length = p.globalTable.size := by
  rw [listedGlobals, List.filterMap_length_eq_length.2, Array.length_toList]
  intro e he
  obtain ⟨k, hk⟩ := List.getElem?_of_mem he
  obtain ⟨g, hg, -⟩ := hp.number k e (by rwa [Array.getElem?_toList] at hk)
  rw [hg]
  rfl

theorem Laid.length_listedStructs (hp : p.Laid) : p.listedStructs.length = p.structTable.size := by
  rw [listedStructs, List.filterMap_length_eq_length.2, Array.length_toList]
  intro i hi
  obtain ⟨k, hk⟩ := List.getElem?_of_mem hi
  obtain ⟨t, ht⟩ := hp.listed k i (by rwa [Array.getElem?_toList] at hk)
  rw [ht]
  rfl

end Program

namespace Compile

open Emit

/-- A file with a function that gives its argument back. -/
def identityFile : SourceFile where
  path := "identity.py"
  tree := some (.group [.mk {} (.functionDef "identity"
    (.mk {} (.arguments (.group []) (.group [.mk {} (.arg "x" .absent)]) .absent (.group []) (.group [])
      .absent (.group [])))
    (.group [.mk {} (.ret (.mk {} (.name "x" (some .load))))]) (.group []) .absent)])

/-- Whether a compilation ended with a stream, and with a state of some kind. -/
def endsWith (P : State → Bool) : EStateM.Result Fault State (Option Bytes) → Bool
  | .ok (some _) s => P s
  | _ => false

theorem exists_of_endsWith {P : State → Bool} {r : EStateM.Result Fault State (Option Bytes)}
    (h : endsWith P r = true) : ∃ bytes s', r = .ok (some bytes) s' ∧ P s' = true := by
  rcases r with ⟨_ | bytes, s'⟩ | _
  · cases h
  · exact ⟨bytes, s', rfl, h⟩
  · cases h

theorem identityFile_compiles :
    ∃ bytes s', compile [identityFile] { ready with output := "identity.o" } = .ok (some bytes) s' ∧
      ∀ f ∈ s'.program.listedFuncs, f.params.size + f.results.length = f.nextValue := by
  obtain ⟨bytes, s', h, hfull⟩ := exists_of_endsWith
    (r := compile [identityFile] { ready with output := "identity.o" })
    (P := fun s => s.program.listedFuncs.all fun f => f.params.size + f.results.length == f.nextValue)
    (by decide +kernel)
  refine ⟨bytes, s', h, fun f hf => ?_⟩
  simpa using List.all_eq_true.1 hfull f hf

variable {files : List SourceFile} {output : String} {bytes : Bytes} {s' : State}

theorem stream_of_compile (h : compile files { ready with output } = .ok (some bytes) s') :
    s'.program.stream 0 = .ok bytes := by
  obtain ⟨_, s1, hload, hrun⟩ := bind_eq_ok.1 h
  have hs1 : Waiting s1 := Preserves.of_ok (waiting_ready output) hload
  rcases run_eq_ok hs1 hrun with ⟨hnone, -⟩ | ⟨t, stream, -, -, hs, heq⟩
  · cases hnone
  · cases heq
    exact hs

theorem linked_of_mem (h : compile files { ready with output } = .ok (some bytes) s') {f : Func}
    (hf : f ∈ s'.program.listedFuncs) : f.Sound ∧ f.Linked s'.program := by
  have hlinked := compile_linked h
  obtain ⟨k, hk⟩ := List.getElem?_of_mem hf
  rw [hlinked.sound.getElem?_listedFuncs] at hk
  exact ⟨hlinked.sound.funcs k f hk, hlinked.funcs k f hk⟩

/-- In every function of a stream no two instructions compute the same value, and the numbers of the
values that are computed and used are below the count that is written for the function. -/
theorem compile_values_in_range (h : compile files { ready with output } = .ok (some bytes) s') :
    s'.program.stream 0 = .ok bytes ∧ ∀ f ∈ s'.program.listedFuncs,
      (∀ k j k' j' n, f.resultAt k j = some n → f.resultAt k' j' = some n → k' = k ∧ j' = j) ∧
      (∀ k j n, f.resultAt k j = some n → f.params.size ≤ n ∧ (n : Int) < f.shape.values) ∧
      ∀ b ∈ f.blocks, ∀ i, .instr i ∈ b.items → ∀ v ∈ i.uses,
        ∃ n, v.toInt? = some n ∧ 0 ≤ n ∧ n < f.shape.values := by
  refine ⟨stream_of_compile h, fun f hf => ?_⟩
  obtain ⟨hsound, hlinked⟩ := linked_of_mem h hf
  have hvalues : f.shape.values = f.nextValue + 1 := rfl
  refine ⟨hlinked.numbered.distinct, fun k j n hn => ?_, fun b hb i hi v hv => ?_⟩
  · have := hlinked.numbered.range k j n hn
    omega
  · obtain ⟨k, hk⟩ := Array.getElem?_of_mem hb
    obtain ⟨n, hn⟩ := ((hsound.blocks k b hk).2.whole hi).toInt?_of_uses hv
    have := (hlinked.fits k b i hk hi).uses v hv n hn
    exact ⟨n, hn, by omega, by omega⟩

theorem compile_identity_values : ∃ bytes s',
    compile [identityFile] { ready with output := "identity.o" } = .ok (some bytes) s' ∧
      s'.program.stream 0 = .ok bytes ∧ ∀ f ∈ s'.program.listedFuncs,
        (∀ k j k' j' n, f.resultAt k j = some n → f.resultAt k' j' = some n → k' = k ∧ j' = j) ∧
        (∀ k j n, f.resultAt k j = some n → f.params.size ≤ n ∧ (n : Int) < f.shape.values) ∧
        ∀ b ∈ f.blocks, ∀ i, .instr i ∈ b.items → ∀ v ∈ i.uses,
          ∃ n, v.toInt? = some n ∧ 0 ≤ n ∧ n < f.shape.values := by
  obtain ⟨bytes, s', h, -⟩ := identityFile_compiles
  exact ⟨bytes, s', h, compile_values_in_range h⟩

/-- A value that an instruction uses is an argument or is computed in the function, unless the number of
an instruction was lost: if as many values are computed as were numbered, nothing is used that nobody
computes. -/
theorem compile_uses_computed (h : compile files { ready with output } = .ok (some bytes) s') :
    ∀ f ∈ s'.program.listedFuncs, f.params.size + f.results.length = f.nextValue →
      ∀ b ∈ f.blocks, ∀ i, .instr i ∈ b.items → ∀ v ∈ i.uses, ∃ n : Nat, v.toInt? = some (n : Int) ∧
        (n < f.params.size ∨ ∃ k j, f.resultAt k j = some n) := by
  intro f hf hfull b hb i hi v hv
  obtain ⟨hsound, hlinked⟩ := linked_of_mem h hf
  obtain ⟨k, hk⟩ := Array.getElem?_of_mem hb
  obtain ⟨n, hn⟩ := ((hsound.blocks k b hk).2.whole hi).toInt?_of_uses hv
  obtain ⟨hzero, hlt⟩ := (hlinked.fits k b i hk hi).uses v hv n hn
  lift n to Nat using hzero
  refine ⟨n, hn, (Nat.lt_or_ge n f.params.size).imp_right fun hle => ?_⟩
  exact Func.exists_resultAt (hlinked.numbered.mem_results hfull hle (by omega))

theorem compile_identity_uses : ∃ bytes s',
    compile [identityFile] { ready with output := "identity.o" } = .ok (some bytes) s' ∧
      ∀ f ∈ s'.program.listedFuncs, ∀ b ∈ f.blocks, ∀ i, .instr i ∈ b.items → ∀ v ∈ i.uses,
        ∃ n : Nat, v.toInt? = some (n : Int) ∧ (n < f.params.size ∨ ∃ k j, f.resultAt k j = some n) := by
  obtain ⟨bytes, s', h, hfull⟩ := identityFile_compiles
  exact ⟨bytes, s', h, fun f hf => compile_uses_computed h f hf (hfull f hf)⟩

/-- The variables of a stream are numbered by their places but one: `PyMethod_Type` has the number of the
variable for the builtins. -/
theorem compile_global_numbers {bytes : Option Bytes}
    (h : compile files { ready with output } = .ok bytes s') :
    (∀ (k : Nat) g, s'.program.listedGlobals[k]? = some g → k ≠ 4 → g.id = k) ∧
    (∃ g, s'.program.listedGlobals[4]? = some g ∧ g.name = "PyMethod_Type" ∧ g.id = 6) ∧
    ∃ g, s'.program.listedGlobals[6]? = some g ∧ g.name = "__flyable@BuildIn@Module@" ∧ g.id = 6 := by
  have hplaced := (compile_linked h).sound.placed
  have hnamed : ∀ (k : Nat) name, Program.setupNames[k]? = some name →
      ∃ g, s'.program.listedGlobals[k]? = some g ∧ g.name = name ∧ g.id = Program.numberAt k := by
    intro k name hname
    have hentry : (s'.program.globalTable.toList.map Prod.fst)[k]? = some name := by
      obtain ⟨rest, hrest⟩ := hplaced.setup
      rw [← hrest, List.getElem?_append_left (List.getElem?_eq_some_iff.1 hname).1, hname]
    rw [List.getElem?_map, Array.getElem?_toList] at hentry
    obtain ⟨e, he, rfl⟩ := Option.map_eq_some_iff.1 hentry
    obtain ⟨g, hg, hname, hid⟩ := hplaced.number k e he
    refine ⟨g, ?_, hname, hid⟩
    rw [hplaced.getElem?_listedGlobals, he, Option.bind_some, hg]
  refine ⟨fun k g hg hk => ?_, hnamed 4 _ rfl, hnamed 6 _ rfl⟩
  rw [hplaced.getElem?_listedGlobals] at hg
  obtain ⟨e, he, hg⟩ := Option.bind_eq_some_iff.1 hg
  obtain ⟨g', hg', -, hid⟩ := hplaced.number k e he
  cases hg.symm.trans hg'
  rw [hid, Program.numberAt, if_neg hk]

theorem compile_identity_globals : ∃ bytes s',
    compile [identityFile] { ready with output := "identity.o" } = .ok bytes s' ∧
      ∃ g g', s'.program.listedGlobals[4]? = some g ∧ s'.program.listedGlobals[6]? = some g' ∧
        g.id = g'.id := by
  obtain ⟨bytes, s', h, -⟩ := identityFile_compiles
  obtain ⟨-, ⟨g, hg, -, hid⟩, g', hg', -, hid'⟩ := compile_global_numbers h
  exact ⟨bytes, s', h, g, g', hg, hg', hid.trans hid'.symm⟩

end Compile

end Lowering
