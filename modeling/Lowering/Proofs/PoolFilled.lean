import Lowering.Proofs.EntryBlock

/-!
The entry point makes the constants of the pool in the order of their keys. Its code is one block, in
which every key is stored in its variable once, and what lies inside a key is loaded after that.
-/
namespace Lowering

namespace Entry

open Emit Instr

theorem size_le_poolSteps (p : Program) : p.constants.size ≤ poolSteps p := by
  rw [← Array.length_toList]
  exact length_le_total fun _ _ => by omega

variable {p : Program} {s s' : State}

/-- The entry point has been written: it is one block. -/
def Written (q : Program) (is : List Instr) : Prop :=
  ∃ (g : Func) (b : Block), q.funcs[0]? = some g ∧ g.name = "main" ∧ g.blocks = #[b] ∧
    b.items.toList = is.map .instr

theorem accesses_ret (v : Operand) (is : List Instr) : accesses [] (is ++ [.ret v]) = accesses [] is := by
  rw [accesses_append]
  exact List.append_nil _

/-- The entry point of a program without functions: what it does with variables, and when it can be
written. -/
theorem emitMain_fills (hp : Equipped s.program) (ho : s.program.Ordered) (hfuncs : s.program.funcs = #[])
    (hfiles : s.fileTable = #[]) : (∀ s', emitMain s = .ok () s' → ∃ is, Written s'.program is ∧ accesses [] is =
      .stored (builtinsId s.program) :: s.program.constants.toList.flatMap (keyAccesses s.program)) ∧
    ((∀ e ∈ s.program.constants.toList, e.1.Fits) → 11 + poolSteps s.program ≤ 2 ^ 31 →
      s.program.globalTable.size ≤ 2 ^ 31 → ∃ s', emitMain s = .ok () s') := by
  have htable : s.program.funcTable = #[] :=
    Array.eq_empty_of_size_eq_zero (by rw [hp.sound.size, hfuncs]; rfl)
  let d := s.program.declared "main" .int32 [.int32, MachineType.int8Ptr.pointerTo] externalLinkage
  let t := s.withProgram (s.program.withFunc d)
  have hmain : Program.func "main" .int32 [.int32, MachineType.int8Ptr.pointerTo] externalLinkage s.program =
      .ok 0 t.program := Program.func_eq_ok.2 (.inr ⟨by rw [htable]; rfl, by rw [hfuncs]; rfl, rfl⟩)
  have ht := (Program.Request.extends_of_ok hmain hp.sound).1
  let room := (∀ e ∈ s.program.constants.toList, e.1.Fits) ∧ 11 + poolSteps s.program ≤ 2 ^ 31 ∧
    s.program.globalTable.size ≤ 2 ^ 31
  have hsound : (bared t 0).program.Sound := (extends_bared t 0 ht).1
  have hknown : (bared t 0).program.known = s.program.known := rfl
  have hready : Ready (EntryBlock.mainSite t 0 room) :=
    ⟨rfl, fun _ => ⟨hsound, (Program.Settled.ok_of_ok hknown rfl hp.object).2, hp.builtins⟩, fun hr => hr.2.2⟩
  have hregistered : EntryBlock.registered (bared t 0) = [] := by
    rw [EntryBlock.registered, show (bared t 0).fileTable = #[] from hfiles]
    rfl
  have hemits := EntryBlock.emits_beforeReturn (K := fun _ => True) (n := 2) hready (fun _ => hfiles)
    (fun hr => ⟨{ ho with sound := hsound }, hr.1, (Nat.add_assoc 2 9 _).symm ▸ hr.2.1⟩)
    (by rw [show (EntryBlock.mainSite t 0 room).base = bared t 0 from rfl, hregistered]; simp)
  have hhome : t.program.funcs[0]? = some { d with cursor := s.program.cursors.size } := by
    simp [t, State.withProgram, Program.withFunc, hfuncs]
  have hnames : ∀ e ∈ t.program.funcTable, e.1 ∈ runtimeNames := by
    simp [t, d, State.withProgram, Program.withFunc, Program.declared, htable, runtimeNames]
  obtain ⟨hok, hcompletes⟩ := EntryBlock.emitMain_of_emits hp.sound (build_eq_ok.2 ⟨_, hmain, rfl⟩) hhome rfl rfl
    (fun _ => hnames) hemits
  refine ⟨fun s' h => ?_, fun hfits hsteps htable => ?_⟩
  · obtain ⟨-, -, -, g, b, m, js, v, K, hg, hname, hblocks, hitems, ⟨-, hK⟩, hk⟩ := hok s' h
    refine ⟨_, ⟨g, b, hg, hname, hblocks, hitems⟩, ?_⟩
    rw [accesses_ret, ((hK _ hk).2 hregistered).makes [] (by simp)]
    rfl
  · exact hcompletes ⟨hfits, hsteps, htable⟩ fun v m js K h => h.1 ⟨hfits, hsteps, htable⟩

/-- The variable of a member is that of an earlier key. -/
theorem exists_key_before (ho : p.Ordered) {done todo : List (Constant × Nat)} {e : Constant × Nat}
    (hkeys : p.constants.toList = done ++ e :: todo) {x : Constant} (hx : x ∈ e.1.members) :
    ∃ e' ∈ done, p.constantId x = p.variableId e'.2 := by
  have hget : p.constants[done.length]? = some e := by
    rw [← Array.getElem?_toList, hkeys]
    simp
  obtain ⟨j, e', hj, he', hsame⟩ := ho.members _ e hget x hx
  have hdone : e' ∈ done := by
    rw [← Array.getElem?_toList, hkeys, List.getElem?_append_left hj] at he'
    exact List.mem_of_getElem? he'
  -- the first key that is equal to the member is not after the one that is known to be
  have hfind : (done.find? fun k => k.1.same x).isSome = true :=
    List.find?_isSome.2 ⟨e', hdone, hsame⟩
  obtain ⟨e'', hfirst⟩ := Option.isSome_iff_exists.1 hfind
  refine ⟨e'', List.mem_of_find?_eq_some hfirst, ?_⟩
  rw [Program.constantId, Program.findConstant, ← Array.find?_toList, hkeys, List.find?_append, hfirst]
  rfl

theorem stored_of_loaded (ho : p.Ordered) {done todo : List (Constant × Nat)}
    (hkeys : p.constants.toList = done ++ todo) {before after : List Access} {id : Int}
    (h : todo.flatMap (keyAccesses p) = before ++ .loaded id :: after) :
    .stored id ∈ done.flatMap (keyAccesses p) ++ before := by
  induction todo generalizing done before with
  | nil => simp at h
  | cons e todo ih =>
    rw [List.flatMap_cons] at h
    have hlater : ∀ rest, before = keyAccesses p e ++ rest →
        todo.flatMap (keyAccesses p) = rest ++ .loaded id :: after →
        .stored id ∈ done.flatMap (keyAccesses p) ++ before := by
      intro rest hbefore hrest
      have := ih (by rw [hkeys, List.append_cons]) hrest
      rwa [List.flatMap_append, List.flatMap_singleton, List.append_assoc, ← hbefore] at this
    rcases List.append_eq_append_iff.1 h with ⟨rest, hbefore, hrest⟩ | ⟨rest, hmade, hrest⟩
    · exact hlater rest hbefore hrest
    · cases rest with
      | nil => exact hlater [] (by simpa using hmade.symm) (by simpa using hrest.symm)
      | cons a rest =>
        obtain ⟨rfl, -⟩ := List.cons.inj hrest
        have hmem : Access.loaded id ∈ keyAccesses p e := by simp [hmade]
        obtain ⟨x, hx, rfl⟩ : ∃ x ∈ e.1.members, p.constantId x = id := by
          simpa [keyAccesses] using hmem
        obtain ⟨e', he', hid⟩ := exists_key_before ho hkeys hx
        refine List.mem_append_left _ (List.mem_flatMap.2 ⟨e', he', ?_⟩)
        simp [keyAccesses, hid]

def keyIds (p : Program) : List Int := p.constants.toList.map fun e => p.variableId e.2

theorem nodup_keyIds (ho : p.Ordered) : (keyIds p).Nodup ∧ ∀ id ∈ keyIds p, 7 ≤ id := by
  have hplace : ∀ (k : Nat) (e : Constant × Nat), p.constants[k]? = some e →
      ∃ j : Nat, 7 ≤ j ∧ p.variableId e.2 = j ∧ p.globalTable[j]? = some (Program.constantName k, e.2) := by
    intro k e he
    obtain ⟨j, g, hj, htable, hg, -, hid⟩ := ho.exists_place he
    exact ⟨j, hj, by rw [Program.variableId, hg]; exact hid, htable⟩
  refine ⟨List.pairwise_iff_getElem.2 fun i k hi hk hik heq => ?_, fun id hid => ?_⟩
  · simp only [keyIds, List.length_map, List.getElem_map, Array.length_toList, Array.getElem_toList] at hi hk heq
    obtain ⟨j, -, hid, hj⟩ := hplace i _ (Array.getElem?_eq_getElem hi)
    obtain ⟨j', -, hid', hj'⟩ := hplace k _ (Array.getElem?_eq_getElem hk)
    obtain rfl : j = j' := by omega
    have hnames := Option.some.inj (hj.symm.trans hj')
    have := Program.constantName_inj (congrArg Prod.fst hnames)
    omega
  · obtain ⟨e, he, rfl⟩ := List.mem_map.1 hid
    obtain ⟨k, hk⟩ := List.mem_iff_getElem?.1 he
    obtain ⟨j, hj, hid, -⟩ := hplace k e (by simpa using hk)
    omega

theorem equipment_ready : (Compile.ready.program.known.objectStruct = some 0 ∧
      Compile.ready.program.structs[0]?.map (·.id) = some 0) ∧ ∃ i, Compile.ready.program.known.builtins = some i ∧
      Compile.ready.program.globals[i]?.map (·.id) = some 6 :=
  ⟨by decide +kernel, 7, by decide +kernel⟩

theorem equipped_of_pooled (h : Compile.ready.program.Pooled p) : Equipped p where
  sound := h.sound
  object := by
    obtain ⟨⟨hknown, hstruct⟩, -⟩ := equipment_ready
    obtain ⟨d, hd, hid⟩ := Option.map_eq_some_iff.1 hstruct
    have hready : Program.objectPtr Compile.ready.program = .ok objectType Compile.ready.program := by
      refine bind_eq_ok.2 ⟨d.type, _, Program.structType_eq_ok.2 ⟨⟨0, d, hknown, hd, rfl⟩, rfl⟩, ?_⟩
      rw [objectType, ← Int.ofNat_zero, ← hid]
      rfl
    exact (Program.Settled.ok_of_ok (by rw [h.rest]) (by rw [h.rest]) hready).2
  builtins := by
    obtain ⟨-, i, hi, hid⟩ := equipment_ready
    obtain ⟨g, hg, hid⟩ := Option.map_eq_some_iff.1 hid
    exact ⟨i, g, by rw [h.rest]; exact hi, Program.getElem?_mono h.globals hg, by omega⟩

/-- The stores among accesses, by the numbers of the variables. -/
def stores (as : List Access) : List Int :=
  as.filterMap fun
    | .stored id => some id
    | .loaded _ => none

theorem stores_keyAccesses (p : Program) (keys : List (Constant × Nat)) :
    stores (keys.flatMap (keyAccesses p)) = keys.map fun e => p.variableId e.2 := by
  induction keys with
  | nil => rfl
  | cons e keys ih =>
    have hmembers : stores (keyAccesses p e) = [p.variableId e.2] := by
      simp [stores, keyAccesses, List.filterMap_map]
    rw [List.flatMap_cons, stores, List.filterMap_append, List.map_cons]
    exact congrArg₂ (· ++ ·) hmembers ih

end Entry

/-- Constants that lie inside each other and are equal without being the same, and one that is refused
after a member of it has been entered. -/
def nestedConstants : List Constant :=
  [.tuple [.int 1, .tuple [.text "a", .int 2]], .tuple [.int 3, .none], .bool true,
    .frozenset [.float ⟨0x3ff0000000000000⟩ 0, .int 3]]

end Lowering
