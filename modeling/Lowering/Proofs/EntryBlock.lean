import Lowering.Proofs.EntryCode

/-!
The block of the entry point, up to its last instruction: the constants of the pool are made and stored, and
the functions of the listed files are registered, file by file, each under its name and with the two functions
that its implementations have been lowered to.
-/
namespace Lowering

namespace Entry

open Emit

/-- The accesses that make a key of the pool: its members are loaded, and it is stored. -/
def keyAccesses (p : Program) (e : Constant × Nat) : List Access :=
  (e.1.members.map fun x => .loaded (p.constantId x)) ++ [.stored (p.variableId e.2)]

/-- How many values are computed for the keys of the pool. -/
def poolSteps (p : Program) : Nat := total (fun e => e.1.steps + 2) p.constants.toList

def builtinsId (p : Program) : Int := (p.known.builtins.map p.variableId).getD 0

/-- The entry point up to its last instruction. -/
def beforeReturn : Emit Operand := do
  discard startRuntime
  let builtins ← importModule "builtins"
  let slot ← globalVar (← build (Program.known! (·.builtins)))
  discard (store builtins slot)
  fillConstants
  registerFiles
  let f ← external "flyable_init" .void []
  discard (call f [])
  let f ← external "Py_BytesMain" .int32 [.int32, MachineType.int8Ptr.pointerTo]
  call f [0, 1]

theorem mainBody_eq : mainBody = (do
    let block ← createBlock (some "Main Function Block")
    setBlock block
    let result ← beforeReturn
    ret result) := by
  simp only [mainBody, startUp, handOver, beforeReturn, bind_assoc]

variable {p : Program}

theorem exists_found_of_mem (hp : p.Ordered) {e : Constant × Nat} (he : e ∈ p.constants.toList) {x : Constant}
    (hx : x ∈ e.1.members) : ∃ v g, p.findConstant x = some v ∧ p.globals[v]? = some g := by
  obtain ⟨k, hk⟩ := List.mem_iff_getElem?.1 he
  obtain ⟨j, e', -, he', hsame⟩ := hp.members k e (by simpa using hk) x hx
  cases hfind : p.findConstant x with
  | none =>
    have := Program.findConstant_eq_none_iff.1 hfind e' (Array.mem_of_getElem? he')
    exact absurd hsame (by simp [this])
  | some v =>
    obtain ⟨k', e'', hk', -, rfl⟩ := Program.exists_of_found hfind
    obtain ⟨-, g, -, -, hg, -⟩ := hp.exists_place hk'
    exact ⟨e''.2, g, rfl, hg⟩

end Entry

namespace EntryBlock

open Emit Entry Straight Instr

variable {o : Site} {K : Program → Prop} {n d : Nat} {D : Definition}

theorem emits_fill (ho : Ready o) (hpool : o.room → o.base.program.Ordered ∧
      (∀ e ∈ o.base.program.constants.toList, e.1.Fits) ∧ n + poolSteps o.base.program ≤ 2 ^ 31) :
    Emits o K n (fill o.base.program.constants) fun _ m js K' => m = n + js.length ∧
      (o.room → js.length = poolSteps o.base.program) ∧ ∀ p, K' p → K p ∧
        Row (Fills p) o.base.program.constants.toList n js ∧ Codes n (poolSteps o.base.program)
          (o.base.program.constants.toList.flatMap (keyAccesses o.base.program)) js := by
  rw [fill, ← Array.forIn_toList]
  refine .bind ((Emits.rows (fun e => e.1.steps + 2) (fun p e n js => Fills p e n js ∧
    Codes n (e.1.steps + 2) (keyAccesses o.base.program e) js) ?_ fun hr => (hpool hr).2.2).mono ?_)
  · rintro ⟨c, v⟩ he n K hn
    obtain ⟨k, hk⟩ := List.mem_iff_getElem?.1 he
    rw [Array.getElem?_toList] at hk
    refine .bind (ho.globalVar (fun hr => ?_) (fun hr => ?_) ?_)
    · obtain ⟨-, g, -, -, hg, -⟩ := (hpool hr).1.exists_place hk
      exact ⟨g, hg⟩
    · have := hn hr
      omega
    refine .bind ((emits_constantObject ho (fun hr => (hpool hr).1.pooled k _ hk)
      (fun hr x => exists_found_of_mem (hpool hr).1 he) fun hr => ⟨(hpool hr).2.1 _ he, ?_⟩).mono ?_)
    · have := hn hr
      omega
    rintro _ _ js K' ⟨⟨a, rfl, ha⟩, rfl, hlength, hmade⟩
    refine .bind (.discard (.assign rfl (fun hr => whole_store.2 ?_) (.pure ⟨rfl, ?_, fun hr => ?_, fun p hp => ?_⟩)))
    · have := hn hr
      have := hlength hr
      omega
    · simp
      omega
    · simp [hlength hr]
    · obtain ⟨⟨hK, hv⟩, hcodes, havoids, htext⟩ := hmade p hp
      refine ⟨hK, ⟨?_, fun text h => ?_⟩, ?_⟩
      · simp only [List.cons_append, List.nil_append, avoids_cons, avoids_append]
        exact ⟨nofun, havoids, nofun, avoids_nil⟩
      · obtain ⟨hid, i, hi, rfl⟩ := htext text h
        rw [hid]
        exact ⟨i, hi, by rw [hv]; rfl⟩
      · rw [hcodes.length]
        exact hcodes.stored (o.base.program.variableId v) (.id a)
  · rintro _ _ js K' ⟨rfl, hlength, hrow⟩
    refine .pure ⟨by rw [List.append_nil], fun hr => ?_, fun p hp => ?_⟩
    · rw [List.append_nil]
      exact hlength hr
    · obtain ⟨hK, hrow⟩ := hrow p hp
      rw [List.append_nil]
      exact ⟨hK, hrow.imp fun _ _ _ h => h.1, hrow.codes _ _ fun _ _ _ h => h.2⟩

/-- The code that registers a function: its name with a zero character after it, pointers to two functions,
and a call that is given the three. -/
def registration (r : Nat) (e : String × Nat × Nat) (n : Nat) : List Instr :=
  [.globalText (some (e.1 ++ "\x00")) n, .cast .pointer (.id n) .int8Ptr (n + 1),
    .funcPtr e.2.1 (n + 2), .cast .pointer (.id (n + 2 : Nat)) .int8Ptr (n + 3),
    .funcPtr e.2.2 (n + 4), .cast .pointer (.id (n + 4 : Nat)) .int8Ptr (n + 5),
    .call r [.id (n + 1 : Nat), .id (n + 3 : Nat), .id (n + 5 : Nat)] (n + 6)]

/-- The code that registers functions one after the other. -/
def registrations (r : Nat) : Nat → List (String × Nat × Nat) → List Instr
  | _, [] => []
  | n, e :: rest => registration r e n ++ registrations r (n + 7) rest

/-- The implementation of a definition for a way of calling. -/
def implFor (s : State) (d : Definition) (c : Convention) : Option Impl :=
  (d.impls.map fun i => s.impls[i]?.getD default).find? (·.convention = c)

theorem emits_codePtr {R : Post Operand} (hno : ¬ o.room) (m : Impl)
    (h : ∀ i : Nat, m.code = some i → R (.id (n + 1 : Nat)) (n + 2)
      [.funcPtr i n, .cast .pointer (.id n) .int8Ptr (n + 1)] K) : Emits o K n (codePtr m) R := by
  unfold codePtr
  cases hcode : m.code with
  | none => exact .throw hno
  | some i =>
    refine .bind (.bind (.funcId (fun hr => absurd hr hno) fun _ => .assign rfl (fun hr => absurd hr hno) ?_))
    exact .assign rfl (fun hr => absurd hr hno) (h i hcode)

theorem emits_register {R : Post Unit} (hno : ¬ o.room) (r : Nat) (D : Definition) (byTuple byVector : Impl)
    (h : ∀ e : String × Nat × Nat, Lower.definedName D = some e.1 → byTuple.code = some e.2.1 →
      byVector.code = some e.2.2 → R ⟨⟩ (n + 7) (registration r e n) K) :
    Emits o K n (register r D byTuple byVector) R := by
  unfold register
  unfold Lower.definedName at h
  generalize D.node.form = form at h
  cases form with
  | functionDef name =>
    refine .bind (.read (P := fun text => name.text? = some text) (fun s is hs text s' hok => ?_)
      (fun hr => absurd hr hno) fun text htext => ?_)
    · obtain ⟨hrequired, hs'⟩ := lift_eq_ok.1 hok
      refine ⟨hs', ?_⟩
      cases htext : name.text? <;> simp_all [Label.required]
    refine .bind (.assign rfl (fun hr => absurd hr hno) ?_)
    refine .bind (.assign rfl (fun hr => absurd hr hno) ?_)
    refine .bind (emits_codePtr hno byTuple fun i hi => .bind (emits_codePtr hno byVector fun j hj => ?_))
    exact .discard (.call (fun hr => absurd hr hno) (fun hr => absurd hr hno) (h (text, i, j) htext hi hj))
  | _ => exact .throw hno

/-- A definition stands under its name, and its implementations for the two ways of calling have been lowered
to these functions. -/
def Registers (s : State) (d : Nat) (e : String × Nat × Nat) : Prop :=
  ∃ D byTuple byVector, s.definitions[d]? = some D ∧ implFor s D .tuple = some byTuple ∧
    implFor s D .vector = some byVector ∧ Lower.definedName D = some e.1 ∧ byTuple.code = some e.2.1 ∧
    byVector.code = some e.2.2

/-- The code that registers a definition. -/
def Registered (base : State) (p : Program) (d n : Nat) (js : List Instr) : Prop :=
  ∃ r, p.Calls r registrar ∧ ∃ e, Registers base d e ∧ js = registration r e n

/-- The definition has an implementation for each way of calling. -/
def Prepared (s : State) (d : Nat) : Prop :=
  ∃ D byTuple byVector, s.definitions[d]? = some D ∧ implFor s D .tuple = some byTuple ∧
    implFor s D .vector = some byVector

def fileDefinitions (s : State) (file : Nat) : List Nat := (s.files[file]?.getD default).functions.toList

/-- The definitions of the listed files, file by file. -/
def registered (s : State) : List Nat := s.fileTable.toList.flatMap fun e => fileDefinitions s e.2

theorem emits_registerDefinition (hno : ¬ o.room) (hd : Prepared o.base d) :
    Emits o K n (registerDefinition d) fun _ m js K' => m = n + js.length ∧
      ∀ p, K' p → K p ∧ Registered o.base p d n js := by
  obtain ⟨D, byTuple, byVector, hD, htuple, hvector⟩ := hd
  refine .bind (.get fun q _ => ?_)
  dsimp only
  rw [hD]
  refine .bind (.pure (.bind (.external (fun hr => absurd hr hno) fun r => ?_)))
  refine .bind (.bind (.get fun q _ => .pure (.bind (.bind (.get fun q' _ => .pure ?_)))))
  unfold implFor at htuple hvector
  simp only [htuple, hvector]
  refine emits_register hno r D byTuple byVector fun e hname hi hj => ⟨rfl, fun p hp => ⟨hp.1, r, hp.2, e, ?_, rfl⟩⟩
  exact ⟨D, byTuple, byVector, hD, htuple, hvector, hname, hi, hj⟩

end EntryBlock

namespace Straight

variable {n : Nat}

theorem Row.append {γ : Type} {made : γ → Nat → List Instr → Prop} {xs ys : List γ} {js ks : List Instr}
    (hxs : Row made xs n js) (hys : Row made ys (n + js.length) ks) : Row made (xs ++ ys) n (js ++ ks) := by
  induction xs generalizing n js with
  | nil =>
    obtain rfl : js = [] := hxs
    exact hys
  | cons x xs ih =>
    obtain ⟨ls, ms, rfl, hx, hrest⟩ := hxs
    rw [List.length_append, ← Nat.add_assoc] at hys
    exact ⟨ls, ms ++ ks, List.append_assoc .., hx, ih hrest hys⟩

theorem Row.flatMap {γ δ : Type} {made : δ → Nat → List Instr → Prop} {g : γ → List δ} {xs : List γ}
    {js : List Instr} (h : Row (fun x => Row made (g x)) xs n js) : Row made (xs.flatMap g) n js := by
  induction xs generalizing n js with
  | nil => exact h
  | cons x xs ih =>
    obtain ⟨ks, ls, rfl, hx, hrest⟩ := h
    rw [List.flatMap_cons]
    exact hx.append (ih hrest)

end Straight

namespace EntryBlock

open Emit Entry Straight Instr

variable {o : Site} {K : Program → Prop} {n : Nat}

theorem emits_registerFile (hno : ¬ o.room) {file : Nat} (h : ∀ d ∈ fileDefinitions o.base file, Prepared o.base d) :
    Emits o K n (registerFile file) fun _ m js K' => m = n + js.length ∧
      ∀ p, K' p → K p ∧ Row (Registered o.base p) (fileDefinitions o.base file) n js := by
  refine .bind (.get fun q _ => ?_)
  rw [← Array.forIn_toList]
  refine .bind ((Emits.rows (fun _ => 0) (Registered o.base) ?_ fun hr => absurd hr hno).mono ?_)
  · intro d hd n K _
    refine .bind ((emits_registerDefinition hno (h d hd)).mono ?_)
    rintro _ _ js K' ⟨rfl, hmade⟩
    refine .pure ⟨rfl, by simp, fun hr => absurd hr hno, ?_⟩
    rw [List.append_nil]
    exact hmade
  · rintro _ _ js K' ⟨rfl, -, hrow⟩
    refine .pure ⟨by simp, ?_⟩
    rw [List.append_nil]
    exact hrow

theorem emits_registerFiles (hfiles : o.room → o.base.fileTable = #[]) (hn : o.room → n ≤ 2 ^ 31)
    (h : ∀ d ∈ registered o.base, Prepared o.base d) :
    Emits o K n registerFiles fun _ m js K' => m = n + js.length ∧ (o.room → js.length = 0) ∧
      ∀ p, K' p → K p ∧ Row (Registered o.base p) (registered o.base) n js := by
  refine .bind (.get fun q _ => ?_)
  rw [← Array.forIn_toList]
  refine .bind ((Emits.rows (fun _ => 0) (fun p e => Row (Registered o.base p) (fileDefinitions o.base e.2)) ?_
    fun hr => ?_).mono ?_)
  · rintro ⟨path, file⟩ he n K _
    have hno : ¬ o.room := fun hr => by simp [hfiles hr] at he
    refine .bind ((emits_registerFile hno fun d hd => h d (List.mem_flatMap.2 ⟨(path, file), he, hd⟩)).mono ?_)
    rintro _ _ js K' ⟨rfl, hmade⟩
    refine .pure ⟨rfl, by simp, fun hr => absurd hr hno, ?_⟩
    rw [List.append_nil]
    exact hmade
  · rw [total_const, Nat.zero_mul]
    exact hn hr
  · rintro _ _ js K' ⟨rfl, hlength, hrow⟩
    refine .pure ⟨by simp, fun hr => ?_, fun p hp => ?_⟩ <;> rw [List.append_nil]
    · exact (hlength hr).trans ((total_const 0 _).trans (Nat.zero_mul _))
    · exact ⟨(hrow p hp).1, (hrow p hp).2.flatMap⟩

/-- What the entry point holds before its last instruction. -/
def Layout (base : State) (p : Program) (n : Nat) (js : List Instr) : Prop :=
  ∃ start fills regs last, js = start ++ fills ++ regs ++ last ∧ Avoids p start ∧
    Row (Fills p) base.program.constants.toList (n + start.length) fills ∧
    Row (Registered base p) (registered base) (n + start.length + fills.length) regs ∧ Avoids p last

theorem emits_beforeReturn (ho : Ready o) (hfiles : o.room → o.base.fileTable = #[])
    (hpool : o.room → o.base.program.Ordered ∧ (∀ e ∈ o.base.program.constants.toList, e.1.Fits) ∧
      n + (9 + poolSteps o.base.program) ≤ 2 ^ 31) (hprepared : ∀ d ∈ registered o.base, Prepared o.base d) :
    Emits o K n beforeReturn fun v _ js K' => (o.room → (Instr.ret v).Whole) ∧ ∀ p, K' p →
      Layout o.base p n js ∧ (registered o.base = [] → Codes n (9 + poolSteps o.base.program)
        (.stored (builtinsId o.base.program) :: o.base.program.constants.toList.flatMap (keyAccesses o.base.program)) js) := by
  refine .bind (.discard (ho.library (by decide) (fun hr => ⟨by simp, by simp, ?_⟩) fun f1 => ?_))
  · have := hpool hr
    omega
  refine .bind (.bind (.assign rfl (fun hr => whole_globalText.2 ⟨by decide, by have := hpool hr; omega⟩) ?_))
  refine .bind (.discard (.assign rfl (fun hr => whole_load.2 (by have := hpool hr; omega)) ?_))
  refine .bind (.assign rfl (fun hr => (whole_ptrCast (by decide)).2 (by have := hpool hr; omega)) ?_)
  refine .bind (ho.objectPtr fun _ _ => ho.library (by decide) (fun hr => ⟨by simp, ?_, ?_⟩) fun f2 => ?_)
  · have := hpool hr
    exact List.forall_mem_cons.2 ⟨fits_value (by omega), by simp⟩
  · have := hpool hr
    omega
  refine .bind (.read (P := fun i => o.base.program.known.builtins = some i) (fun s is hs i s' hok => ?_)
    (fun hr s is hs => ?_) fun i hi => .bind (ho.globalVar (fun hr => ?_) (fun hr => ?_) ?_))
  · obtain ⟨q, hknown, rfl⟩ := build_eq_ok.1 hok
    obtain ⟨hi, rfl⟩ := Program.known!_eq_ok.1 hknown
    rw [hs.same] at hi
    exact ⟨rfl, hi⟩
  · obtain ⟨i, g, hi, -⟩ := (ho.equipped hr).builtins
    exact ⟨i, _, build_eq_ok.2 ⟨_, Program.known!_eq_ok.2 ⟨by rw [hs.same]; exact hi, rfl⟩, rfl⟩⟩
  · obtain ⟨i', g, hi', hg, -⟩ := (ho.equipped hr).builtins
    cases hi.symm.trans hi'
    exact ⟨g, hg⟩
  · have := hpool hr
    omega
  refine .bind (.discard (.assign rfl (fun hr => whole_store.2 (by have := hpool hr; omega)) ?_))
  refine .bind (.bind (.get fun q hq => ?_))
  dsimp only
  rw [hq]
  refine (emits_fill ho fun hr => ?_).mono ?_
  · have := hpool hr
    exact ⟨this.1, this.2.1, by omega⟩
  rintro _ _ fills K1 ⟨rfl, hfills, hfilled⟩
  refine .bind ((emits_registerFiles hfiles (fun hr => ?_) hprepared).mono ?_)
  · have := hpool hr
    have := hfills hr
    omega
  rintro _ _ regs K2 ⟨rfl, hregs, hregistered⟩
  refine .bind (.external (fun _ => ?_) fun f3 => .bind (.discard (.call (fun _ p hp => ⟨_, hp.2⟩) (fun hr hi => ?_) ?_)))
  · rw [ho.names]
    decide
  · have := hpool hr
    have := hfills hr
    have := hregs hr
    rw [ho.names] at hi
    exact whole_call.2 ⟨Nat.lt_trans hi (by decide), by simp, by simp, by omega⟩
  refine ho.library (by decide) (fun hr => ⟨by decide, by decide, ?_⟩) fun f4 => ⟨fun hr => whole_ret.2 ?_, fun p hp => ?_⟩
  · have := hpool hr
    have := hfills hr
    have := hregs hr
    omega
  · have := hpool hr
    have := hfills hr
    have := hregs hr
    omega
  obtain ⟨⟨hK2, hf3⟩, hf4⟩ := hp
  obtain ⟨hK1, hrow⟩ := hregistered p hK2
  obtain ⟨⟨⟨⟨hK, hf1⟩, hf2⟩, hid⟩, hfilled, hcodes⟩ := hfilled p hK1
  let start : List Instr := [.call f1 [] n, .globalText (some "builtins") (n + 1), .load (.id (n + 1 : Nat)) (n + 2),
    .cast .pointer (.id (n + 1 : Nat)) .int8Ptr (n + 3), .call f2 [.id (n + 3 : Nat)] (n + 4),
    .globalVar (o.base.program.variableId i) (n + 5), .store (.id (n + 4 : Nat)) (.id (n + 5 : Nat)) (n + 6)]
  let last : List Instr := [.call f3 [] (n + 7 + fills.length + regs.length),
    .call f4 [0, 1] (n + 7 + fills.length + regs.length + 1)]
  refine ⟨⟨start, fills, regs, last, ?_, ?_, hfilled, hrow, ?_⟩, fun hnone => ?_⟩
  · simp only [start, last, List.append_assoc, List.cons_append, List.nil_append]
    rfl
  · refine avoids_call hf1 (by decide) _ _ (avoids_cons.2 ⟨nofun, avoids_cons.2 ⟨nofun, avoids_cons.2 ⟨nofun, ?_⟩⟩⟩)
    exact avoids_call hf2 (by decide) _ _ (avoids_cons.2 ⟨nofun, avoids_cons.2 ⟨nofun, avoids_nil⟩⟩)
  · exact avoids_call hf3 (by decide) _ _ (avoids_call hf4 (by decide) _ _ avoids_nil)
  · rw [hnone] at hrow
    obtain rfl : regs = [] := hrow
    have himport : Codes (n + 1) 4 [] [.globalText (some "builtins") (n + 1), .load (.id (n + 1 : Nat)) (n + 2),
        .cast .pointer (.id (n + 1 : Nat)) .int8Ptr (n + 3), .call f2 [.id (n + 3 : Nat)] (n + 4)] := by
      refine ⟨rfl, ⟨rfl, rfl, rfl, rfl, trivial⟩, fun known hknown => ?_⟩
      have hfirst := lookup_eq_none_of_lt hknown (Int.le_refl _)
      simp only [accesses, hfirst, Option.map_none, Option.toList_none, List.nil_append]
    have hcode := (codes_call f1 [] n).append (himport.append
      (((Codes.nil (n + 6)).stored (o.base.program.variableId i) (.id (n + 4 : Nat))).append
      (hcodes.append ((codes_call f3 [] _).append (codes_call f4 [0, 1] _)))))
    rw [show 1 + (4 + (0 + 2 + (poolSteps o.base.program + (1 + 1)))) = 9 + poolSteps o.base.program by omega] at hcode
    simp only [List.nil_append, List.append_nil, List.cons_append] at hcode
    rw [builtinsId, hi, ← hcodes.length]
    rw [← hcodes.length] at hcode
    exact hcode

instance : Grows fillConstants := by
  unfold fillConstants
  infer_instance

instance : Grows mainBody := by
  unfold mainBody
  infer_instance

/-- Where the entry point is written, in a function that has no blocks. -/
def mainSite (t : State) (f : Nat) (room : Prop) : Site := ⟨bared t f, f, 0, 1, runtimeNames, room⟩

variable {s s' t : State} {f : Nat} {g : Func} {room : Prop}

theorem exists_entered (ht : t.program.Sound) (hg : t.program.funcs[f]? = some g) (hblocks : g.blocks = #[])
    (hnames : room → ∀ e ∈ t.program.funcTable, e.1 ∈ runtimeNames) :
    ∃ s2, mainBody (bared t f) = (beforeReturn >>= ret) s2 ∧
      Writes (mainSite t f room) (fun _ => True) g.nextValue [] s2 := by
  have hbared := (extends_bared t f ht).1
  have hhere : (bared t f).here = { func := f } := by simp [State.here, bared]
  have hhome : (bared t f).program.funcs[f]? = some g := hg
  have hcreate : createBlock (some "Main Function Block") (bared t f) = .ok ⟨f, 0⟩
      ((bared t f).withProgram ((bared t f).program.mapFunc f (·.addBlock (some "Main Function Block")))) := by
    refine createBlock_eq_ok.2 ⟨?_, by rw [hhere]⟩
    rw [hhere, hhome, Option.map_some, hblocks]
    rfl
  obtain ⟨s2, hset⟩ : ∃ s2, setBlock ⟨f, 0⟩ ((bared t f).withProgram ((bared t f).program.mapFunc f
      (·.addBlock (some "Main Function Block")))) = .ok () s2 := ⟨_, rfl⟩
  have hsound := (Grows.extends_of_ok hset (Grows.extends_of_ok hcreate hbared).1).1
  refine ⟨s2, by rw [mainBody_eq, bind_run_of_ok hcreate, bind_run_of_ok hset], ?_⟩
  obtain rfl := moveTo_eq_ok.1 hset
  refine ⟨hsound, ⟨?_, g.addBlock _, Program.getElem?_mapFunc_self hhome, rfl, { id := g.blockCount, label := some "Main Function Block" }, ?_,
    rfl, rfl⟩, ⟨g.addBlock _, Program.getElem?_mapFunc_self hhome, ?_⟩, rfl, fun _ _ => trivial, hnames⟩
  · rw [State.here]
    simp only [State.withProgram, Program.mapFunc, bared, Array.getElem?_modify, if_true, Array.getElem?_push_size,
      Option.map_some]
    rfl
  · simp only [Func.addBlock, hblocks]
    rfl
  · simp [Func.addBlock, hblocks, mainSite]

theorem locked_eq {is : List Instr} (h : Writes (mainSite t f room) K n is s) : (s.program.block ⟨f, 0⟩).locked = false := by
  obtain ⟨g, hg, -, b, hb, -, hlocked⟩ := h.stands.func
  rw [Program.block, Program.blockAt, show s.program.funcs[f]? = some g from hg, Option.bind_some,
    show g.blocks[0]? = some b from hb]
  exact hlocked

theorem block_of_ret {is : List Instr} {v : Operand} {u : Unit} (h : Writes (mainSite t f room) K n is s)
    (hok : Emit.ret v s = .ok u s') : (∃ (g : Func) (b : Block), s'.program.funcs[f]? = some g ∧ g.blocks = #[b] ∧
      b.items.toList = (is ++ [Instr.ret v]).map .instr) ∧ s' = { bared t f with program := s'.program } ∧
      s'.program.constants = t.program.constants ∧ K s'.program := by
  obtain ⟨-, hgrown⟩ := Grows.extends_of_ok hok h.sound
  obtain ⟨g, hg, -, b, hb, hitems, hlocked⟩ := h.stands.func
  obtain ⟨g', hg', hsize⟩ := h.width
  cases hg.symm.trans hg'
  have hblocks : g.blocks = #[b] := by
    apply Array.ext_getElem?
    intro k
    cases k with
    | zero => exact hb
    | succ k => simp [hsize, mainSite]
  obtain ⟨ref, href, hw, hs'⟩ := leave_eq_ok.1 hok
  rw [h.stands.here] at href
  cases href
  have hw : ((Instr.ret v).write (s.program.block ⟨f, 0⟩).locked).2 = none := hw
  rw [locked_eq h] at hw
  have hconstants := h.constants
  have hknown := h.known _ hgrown
  subst hs'
  refine ⟨⟨_, b.endBy (.ret v) [] true, Program.getElem?_mapFunc_self hg, ?_, ?_⟩, ?_, hconstants, hknown⟩
  · simp only [hblocks]
    rfl
  · simp [Block.endBy, Block.push_of_unlocked hlocked (by rwa [hlocked]), hitems]
  · conv => lhs; rw [h.files]
    rfl

/-- What holds of the code of the entry point before its last instruction, when the entry point has been
emitted; and when it can be. -/
theorem emitMain_of_emits {R : Post Operand} (hs : s.program.Sound)
    (hexternal : external "main" .int32 [.int32, MachineType.int8Ptr.pointerTo] s = .ok f t)
    (hg : t.program.funcs[f]? = some g) (hname : g.name = "main") (hblocks : g.blocks = #[])
    (hnames : room → ∀ e ∈ t.program.funcTable, e.1 ∈ runtimeNames)
    (hemits : Emits (mainSite t f room) (fun _ => True) g.nextValue beforeReturn R) :
    (∀ s', emitMain s = .ok () s' → s' = { s with program := s'.program } ∧ s.program.Grown s'.program ∧
      s'.program.constants = s.program.constants ∧ ∃ (g : Func) (b : Block) (m : Nat) (js : List Instr) (v : Operand)
        (K : Program → Prop), s'.program.funcs[f]? = some g ∧ g.name = "main" ∧ g.blocks = #[b] ∧
        b.items.toList = (js ++ [Instr.ret v]).map .instr ∧ R v m js K ∧ K s'.program) ∧
    (room → (∀ v m js K, R v m js K → (Instr.ret v).Whole) → ∃ s', emitMain s = .ok () s') := by
  obtain ⟨q, hfunc, rfl⟩ := build_eq_ok.1 hexternal
  obtain ⟨hsound, hgrown⟩ := Program.Request.extends_of_ok hfunc hs
  have hconstants : q.constants = s.program.constants := by
    rcases Program.func_eq_ok.1 hfunc with ⟨-, rfl⟩ | ⟨-, -, rfl⟩ <;> rfl
  obtain ⟨s2, hbody, hs2⟩ := exists_entered hsound hg hblocks hnames
  refine ⟨fun s' hok => ?_, fun hroom hwhole => ?_⟩
  · rw [emitMain, bind_run_of_ok hexternal] at hok
    obtain ⟨s4, hmain, rfl⟩ := asBare_eq_ok.1 hok
    obtain ⟨hbared, hextended⟩ := extends_bared (s.withProgram q) f hsound
    have hafter := hextended.trans (Grows.extends_of_ok hmain hbared).2
    rw [hbody] at hmain
    obtain ⟨v, s3, hbefore, hret⟩ := bind_eq_ok.1 hmain
    obtain ⟨m, js, K, hs3, hr⟩ := (hemits s2 [] hs2).1 v s3 hbefore
    obtain ⟨⟨g', b, hg', hblocks', hitems⟩, hsame, hpool, hK⟩ := block_of_ret hs3 hret
    obtain ⟨g'', hg'', hhome⟩ := hafter.funcs f g hg
    cases hg'.symm.trans hg''
    refine ⟨?_, hgrown.trans hafter, hpool.trans hconstants, g', b, m, js, v, K, hg', hhome.name.trans hname, hblocks',
      hitems, hr, hK⟩
    rw [hsame]
    rfl
  · obtain ⟨v, s3, hbefore⟩ := (hemits s2 [] hs2).2 hroom
    obtain ⟨m, js, K, hs3, hr⟩ := (hemits s2 [] hs2).1 v s3 hbefore
    obtain ⟨s4, hret⟩ : ∃ s4, Emit.ret v s3 = .ok () s4 := ⟨_, leave_eq_ok.2 ⟨⟨f, 0⟩, by rw [hs3.stands.here]; rfl,
      by rw [locked_eq hs3]; exact hwhole v m js K hr, rfl⟩⟩
    refine ⟨_, bind_eq_ok.2 ⟨f, _, hexternal, asBare_eq_ok.2 ⟨s4, ?_, rfl⟩⟩⟩
    exact hbody.trans (bind_eq_ok.2 ⟨v, s3, hbefore, hret⟩)

end EntryBlock
end Lowering
