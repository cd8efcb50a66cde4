import Lowering.Proofs.EntryBlock
import Lowering.Proofs.Listing

/-!
The functions that the entry point registers: those of the listed files, file by file, each under its name
and with the two functions that its implementations have been lowered to.
-/
namespace Lowering

namespace EntryBlock

open Emit Entry Straight

variable {base s s' : State} {f n : Nat} {p : Program}

/-- The entry point has no code before it is emitted: all code comes from implementations, and their
functions have other names. -/
theorem blocks_of_declares {t : State} {g : Func} (hs : s.Rested) (hd : Declares f g s t) (hname : g.name = "main") :
    g.blocks = #[] := by
  rcases hd.before f g hd.func with hg | hdeclared
  · apply Array.eq_empty_of_size_eq_zero
    by_contra hsize
    obtain ⟨i, m, hm, hcode⟩ := hs.owned f g hg hsize
    obtain ⟨g', hg', hnamed, -⟩ := hs.coded i m f hm hcode
    cases hg.symm.trans hg'
    obtain ⟨ending, k, d, base, -, -, -, hname'⟩ := hnamed
    rw [hname] at hname'
    have hhead := congrArg (fun text : String => text.toList.head?) hname'
    simp at hhead
  · exact hdeclared.blocks

/-- The entry point as it has been emitted. -/
structure Main (s s' : State) : Prop where
  same : s' = { s with program := s'.program }
  grown : s.program.Grown s'.program
  constants : s'.program.constants = s.program.constants
  block : ∃ (f : Nat) (g : Func) (b : Block) (n : Nat) (js : List Instr) (v : Operand),
    s'.program.funcs[f]? = some g ∧ g.name = "main" ∧ g.blocks = #[b] ∧
    b.items.toList = (js ++ [Instr.ret v]).map .instr ∧ Layout s s'.program n js

theorem emitMain_eq_ok (hs : s.Rested) (hprepared : ∀ d ∈ registered s, Prepared s d)
    (h : emitMain s = .ok () s') : Main s s' := by
  obtain ⟨f, t, hexternal, -⟩ := bind_eq_ok.1 h
  obtain ⟨g, hd⟩ := declares_of_ok hs hexternal
  obtain ⟨q, hfunc, rfl⟩ := build_eq_ok.1 hexternal
  obtain ⟨g', hg', hname⟩ := Program.func_named hs.sound hfunc
  cases hd.func.symm.trans hg'
  have hready : Ready (mainSite (s.withProgram q) f False) := ⟨rfl, False.elim, False.elim⟩
  have hemits := emits_beforeReturn (K := fun _ => True) (n := g.nextValue) hready False.elim False.elim hprepared
  obtain ⟨hok, -⟩ := emitMain_of_emits hs.sound hexternal hd.func hname (blocks_of_declares hs hd hname) False.elim hemits
  obtain ⟨hsame, hgrown, hconstants, g', b, m, js, v, K, hg', hname', hblocks, hitems, ⟨-, hK⟩, hk⟩ := hok s' h
  obtain ⟨start, fills, regs, last, hjs, hstart, hfills, hrest⟩ := (hK _ hk).1
  refine ⟨hsame, hgrown, hconstants, f, g', b, g.nextValue, js, v, hg', hname', hblocks, hitems, start, fills, regs,
    last, hjs, hstart, ?_, hrest⟩
  have hpool : q.constants = s.program.constants := by
    rcases Program.func_eq_ok.1 hfunc with ⟨-, rfl⟩ | ⟨-, -, rfl⟩ <;> rfl
  rw [← hpool]
  exact hfills

theorem Calls.inj (hp : p.Sound) {r r' : Nat} {name : String} (hr : p.Calls r name) (hr' : p.Calls r' name) :
    r = r' := by
  obtain ⟨g, hg, rfl⟩ := hr
  obtain ⟨g', hg', hname⟩ := hr'
  exact Option.some.inj ((hp.found r g hg).symm.trans (hname ▸ hp.found r' g' hg'))

/-- The rows of code that register definitions are one after the other, with one function that registers. -/
theorem registrations_of_row (hp : p.Sound) {ds : List Nat} {js : List Instr} (h : Row (Registered base p) ds n js) :
    ∃ r es, (ds ≠ [] → p.Calls r registrar) ∧ List.Forall₂ (Registers base) ds es ∧
      js = EntryBlock.registrations r n es := by
  induction ds generalizing n js with
  | nil => exact ⟨0, [], fun hne => absurd rfl hne, .nil, h⟩
  | cons d ds ih =>
    obtain ⟨ks, ls, rfl, ⟨r, hr, e, he, rfl⟩, hls⟩ := h
    obtain ⟨r', es, hr', hes, rfl⟩ := ih hls
    refine ⟨r, e :: es, fun _ => hr, .cons he hes, ?_⟩
    cases ds with
    | nil =>
      cases hes
      rfl
    | cons d' ds =>
      rw [Calls.inj hp (hr' (by simp)) hr]
      rfl

end EntryBlock

namespace Compile

open Emit EntryBlock

variable {s s' start : State} {done : List (Nat × Node)} {modules : List (String × Node)} {output : String}

theorem Compiled.size_definitions (h : Compiled start done s) : s.definitions.size = done.length := by
  rw [← Array.length_toList, h.definitions, List.length_mapIdx]

theorem Compiled.getElem?_definitions (h : Compiled start done s) (d : Nat) : s.definitions[d]? =
    done[d]?.map fun e => { node := e.2, impls := #[2 * d, 2 * d + 1], file := some e.1 } := by
  rw [← Array.getElem?_toList, h.definitions, List.getElem?_mapIdx]

/-- The two implementations of a definition, and the functions they have been lowered to. -/
structure Implemented (s : State) (d : Nat) (name : String) (byTuple byVector : Nat) : Prop where
  named : ∃ D, s.definitions[d]? = some D ∧ Lower.definedName D = some name ∧ D.impls = #[2 * d, 2 * d + 1]
  tuple : ∃ m, s.impls[2 * d]? = some m ∧ m.parent = some d ∧ m.convention = .tuple ∧ m.code = some byTuple
  vector : ∃ m, s.impls[2 * d + 1]? = some m ∧ m.parent = some d ∧ m.convention = .vector ∧
    m.code = some byVector
  tupleFunc : s.program.Calls byTuple ("@global@module@" ++ name ++ "@tp@")
  vectorFunc : s.program.Calls byVector ("@global@module@" ++ name ++ "@vec@")

theorem Compiled.implFor (h : Compiled start done s) {d : Nat} {D : Definition} (hD : s.definitions[d]? = some D) :
    D.impls = #[2 * d, 2 * d + 1] ∧
    (∃ m f, s.impls[2 * d]? = some m ∧ m.parent = some d ∧ m.convention = .tuple ∧ m.code = some f ∧
      implFor s D .tuple = some m) ∧
    ∃ m f, s.impls[2 * d + 1]? = some m ∧ m.parent = some d ∧ m.convention = .vector ∧ m.code = some f ∧
      implFor s D .vector = some m := by
  have hd : d < done.length := h.size_definitions ▸ (Array.getElem?_eq_some_iff.1 hD).1
  obtain ⟨⟨m, hm, hparent, hc, f, hf⟩, ⟨m', hm', hparent', hc', f', hf'⟩⟩ := h.coded d hd
  have himpls : D.impls = #[2 * d, 2 * d + 1] := by
    rw [h.getElem?_definitions] at hD
    obtain ⟨e, -, rfl⟩ := Option.map_eq_some_iff.1 hD
    rfl
  refine ⟨himpls, ⟨m, f, hm, hparent, hc, hf, ?_⟩, ⟨m', f', hm', hparent', hc', hf', ?_⟩⟩
  · simp [EntryBlock.implFor, himpls, hm, hm', hc]
  · simp [EntryBlock.implFor, himpls, hm, hm', hc, hc']

theorem calls_of_code {p : Program} {i d f : Nat} {m : Impl} {D : Definition} {name ending : String} {k : Nat}
    (hs : s.Rested) (hgrown : s.program.Grown p) (hm : s.impls[i]? = some m) (hparent : m.parent = some d)
    (hc : Lower.Signed m.convention ending k) (hf : m.code = some f) (hD : s.definitions[d]? = some D)
    (hname : Lower.definedName D = some name) : p.Calls f ("@global@module@" ++ name ++ ending) := by
  obtain ⟨g, hg, ⟨ending', k', d', base, hc', hparent', hbase, hgname⟩, -⟩ := hs.coded i m f hm hf
  cases hparent.symm.trans hparent'
  rw [hD, Option.getD_some] at hbase
  cases hname.symm.trans hbase
  obtain rfl : ending = ending' := by
    cases hconvention : m.convention <;> rw [hconvention] at hc hc' <;> cases hc <;> cases hc' <;> rfl
  exact Program.Calls.of_grown ⟨g, hg, hgname⟩ hgrown

theorem Compiled.implemented (h : Compiled start done s) (hsame : s' = { s with program := s'.program })
    (hgrown : s.program.Grown s'.program) {d : Nat} {e : String × Nat × Nat} (he : Registers s d e) :
    Implemented s' d e.1 e.2.1 e.2.2 := by
  obtain ⟨D, m, m', hD, hm, hm', hname, hcode, hcode'⟩ := he
  obtain ⟨himpls, ⟨n, f, hn, hparent, hc, hf, hfor⟩, ⟨n', f', hn', hparent', hc', hf', hfor'⟩⟩ := h.implFor hD
  cases hm.symm.trans hfor
  cases hm'.symm.trans hfor'
  have hdefinitions : s'.definitions = s.definitions := by rw [hsame]
  have hsameImpls : s'.impls = s.impls := by rw [hsame]
  refine ⟨⟨D, hdefinitions ▸ hD, hname, himpls⟩, ⟨m, hsameImpls ▸ hn, hparent, hc, hcode⟩,
    ⟨m', hsameImpls ▸ hn', hparent', hc', hcode'⟩, ?_, ?_⟩
  · exact calls_of_code h.waiting.rested hgrown hn hparent (hc ▸ Lower.Signed.tuple) hcode hD hname
  · exact calls_of_code h.waiting.rested hgrown hn' hparent' (hc' ▸ Lower.Signed.vector) hcode' hD hname

instance (reports : Array Report) (text : String) : Preserves (fun s => s.reports = reports) (print text) :=
  heeds_lasting fun hs h => by
    cases h
    exact hs

/-- A run without complaints goes through the listed files and on to the entry point. -/
theorem run_of_clean {bytes : Option Bytes} (h : run s = .ok bytes s') (hclean : s'.reports = #[]) :
    ∃ t, (do for e in s.fileTable.toList do compileFile e.2 : Emit Unit) s = .ok () t ∧
      Entry.emitMain t = .ok () s' := by
  rw [run, get_bind_run, ← Array.forIn_toList] at h
  obtain ⟨_, s1, hfiles, hreport⟩ := bind_eq_ok.1 h
  refine ⟨s1, bind_eq_ok.2 ⟨⟨⟩, s1, hfiles, rfl⟩, ?_⟩
  rw [get_bind_run] at hreport
  obtain ⟨_, s2, hprint, hrest⟩ := bind_eq_ok.1 hreport
  by_cases hempty : s1.reports.isEmpty = true
  · rw [if_pos hempty] at hrest
    rw [Array.isEmpty_iff.1 hempty] at hprint
    obtain ⟨-, rfl⟩ := pure_eq_ok.1 hprint
    obtain ⟨_, s3, hmain, hstream⟩ := bind_eq_ok.1 hrest
    rw [get_bind_run] at hstream
    obtain ⟨stream, s4, hlift, hlast⟩ := bind_eq_ok.1 hstream
    obtain ⟨-, rfl⟩ := lift_eq_ok.1 hlift
    obtain ⟨-, rfl⟩ := pure_eq_ok.1 hlast
    exact hmain
  · rw [if_neg hempty] at hrest
    obtain ⟨-, rfl⟩ := pure_eq_ok.1 hrest
    have hkept : s'.reports = s1.reports := Preserves.of_ok (I := fun s => s.reports = s1.reports) rfl hprint
    exact absurd (Array.isEmpty_iff.2 (hkept.symm.trans hclean)) hempty

theorem sources_ready : ready.files = #[] ∧ ready.fileTable = #[] ∧ ready.definitions = #[] := by
  have h : ready.files.size = 0 ∧ ready.fileTable.size = 0 ∧ ready.definitions.size = 0 := by decide +kernel
  simpa only [Array.size_eq_zero_iff] using h

/-- A module, as it is read. -/
def moduleFile (m : String × Node) : SourceFile := { path := m.1, tree := some m.2 }

theorem Loaded.fileDefinitions_eq_nil (h : Loaded start (modules.map moduleFile) s) (k : Nat) :
    fileDefinitions s k = [] := by
  rw [fileDefinitions]
  cases hfile : s.files[k]? with
  | none => rfl
  | some file =>
    rw [← Array.getElem?_toList, h.entered, List.getElem?_map] at hfile
    obtain ⟨m, -, rfl⟩ := Option.map_eq_some_iff.1 hfile
    rfl

theorem Compiled.fileDefinitions_eq (h : Compiled start done s) {k : Nat} (hk : k < start.files.size)
    (hstart : fileDefinitions start k = []) : fileDefinitions s k = places k done := by
  rw [fileDefinitions, Array.getElem?_eq_getElem hk, Option.getD_some] at hstart
  rw [fileDefinitions, h.files, Array.getElem?_eq_getElem hk]
  simp [hstart]

/-- The entry point is one block, which registers each definition of the listed files under its name with the
functions of its two implementations, and calls the function that registers nowhere else. -/
def Enrols (s : State) : Prop :=
  ∃ (entries : List (String × Nat × Nat)) (f : Nat) (g : Func) (b : Block) (r n : Nat) (before after : List Instr),
    List.Forall₂ (fun d e => Implemented s d e.1 e.2.1 e.2.2) (registered s) entries ∧
    s.program.funcs[f]? = some g ∧ g.name = "main" ∧ g.blocks = #[b] ∧
    b.items.toList = (before ++ registrations r n entries ++ after).map .instr ∧
    (entries ≠ [] → s.program.Calls r registrar) ∧ Avoids s.program before ∧ Avoids s.program after

/-- What has been registered when modules have been compiled without complaints. -/
structure Registration (modules : List (String × Node)) (output : String) (s : State) : Prop where
  /-- The functions of a file are the definitions in its tree that stand in no other, in pre-order. -/
  functions : s.fileTable.toList.map (fun e => (fileDefinitions s e.2).map fun d => s.definitions[d]?.map (·.node)) =
    (listed (modules.map moduleFile)).map fun file => ((file.tree.map Node.outermost).getD []).map some
  /-- File by file, they are the definitions in order. -/
  numbered : registered s = List.range s.definitions.size
  /-- The two implementations of each have been lowered, once each, before the entry point was emitted. -/
  passes : ∃ start finished, load (modules.map moduleFile) { ready with output } = .ok () start ∧
    Passes (List.range (2 * s.definitions.size)) start finished ∧ Entry.emitMain finished = .ok () s
  main : Enrols s

theorem Compiled.registered_eq (h : Compiled start (joined (fileFunctions start) start.fileTable.toList) s)
    (hl : Loaded { ready with output } (modules.map moduleFile) start) :
    registered s = List.range s.definitions.size := by
  have hplaces : registered s = start.fileTable.toList.flatMap fun e =>
      places e.2 (joined (fileFunctions start) start.fileTable.toList) := by
    rw [registered, h.fileTable, List.flatMap_def, List.flatMap_def]
    refine congrArg List.flatten (List.map_congr_left fun e he => ?_)
    obtain ⟨file, hfile, -⟩ := hl.entries e he
    exact h.fileDefinitions_eq (Array.getElem?_eq_some_iff.1 hfile).1 (hl.fileDefinitions_eq_nil _)
  rw [hplaces, h.size_definitions, List.range_eq_range']
  exact flatMap_places hl.nodup_numbers 0

theorem Compiled.nodes_eq (h : Compiled start (joined (fileFunctions start) start.fileTable.toList) s)
    (hl : Loaded { ready with output } (modules.map moduleFile) start) {e : String × Nat}
    (he : e ∈ start.fileTable.toList) : (fileDefinitions s e.2).map (fun d => s.definitions[d]?.map (·.node)) =
      ((start.files[e.2]?.bind (·.tree.map Node.outermost)).getD []).map some := by
  obtain ⟨file, hfile, -⟩ := hl.entries e he
  rw [h.fileDefinitions_eq (Array.getElem?_eq_some_iff.1 hfile).1 (hl.fileDefinitions_eq_nil _)]
  have hnode : ∀ d : Nat, s.definitions[d]?.map (fun D : Definition => D.node) =
      (joined (fileFunctions start) start.fileTable.toList)[d]?.map Prod.snd := by
    intro d
    rw [h.getElem?_definitions, Option.map_map]
    rfl
  rw [funext hnode]
  have hmap := congrArg (List.map (Option.map Prod.snd))
    (map_places e.2 (joined (fileFunctions start) start.fileTable.toList))
  rw [List.map_map, filter_joined hl.nodup_numbers he, List.map_map, List.map_map] at hmap
  refine hmap.trans ?_
  have hfunctions : Node.functions = Node.outermost := funext Node.functions_eq_outermost
  rw [fileFunctions, hfile, hfunctions]
  rfl

theorem Compiled.enrols (h : Compiled start done s) (hm : Main s s') (hregistered : registered s' = registered s)
    (hsound : s'.program.Sound) : Enrols s' := by
  obtain ⟨f, g, b, n, js, v, hg, hname, hblocks, hitems, before, fills, regs, after, rfl, hbefore, hfills, hregs,
    hafter⟩ := hm.block
  obtain ⟨r, entries, hr, hentries, rfl⟩ := registrations_of_row hsound hregs
  have hcalls : entries ≠ [] → s'.program.Calls r registrar := by
    intro hne
    refine hr fun hnone => hne ?_
    rw [hnone] at hentries
    cases hentries
    rfl
  have hfilled : Avoids s'.program fills := hfills.avoids fun _ _ _ h => h.1
  refine ⟨entries, f, g, b, r, n + before.length + fills.length, before ++ fills, after ++ [.ret v], ?_, hg, hname,
    hblocks, ?_, hcalls, avoids_append.2 ⟨hbefore, hfilled⟩,
    avoids_append.2 ⟨hafter, avoids_cons.2 ⟨nofun, avoids_nil⟩⟩⟩
  · rw [hregistered]
    exact hentries.imp fun d e he => h.implemented hm.same hm.grown he
  · rw [hitems]
    simp only [List.append_assoc]

/-- A compilation of modules without complaints: the files have been loaded, their functions compiled, and
the entry point emitted. -/
structure Completed (modules : List (String × Node)) (output : String) (start t s : State) : Prop where
  load : load (modules.map moduleFile) { ready with output } = .ok () start
  loaded : Loaded { ready with output } (modules.map moduleFile) start
  compiled : Compiled start (joined (fileFunctions start) start.fileTable.toList) t
  emitted : Entry.emitMain t = .ok () s
  main : Main t s

/-- When modules are compiled their files have been loaded, and no function has been gone through, before the
run begins. -/
theorem exists_loaded {bytes : Option Bytes}
    (h : compile (modules.map moduleFile) { ready with output } = .ok bytes s) :
    ∃ start, load (modules.map moduleFile) { ready with output } = .ok () start ∧
      Loaded { ready with output } (modules.map moduleFile) start ∧ Compiled start [] start ∧
      run start = .ok bytes s := by
  obtain ⟨_, start, hload, hrun⟩ := bind_eq_ok.1 h
  obtain ⟨hfiles, htable, hdefinitions⟩ := sources_ready
  have hl : Loaded { ready with output } (modules.map moduleFile) start :=
    .of_load (by exact hfiles) (by exact htable) hload
  have hwaiting : Waiting start := Preserves.of_ok (waiting_ready output) hload
  exact ⟨start, hload, hl, .nil hwaiting (hl.impls.trans impls_ready) (hl.definitions.trans hdefinitions), hrun⟩

theorem exists_completed {bytes : Option Bytes}
    (h : compile (modules.map moduleFile) { ready with output } = .ok bytes s) (hclean : s.reports = #[]) :
    ∃ start t, Completed modules output start t s := by
  obtain ⟨start, hload, hl, hnil, hrun⟩ := exists_loaded h
  obtain ⟨t, hfilesRun, hmain⟩ := run_of_clean hrun hclean
  have hc := hnil.files_run hfilesRun
  have hprepared : ∀ d ∈ registered t, Prepared t d := by
    intro d hd
    rw [hc.registered_eq hl, List.mem_range] at hd
    have hD : t.definitions[d]? = some t.definitions[d] := Array.getElem?_eq_getElem hd
    obtain ⟨-, ⟨m, f, -, -, -, -, hm⟩, ⟨m', f', -, -, -, -, hm'⟩⟩ := hc.implFor hD
    exact ⟨_, m, m', hD, hm, hm'⟩
  exact ⟨start, t, hload, hl, hc, hmain, emitMain_eq_ok hc.waiting.rested hprepared hmain⟩

/-- Compiling modules without complaints lowers each definition that stands in no other twice, once for each
way of calling, and registers it once, in the entry point. -/
theorem compile_registers_outermost {bytes : Option Bytes}
    (h : compile (modules.map moduleFile) { ready with output } = .ok bytes s) (hclean : s.reports = #[]) :
    Registration modules output s := by
  obtain ⟨start, t, hload, hl, hc, hmain, hm⟩ := exists_completed h hclean
  have hsameDefinitions : s.definitions = t.definitions := by rw [hm.same]
  have hsameTable : s.fileTable = t.fileTable := by rw [hm.same]
  have hsameFile : fileDefinitions s = fileDefinitions t := by
    funext k
    rw [fileDefinitions, hm.same]
    rfl
  have hsameRegistered : registered s = registered t := by rw [registered, hsameTable, hsameFile, registered]
  refine ⟨?_, ?_, ⟨start, t, hload, ?_, hmain⟩, ?_⟩
  · rw [hsameDefinitions, hsameTable, hsameFile, hc.fileTable]
    have hnodes := congrArg (List.map fun file : Option SourceFile =>
      ((file.bind (·.tree.map Node.outermost)).getD []).map some) hl.map_files
    rw [List.map_map, List.map_map] at hnodes
    exact (List.map_congr_left fun e he => hc.nodes_eq hl he).trans hnodes
  · rw [hsameRegistered, hsameDefinitions, hc.registered_eq hl]
  · rw [hsameDefinitions, hc.size_definitions]
    exact hc.passes
  · exact hc.enrols hm hsameRegistered (Entry.emitMain_linked hc.waiting.rested hmain).sound

/-- Two modules: one with a method and with a function that has another inside, one with a function that
stands in a conditional. -/
def nestedModules : List (String × Node) :=
  [("a.py", .mk {} (.other "Module" [.group [
      .mk {} (.classDef [.group [plainFunction "method" [] [.mk {} .pass]]]),
      plainFunction "outer" [] [plainFunction "inner" [] [.mk {} .pass], .mk {} .pass]]])),
    ("b.py", .mk {} (.other "Module" [.group [
      .mk {} (.ifStmt (.mk {} (.name "x" (some .load))) (.group [plainFunction "guarded" [] [.mk {} .pass]])
        (.group []))]]))]

theorem nestedModules_registered : ∃ bytes s',
    compile (nestedModules.map moduleFile) { ready with output := "nested.o" } = .ok (some bytes) s' ∧
      s'.reports = #[] ∧ s'.definitions.size = 3 ∧ Registration nestedModules "nested.o" s' := by
  obtain ⟨bytes, s', h, hfull⟩ := exists_of_endsWith
    (r := compile (nestedModules.map moduleFile) { ready with output := "nested.o" })
    (P := fun s => s.reports.isEmpty && s.definitions.size == 3) (by decide +kernel)
  obtain ⟨hclean, hsize⟩ := Bool.and_eq_true_iff.1 hfull
  have hclean := Array.isEmpty_iff.1 hclean
  exact ⟨bytes, s', h, hclean, beq_iff_eq.1 hsize, compile_registers_outermost h hclean⟩

end Compile
end Lowering
