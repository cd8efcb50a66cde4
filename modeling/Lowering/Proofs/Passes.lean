import Lowering.Proofs.Compiling
import Lowering.Proofs.Outermost

/-!
The passes of the compiler over the functions of the files. A definition is entered with two
implementations, each is lowered once, and files are gone through in the order in which they are listed.
-/
namespace Lowering

/-- What each round of a loop keeps to, with one more entry gone through, the loop keeps to. -/
theorem Emit.of_forEach {α : Type} {f : α → Emit Unit} (I : List α → State → Prop)
    (hstep : ∀ done x s s', I done s → f x s = .ok () s' → I (done ++ [x]) s') {xs : List α} {s s' : State}
    (hs : I [] s) (h : (do for x in xs do f x : Emit Unit) s = .ok () s') : I xs s' := by
  suffices hall : ∀ done, I done s → I (done ++ xs) s' from hall [] hs
  clear hs
  induction xs generalizing s with
  | nil =>
    intro done hs
    obtain ⟨-, rfl⟩ := pure_eq_ok.1 h
    rwa [List.append_nil]
  | cons x xs ih =>
    intro done hs
    rw [List.forIn_cons, bind_assoc, bind_assoc] at h
    obtain ⟨_, s₁, hx, h⟩ := bind_eq_ok.1 h
    rw [pure_bind] at h
    rw [List.append_cons]
    exact ih h _ (hstep done x s s₁ hs hx)

namespace Compile

open Emit

variable {s s₁ s' start : State} {i file : Nat} {node : Node} {log log' : List Nat}

/-- An implementation that had not been begun has been lowered to its end. -/
def Pass (i : Nat) (s s' : State) : Prop :=
  (s.impls[i]?.getD default).status = 0 ∧ ∃ t, Lower.lowerImpl i (begun s i) = .ok () t ∧
    s' = { t with lowerer := s.lowerer, cursor := s.cursor, tree := s.tree }

/-- Definitions have been entered for files, and these implementations have been lowered, in order. -/
inductive Passes : List Nat → State → State → Prop
  | done (s : State) : Passes [] s s
  | entered {node : Node} {file d : Nat} {log : List Nat} {s s₁ s₂ s' : State}
      (hnew : newDefinition node s = .ok d s₁) (hadd : addToFile file d s₁ = .ok () s₂)
      (rest : Passes log s₂ s') : Passes log s s'
  | lowered {i : Nat} {log : List Nat} {s s₁ s' : State} (hpass : Pass i s s₁) (rest : Passes log s₁ s') :
      Passes (i :: log) s s'

theorem Passes.append (h : Passes log s s₁) (h' : Passes log' s₁ s') : Passes (log ++ log') s s' := by
  induction h with
  | done => exact h'
  | entered hnew hadd _ ih => exact .entered hnew hadd (ih h')
  | lowered hpass _ ih => exact .lowered hpass (ih h')

theorem Waiting.code_begun (hs : Waiting s) (hstatus : (s.impls[i]?.getD default).status = 0) :
    ((begun s i).impls[i]?.getD default).code = none := by
  simp only [begun, Array.getElem?_modify, if_true]
  cases hm : s.impls[i]? with
  | none => rfl
  | some m =>
    rw [hm] at hstatus
    exact hs.unbegun i m hm hstatus

/-- What a pass leaves: the implementation has the function that it was lowered to. -/
theorem Pass.impls (hs : Waiting s) (h : Pass i s s') :
    ∃ f, s'.impls = s.impls.modify i (fun m => { m with status := 1, code := some f }) ∧
      s'.definitions = s.definitions ∧ s'.files = s.files ∧ s'.fileTable = s.fileTable := by
  obtain ⟨hstatus, t, ht, rfl⟩ := h
  obtain ⟨f, hlowered⟩ := Lower.lowerImpl_lowered (rested_begun hs.rested i) (hs.code_begun hstatus) ht
  refine ⟨f, ?_, hlowered.definitions, hlowered.files.1, hlowered.files.2⟩
  refine hlowered.impls.trans ?_
  apply Array.ext_getElem?
  intro j
  simp only [begun, Array.getElem?_modify]
  split <;> simp [Function.comp_def]

theorem pass_of_lowerOnce (hstatus : (s.impls[i]?.getD default).status = 0) (h : lowerOnce i s = .ok () s') :
    Pass i s s' := by
  obtain ⟨m, s₁, hm, h⟩ := bind_eq_ok.1 h
  obtain ⟨rfl, rfl⟩ := pure_eq_ok.1 hm
  rw [if_pos hstatus] at h
  obtain ⟨_, s2, hmark, h⟩ := bind_eq_ok.1 h
  cases hmark
  rw [keepFrame, get_bind_run] at h
  obtain ⟨t, ht, rfl⟩ := restoring_eq_ok.1 h
  exact ⟨hstatus, t, ht, rfl⟩

/-- What is done for one function of a file. -/
def compileFunction (file : Nat) (node : Node) : Emit Unit := do
  let d ← newDefinition node
  addToFile file d
  for impl in ((← get).definitions[d]?.getD default).impls do
    lowerOnce impl

/-- A function of the source with plain parameters. -/
def plainFunction (name : Label) (params : List Label) (body : List Node) : Node :=
  .mk {} (.functionDef name
    (.mk {} (.arguments (.group []) (.group (params.map fun x => .mk {} (.arg x .absent))) .absent (.group [])
      (.group []) .absent (.group [])))
    (.group body) (.group []) .absent)

/-- The functions of the tree of a file. -/
def fileFunctions (s : State) (file : Nat) : List Node :=
  ((s.files[file]?.getD default).tree.map Node.functions).getD []

theorem compileFile_run (file : Nat) (s : State) : compileFile file s = (do
      for node in fileFunctions s file do
        compileFunction file node : Emit Unit) s := by
  rw [compileFile, get_bind_run, fileFunctions]
  cases (s.files[file]?.getD default).tree with
  | none => rfl
  | some tree => simp only [compileFunction, bind_assoc, pure_bind, Option.map_some, Option.getD_some]

theorem forIn_pair_eq_ok {α : Type} {x : α → Emit Unit} {a b : α}
    (h : (do for i in #[a, b] do x i : Emit Unit) s = .ok () s') :
    ∃ s₁, x a s = .ok () s₁ ∧ x b s₁ = .ok () s' := by
  rw [← Array.forIn_toList] at h
  simp only [List.forIn_cons, List.forIn_nil, bind_assoc, pure_bind] at h
  obtain ⟨_, s₁, ha, h⟩ := bind_eq_ok.1 h
  obtain ⟨_, s2, hb, h⟩ := bind_eq_ok.1 h
  obtain ⟨-, rfl⟩ := pure_eq_ok.1 h
  exact ⟨s₁, ha, hb⟩

/-- A definition has been entered for a file, with two implementations that are still to be lowered. -/
structure Added (file : Nat) (node : Node) (s s' : State) : Prop where
  waiting : Waiting s'
  program : s'.program = s.program
  reports : s'.reports = s.reports
  impls : s'.impls =
    (s.impls.push { scope := s.scopes.size, parent := some s.definitions.size, convention := .tuple }).push
      { scope := s.scopes.size + 1, parent := some s.definitions.size, convention := .vector }
  definitions : s'.definitions =
    s.definitions.push { node, impls := #[s.impls.size, s.impls.size + 1], file := some file }
  files : s'.files = s.files.modify file fun f => { f with functions := f.functions.push s.definitions.size }
  fileTable : s'.fileTable = s.fileTable

theorem added_of_ok {d : Nat} (hs : Waiting s) (hnew : newDefinition node s = .ok d s₁)
    (hadd : addToFile file d s₁ = .ok () s') : d = s.definitions.size ∧ Added file node s s' := by
  have hs1 : Waiting s₁ := Preserves.of_ok hs hnew
  have hs' : Waiting s' := Preserves.of_ok hs1 hadd
  obtain ⟨rfl, rfl⟩ := newDefinition_eq_ok hnew
  cases hadd
  refine ⟨rfl, hs', rfl, rfl, rfl, ?_, rfl, rfl⟩
  dsimp only
  rw [Program.modify_push_size]

namespace Added

theorem impls_definition (h : Added file node s s') :
    (s'.definitions[s.definitions.size]?.getD default).impls = #[s.impls.size, s.impls.size + 1] := by
  rw [h.definitions, Array.getElem?_push_size]
  rfl

theorem tuple (h : Added file node s s') : s'.impls[s.impls.size]? =
    some { scope := s.scopes.size, parent := some s.definitions.size, convention := .tuple } := by
  rw [h.impls, Array.getElem?_push, if_neg (by simp), Array.getElem?_push_size]

theorem vector (h : Added file node s s') : s'.impls[s.impls.size + 1]? =
    some { scope := s.scopes.size + 1, parent := some s.definitions.size, convention := .vector } := by
  rw [h.impls, Array.getElem?_push, if_pos (by simp)]

theorem pass (h : Added file node s s₁) (hfirst : lowerOnce s.impls.size s₁ = .ok () s') :
    Pass s.impls.size s₁ s' ∧ (s'.impls[s.impls.size + 1]?.getD default).status = 0 := by
  have hpass : Pass s.impls.size s₁ s' := pass_of_lowerOnce (by rw [h.tuple]; rfl) hfirst
  obtain ⟨f, himpls, -⟩ := hpass.impls h.waiting
  refine ⟨hpass, ?_⟩
  rw [himpls, Array.getElem?_modify, if_neg (by omega), h.vector]
  rfl

end Added

/-- What has been done for one function of a file. -/
structure Entered (file : Nat) (node : Node) (s s' : State) : Prop where
  waiting : Waiting s'
  passes : Passes [s.impls.size, s.impls.size + 1] s s'
  impls : ∃ f f', s'.impls =
    (s.impls.push { scope := s.scopes.size, parent := some s.definitions.size, convention := .tuple,
                    status := 1, code := some f }).push
      { scope := s.scopes.size + 1, parent := some s.definitions.size, convention := .vector,
        status := 1, code := some f' }
  definitions : s'.definitions =
    s.definitions.push { node, impls := #[s.impls.size, s.impls.size + 1], file := some file }
  files : s'.files = s.files.modify file fun f => { f with functions := f.functions.push s.definitions.size }
  fileTable : s'.fileTable = s.fileTable

/-- A function of a file is entered, and its implementations are lowered one after the other. -/
theorem compileFunction_eq_ok (hs : Waiting s) (h : compileFunction file node s = .ok () s') :
    ∃ s₁ s2 s3, newDefinition node s = .ok s.definitions.size s₁ ∧ addToFile file s.definitions.size s₁ = .ok () s2 ∧
      Added file node s s2 ∧ lowerOnce s.impls.size s2 = .ok () s3 ∧ lowerOnce (s.impls.size + 1) s3 = .ok () s' := by
  obtain ⟨d, s₁, hnew, h⟩ := bind_eq_ok.1 h
  obtain ⟨_, s2, hadd, h⟩ := bind_eq_ok.1 h
  obtain ⟨rfl, hadded⟩ := added_of_ok hs hnew hadd
  rw [get_bind_run, hadded.impls_definition] at h
  obtain ⟨s3, hfirst, hsecond⟩ := forIn_pair_eq_ok h
  exact ⟨s₁, s2, s3, hnew, hadd, hadded, hfirst, hsecond⟩

theorem compileFunction_entered (hs : Waiting s) (h : compileFunction file node s = .ok () s') :
    Entered file node s s' := by
  obtain ⟨s₁, s2, s3, hnew, hadd, hadded, hfirst, hsecond⟩ := compileFunction_eq_ok hs h
  have hs3 : Waiting s3 := Preserves.of_ok hadded.waiting hfirst
  have hs' : Waiting s' := Preserves.of_ok hs3 hsecond
  obtain ⟨hpass, hstatus⟩ := hadded.pass hfirst
  have hpass' : Pass (s.impls.size + 1) s3 s' := pass_of_lowerOnce hstatus hsecond
  obtain ⟨f, himpls3, hdefinitions3, hfiles3, htable3⟩ := hpass.impls hadded.waiting
  obtain ⟨f', himpls', hdefinitions', hfiles', htable'⟩ := hpass'.impls hs3
  refine ⟨hs', .entered hnew hadd (.lowered hpass (.lowered hpass' (.done s'))), ⟨f, f', ?_⟩, ?_, ?_, ?_⟩
  · rw [himpls', himpls3, hadded.impls]
    apply Array.ext_getElem?
    intro j
    simp only [Array.getElem?_modify, Array.getElem?_push, Array.size_push]
    grind
  · rw [hdefinitions', hdefinitions3, hadded.definitions]
  · rw [hfiles', hfiles3, hadded.files]
  · rw [htable', htable3, hadded.fileTable]

/-- The functions of files one after the other, each with the number of its file. -/
def joined (g : Nat → List Node) (entries : List (String × Nat)) : List (Nat × Node) :=
  entries.flatMap fun e => (g e.2).map (e.2, ·)

/-- The places at which a file stands, of those that have been gone through. -/
def places (file : Nat) (done : List (Nat × Node)) : List Nat :=
  (done.zipIdx.filter fun e => e.1.1 == file).map Prod.snd

theorem places_concat (k : Nat) (done : List (Nat × Node)) (file : Nat) (node : Node) :
    places k (done ++ [(file, node)]) = places k done ++ if file = k then [done.length] else [] := by
  rw [places, List.zipIdx_append, List.filter_append, List.map_append, places]
  congr 1
  by_cases h : file = k <;> simp [h]

/-- An implementation has been lowered to a function. -/
def Coded (s : State) (i d : Nat) (convention : Convention) : Prop :=
  ∃ m : Impl, s.impls[i]? = some m ∧ m.parent = some d ∧ m.convention = convention ∧ ∃ f, m.code = some f

theorem Coded.of_push {i d : Nat} {c : Convention} {a b : Impl} (h : Coded s i d c)
    (himpls : s'.impls = (s.impls.push a).push b) : Coded s' i d c := by
  obtain ⟨m, hm, hrest⟩ := h
  exact ⟨m, by rw [himpls]; exact Program.getElem?_push_of_some (Program.getElem?_push_of_some hm), hrest⟩

theorem coded_push {d : Nat} {a b : Impl} (himpls : s'.impls = (s.impls.push a).push b)
    (ha : a.parent = some d ∧ a.convention = .tuple ∧ ∃ f, a.code = some f)
    (hb : b.parent = some d ∧ b.convention = .vector ∧ ∃ f, b.code = some f) :
    Coded s' s.impls.size d .tuple ∧ Coded s' (s.impls.size + 1) d .vector := by
  refine ⟨⟨a, ?_, ha⟩, ⟨b, ?_, hb⟩⟩
  · rw [himpls, Array.getElem?_push, if_neg (by simp), Array.getElem?_push_size]
  · rw [himpls, Array.getElem?_push, if_pos (by simp)]

/-- From a state with files but no functions, these functions of files have been gone through. -/
structure Compiled (start : State) (done : List (Nat × Node)) (s : State) : Prop where
  waiting : Waiting s
  passes : Passes (List.range (2 * done.length)) start s
  impls : s.impls.size = 2 * done.length
  coded : ∀ d < done.length, Coded s (2 * d) d .tuple ∧ Coded s (2 * d + 1) d .vector
  definitions : s.definitions.toList =
    done.mapIdx fun d e => { node := e.2, impls := #[2 * d, 2 * d + 1], file := some e.1 }
  files : ∀ k, s.files[k]? =
    start.files[k]?.map fun f : SourceFile => { f with functions := f.functions ++ (places k done).toArray }
  fileTable : s.fileTable = start.fileTable

namespace Compiled

variable {done : List (Nat × Node)}

theorem nil (hs : Waiting start) (himpls : start.impls = #[]) (hdefinitions : start.definitions = #[]) :
    Compiled start [] start where
  waiting := hs
  passes := .done start
  impls := by simp [himpls]
  coded := by simp
  definitions := by simp [hdefinitions]
  files k := by simp [places]
  fileTable := rfl

theorem entered (h : Compiled start done s) (he : Entered file node s s') :
    Compiled start (done ++ [(file, node)]) s' := by
  have hsize : s.definitions.size = done.length := by
    rw [← Array.length_toList, h.definitions, List.length_mapIdx]
  obtain ⟨f, f', himpls⟩ := he.impls
  refine ⟨he.waiting, ?_, ?_, fun d hd => ?_, ?_, fun k => ?_, he.fileTable.trans h.fileTable⟩
  · have hrange : List.range (2 * (done ++ [(file, node)]).length) =
        List.range (2 * done.length) ++ [s.impls.size, s.impls.size + 1] := by
      rw [List.length_append, List.length_singleton, Nat.mul_add, List.range_succ, List.range_succ, h.impls,
        List.append_assoc]
      rfl
    rw [hrange]
    exact h.passes.append he.passes
  · simp only [himpls, Array.size_push, h.impls, List.length_append, List.length_singleton]
    omega
  · rw [List.length_append, List.length_singleton] at hd
    rcases Nat.lt_succ_iff_lt_or_eq.1 hd with hlt | rfl
    · obtain ⟨htuple, hvector⟩ := h.coded d hlt
      exact ⟨htuple.of_push himpls, hvector.of_push himpls⟩
    · rw [hsize] at himpls
      rw [← h.impls]
      exact coded_push himpls ⟨rfl, rfl, f, rfl⟩ ⟨rfl, rfl, f', rfl⟩
  · rw [he.definitions, Array.toList_push, h.definitions, List.mapIdx_concat, h.impls]
  · rw [he.files, Array.getElem?_modify, h.files, places_concat, hsize]
    by_cases hk : file = k
    · subst hk
      cases start.files[file]? <;> simp
    · cases start.files[k]? <;> simp [hk]

theorem fileFunctions_eq (h : Compiled start done s) (k : Nat) : fileFunctions s k = fileFunctions start k := by
  rw [fileFunctions, h.files, fileFunctions]
  cases start.files[k]? <;> rfl

theorem functions (h : Compiled start done s) {nodes : List Node}
    (hok : (do for node in nodes do compileFunction file node : Emit Unit) s = .ok () s') :
    Compiled start (done ++ nodes.map (file, ·)) s' := by
  have hstep : ∀ (ns : List Node) node s s', Compiled start (done ++ ns.map (file, ·)) s →
      compileFunction file node s = .ok () s' → Compiled start (done ++ (ns ++ [node]).map (file, ·)) s' := by
    intro ns node s s' hs hnode
    rw [List.map_append, ← List.append_assoc]
    exact hs.entered (compileFunction_entered hs.waiting hnode)
  refine of_forEach (fun ns => Compiled start (done ++ ns.map (file, ·))) hstep ?_ hok
  rwa [List.map_nil, List.append_nil]

theorem compileFile (h : Compiled start done s) (hok : compileFile file s = .ok () s') :
    Compiled start (done ++ (fileFunctions start file).map (file, ·)) s' := by
  rw [compileFile_run, h.fileFunctions_eq] at hok
  exact h.functions hok

theorem files_run (h : Compiled start [] s) {entries : List (String × Nat)}
    (hok : (do for e in entries do Compile.compileFile e.2 : Emit Unit) s = .ok () s') :
    Compiled start (joined (fileFunctions start) entries) s' := by
  refine of_forEach (fun es => Compiled start (joined (fileFunctions start) es)) (fun es e s s' hs hfile => ?_) h hok
  rw [joined, List.flatMap_append, List.flatMap_singleton]
  exact hs.compileFile hfile

end Compiled

end Compile
end Lowering
