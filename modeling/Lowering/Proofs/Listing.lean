import Lowering.Proofs.Passes

/-!
The files that are compiled, in the order in which they are listed. A path is listed once, where it first
comes up, with the file that came last under it. The functions of the listed files are numbered in order.
-/
namespace Lowering

/-- Listing a name that has been listed changes its entry, and any other is added at the end. -/
theorem Program.toList_list {table : Array (String × Nat)} (name : String) (entry : Nat)
    (hnodup : (table.toList.map Prod.fst).Nodup) : (list table name entry).toList =
      if name ∈ table.toList.map Prod.fst then table.toList.map fun e => if e.1 = name then (name, entry) else e
      else table.toList ++ [(name, entry)] := by
  unfold list
  cases hfind : table.findIdx? (·.1 == name) with
  | none =>
    have hnot : name ∉ table.toList.map Prod.fst := by
      intro hmem
      obtain ⟨e, he, rfl⟩ := List.mem_map.1 hmem
      simpa using Array.findIdx?_eq_none_iff.1 hfind e (Array.mem_toList_iff.1 he)
    rw [if_neg hnot, Array.toList_push]
  | some i =>
    obtain ⟨hi, hname, -⟩ := Array.findIdx?_eq_some_iff_getElem.1 hfind
    have hname : table[i].1 = name := by simpa using hname
    have hmem : name ∈ table.toList.map Prod.fst :=
      List.mem_map.2 ⟨table[i], Array.mem_toList_iff.2 (Array.getElem_mem hi), hname⟩
    rw [if_pos hmem]
    apply List.ext_getElem?
    intro j
    rw [Array.getElem?_toList, Array.getElem?_modify, List.getElem?_map, Array.getElem?_toList]
    cases hj : table[j]? with
    | none => simp
    | some e =>
      obtain ⟨hlt, rfl⟩ := Array.getElem?_eq_some_iff.1 hj
      by_cases hij : i = j
      · subst hij
        simp [hname]
      · have hne : table[j].1 ≠ name := by
          intro heq
          have hinj := (List.nodup_iff_injective_getElem.1 hnodup).eq_iff
            (a := ⟨i, by simpa using hi⟩) (b := ⟨j, by simpa using hlt⟩)
          exact hij (Fin.mk.inj (hinj.1 (by simp [hname, heq])))
        simp [hij, hne]

namespace Compile

open Emit

variable {s s' start : State} {files : List SourceFile} {file : SourceFile}

/-- The file that came last under a path. -/
def lastUnder (files : List SourceFile) (path : String) : Option SourceFile :=
  files.reverse.find? (·.path == path)

/-- The files that are listed. -/
def listed (files : List SourceFile) : List SourceFile :=
  (files.map (·.path)).eraseDups.filterMap (lastUnder files)

theorem path_of_lastUnder {path : String} (h : lastUnder files path = some file) : file.path = path := by
  simpa using List.find?_some h

theorem lastUnder_concat (files : List SourceFile) (file : SourceFile) (path : String) :
    lastUnder (files ++ [file]) path = if file.path = path then some file else lastUnder files path := by
  rw [lastUnder, List.reverse_append, List.reverse_singleton, List.singleton_append]
  split
  next h => exact List.find?_cons_of_pos (by simpa using h)
  next h => exact List.find?_cons_of_neg (by simpa using h)

theorem eraseDups_paths_concat (files : List SourceFile) (file : SourceFile) :
    ((files ++ [file]).map (·.path)).eraseDups = (files.map (·.path)).eraseDups ++
      if file.path ∈ files.map (·.path) then [] else [file.path] := by
  rw [List.map_append, List.eraseDups_append, List.map_singleton]
  congr 1
  split
  next h => rw [List.removeAll, List.filter_cons_of_neg (by simpa using h), List.filter_nil, List.eraseDups_nil]
  next h =>
    rw [List.removeAll, List.filter_cons_of_pos (by simpa using h), List.filter_nil, List.eraseDups_cons,
      List.filter_nil, List.eraseDups_nil]

/-- The files have been entered and listed. -/
structure Loaded (start : State) (files : List SourceFile) (s : State) : Prop where
  entered : s.files.toList = files
  names : s.fileTable.toList.map Prod.fst = (files.map (·.path)).eraseDups
  nodup : (s.fileTable.toList.map Prod.fst).Nodup
  entries : ∀ e ∈ s.fileTable.toList, ∃ file, s.files[e.2]? = some file ∧ lastUnder files e.1 = some file
  definitions : s.definitions = start.definitions
  impls : s.impls = start.impls

namespace Loaded

theorem step (h : Loaded start files s) (hok : (do addFile (← newFile file) : Emit Unit) s = .ok () s') :
    Loaded start (files ++ [file]) s' := by
  have hs' : s' = { s with
      files := s.files.push file, fileTable := Program.list s.fileTable file.path s.files.size } := by
    obtain ⟨i, s1, hnew, hadd⟩ := bind_eq_ok.1 hok
    cases hnew
    cases hadd
    simp
  have hmem : file.path ∈ s.fileTable.toList.map Prod.fst ↔ file.path ∈ files.map (·.path) := by
    rw [h.names, List.mem_eraseDups]
  have htable := Program.toList_list file.path s.files.size h.nodup
  subst hs'
  have hnames : (Program.list s.fileTable file.path s.files.size).toList.map Prod.fst =
      s.fileTable.toList.map Prod.fst ++ if file.path ∈ files.map (·.path) then [] else [file.path] := by
    rw [htable]
    by_cases hin : file.path ∈ s.fileTable.toList.map Prod.fst
    · rw [if_pos hin, if_pos (hmem.1 hin), List.append_nil, List.map_map]
      refine List.map_congr_left fun e _ => ?_
      by_cases he : e.1 = file.path <;> simp [he]
    · rw [if_neg hin, if_neg fun hin' => hin (hmem.2 hin'), List.map_append]
      rfl
  refine ⟨by rw [Array.toList_push, h.entered], ?_, ?_, fun e he => ?_, h.definitions, h.impls⟩
  · rw [hnames, h.names, eraseDups_paths_concat]
  · dsimp only
    rw [hnames]
    split
    next => simpa using h.nodup
    next hnot =>
      refine List.nodup_append.2 ⟨h.nodup, List.nodup_singleton _, fun a ha b hb => ?_⟩
      rw [List.mem_singleton.1 hb]
      rintro rfl
      exact hnot (hmem.1 ha)
  · rw [lastUnder_concat]
    have hold : ∀ e' ∈ s.fileTable.toList, e'.1 ≠ file.path → ∃ f, (s.files.push file)[e'.2]? = some f ∧
        (if file.path = e'.1 then some file else lastUnder files e'.1) = some f := by
      intro e' he' hne
      obtain ⟨f, hf, hlast⟩ := h.entries e' he'
      exact ⟨f, Program.getElem?_push_of_some hf, by rw [if_neg hne.symm, hlast]⟩
    dsimp only at he ⊢
    rw [htable] at he
    split at he
    next =>
      obtain ⟨e', he', rfl⟩ := List.mem_map.1 he
      by_cases hname : e'.1 = file.path
      · rw [if_pos hname]
        exact ⟨file, Array.getElem?_push_size, if_pos rfl⟩
      · rw [if_neg hname]
        exact hold e' he' hname
    next hnot =>
      rcases List.mem_append.1 he with he | he
      · exact hold e he fun hname => hnot (hname ▸ List.mem_map_of_mem he)
      · rw [List.mem_singleton.1 he]
        exact ⟨file, Array.getElem?_push_size, if_pos rfl⟩

theorem of_load (hfiles : start.files = #[]) (htable : start.fileTable = #[]) (h : load files start = .ok () s) :
    Loaded start files s := by
  refine of_forEach (f := fun file => do addFile (← newFile file)) (Loaded start)
    (fun _ _ _ _ hs hfile => hs.step hfile) ⟨?_, ?_, ?_, ?_, rfl, rfl⟩ ?_
  · rw [hfiles]
  · rw [htable]
    rfl
  · simp [htable]
  · simp [htable]
  · rw [← h, load]
    simp only [bind_assoc]

theorem map_files (h : Loaded start files s) :
    s.fileTable.toList.map (fun e => s.files[e.2]?) = (listed files).map some := by
  have hlast : s.fileTable.toList.map (fun e => s.files[e.2]?) =
      (s.fileTable.toList.map Prod.fst).map (lastUnder files) := by
    rw [List.map_map]
    refine List.map_congr_left fun e he => ?_
    obtain ⟨file, hfile, hlast⟩ := h.entries e he
    exact hfile.trans hlast.symm
  rw [hlast, listed, ← h.names]
  have hsome : ∀ path ∈ s.fileTable.toList.map Prod.fst, (lastUnder files path).isSome = true := by
    intro path hpath
    obtain ⟨e, he, rfl⟩ := List.mem_map.1 hpath
    obtain ⟨file, -, hlast⟩ := h.entries e he
    rw [hlast]
    rfl
  generalize s.fileTable.toList.map Prod.fst = paths at hsome
  induction paths with
  | nil => rfl
  | cons path paths ih =>
    obtain ⟨hpath, hrest⟩ := List.forall_mem_cons.1 hsome
    obtain ⟨file, hfile⟩ := Option.isSome_iff_exists.1 hpath
    rw [List.map_cons, List.filterMap_cons, hfile, List.map_cons, ih hrest]

theorem nodup_numbers (h : Loaded start files s) : (s.fileTable.toList.map Prod.snd).Nodup := by
  refine List.Nodup.of_map (fun k => (s.files[k]?.getD default).path) ?_
  have hpaths : (s.fileTable.toList.map Prod.snd).map (fun k => (s.files[k]?.getD default).path) =
      s.fileTable.toList.map Prod.fst := by
    rw [List.map_map]
    refine List.map_congr_left fun e he => ?_
    obtain ⟨file, hfile, hlast⟩ := h.entries e he
    rw [Function.comp_apply, hfile]
    exact path_of_lastUnder hlast
  rw [hpaths]
  exact h.nodup

end Loaded

section Numbering

variable {g : Nat → List Node} {entries : List (String × Nat)}

theorem fst_mem_of_mem_joined {x : Nat × Node} (h : x ∈ joined g entries) : x.1 ∈ entries.map Prod.snd := by
  obtain ⟨e, he, hx⟩ := List.mem_flatMap.1 h
  obtain ⟨node, -, rfl⟩ := List.mem_map.1 hx
  exact List.mem_map_of_mem he

/-- The functions of a file are those that stand with its number. -/
theorem filter_joined (hnodup : (entries.map Prod.snd).Nodup) {e : String × Nat} (he : e ∈ entries) :
    (joined g entries).filter (fun x => x.1 == e.2) = (g e.2).map (e.2, ·) := by
  induction entries with
  | nil => cases he
  | cons e' entries ih =>
    rw [List.map_cons, List.nodup_cons] at hnodup
    rw [joined, List.flatMap_cons, List.filter_append]
    rcases List.mem_cons.1 he with rfl | he
    · have hrest : (joined g entries).filter (fun x => x.1 == e.2) = [] := by
        refine List.filter_eq_nil_iff.2 fun x hx heq => hnodup.1 ?_
        rw [← beq_iff_eq.1 heq]
        exact fst_mem_of_mem_joined hx
      rw [List.filter_eq_self.2 (by simp), ← joined, hrest, List.append_nil]
    · have hne : e'.2 ≠ e.2 := fun heq => hnodup.1 (heq ▸ List.mem_map_of_mem he)
      rw [List.filter_eq_nil_iff.2 (by simp [hne]), List.nil_append]
      exact ih hnodup.2 he

/-- The places of the files, one after the other, are all places in order. -/
theorem flatMap_places (hnodup : (entries.map Prod.snd).Nodup) (k : Nat) :
    entries.flatMap (fun e => (((joined g entries).zipIdx k).filter fun x => x.1.1 == e.2).map Prod.snd) =
      List.range' k (joined g entries).length := by
  induction entries generalizing k with
  | nil => rfl
  | cons e entries ih =>
    rw [List.map_cons, List.nodup_cons] at hnodup
    have hjoined : joined g (e :: entries) = (g e.2).map (e.2, ·) ++ joined g entries := List.flatMap_cons
    have hfirst : ((joined g (e :: entries)).zipIdx k).filter (fun x => x.1.1 == e.2) =
        ((g e.2).map (e.2, ·)).zipIdx k := by
      rw [hjoined, List.zipIdx_append, List.filter_append, List.filter_eq_self.2, List.filter_eq_nil_iff.2,
        List.append_nil]
      · intro x hx heq
        refine hnodup.1 (beq_iff_eq.1 heq ▸ fst_mem_of_mem_joined (g := g) ?_)
        exact List.fst_mem_of_mem_zipIdx hx
      · intro x hx
        obtain ⟨node, -, hnode⟩ := List.mem_map.1 (List.fst_mem_of_mem_zipIdx hx)
        rw [← hnode]
        exact beq_self_eq_true _
    have hrest : ∀ e' ∈ entries, ((joined g (e :: entries)).zipIdx k).filter (fun x => x.1.1 == e'.2) =
        ((joined g entries).zipIdx (k + (g e.2).length)).filter fun x => x.1.1 == e'.2 := by
      intro e' he'
      rw [hjoined, List.zipIdx_append, List.filter_append, List.filter_eq_nil_iff.2, List.nil_append, List.length_map]
      intro x hx heq
      obtain ⟨node, -, hnode⟩ := List.mem_map.1 (List.fst_mem_of_mem_zipIdx hx)
      refine hnodup.1 (List.mem_map.2 ⟨e', he', ?_⟩)
      rw [← beq_iff_eq.1 heq, ← hnode]
    rw [List.flatMap_cons, hfirst, List.zipIdx_map_snd, List.length_map]
    have hcongr : entries.flatMap (fun e' =>
          (((joined g (e :: entries)).zipIdx k).filter fun x => x.1.1 == e'.2).map Prod.snd) =
        entries.flatMap fun e' => (((joined g entries).zipIdx (k + (g e.2).length)).filter
          fun x => x.1.1 == e'.2).map Prod.snd := by
      rw [List.flatMap_def, List.flatMap_def]
      exact congrArg List.flatten (List.map_congr_left fun e' he' => by rw [hrest e' he'])
    rw [hcongr, ih hnodup.2, hjoined, List.length_append, List.length_map, List.range'_append_1]

theorem map_places (k : Nat) (done : List (Nat × Node)) :
    (places k done).map (fun d => done[d]?) = (done.filter fun x => x.1 == k).map some := by
  have hpair : (places k done).map (fun d => done[d]?) =
      (done.zipIdx.filter fun e => e.1.1 == k).map fun e => some e.1 := by
    rw [places, List.map_map]
    refine List.map_congr_left fun e he => ?_
    exact List.mem_zipIdx_iff_getElem?.1 (List.mem_filter.1 he).1
  have hfst : done.filter (fun x => x.1 == k) = (done.zipIdx.filter fun e => e.1.1 == k).map Prod.fst := by
    conv => lhs; rw [← List.zipIdx_map_fst 0 done]
    rw [List.filter_map]
    rfl
  rw [hpair, hfst, List.map_map]
  rfl

end Numbering

end Compile
end Lowering
