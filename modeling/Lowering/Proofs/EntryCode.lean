import Lowering.Proofs.PoolOrder
import Lowering.Proofs.StraightCode

/-!
The code of the entry point. It is one block, in which every constant of the pool is made and stored in
its variable, one after the other; a constant that lies inside another is loaded from its variable after
it has been stored there. The code that makes a text is known one by one, and of the rest it is known which
functions it calls.
-/
namespace Lowering

/-- An access to a global variable, by the number of the variable. -/
inductive Access
  | stored (id : Int)
  | loaded (id : Int)
  deriving DecidableEq

namespace Instr

/-- The instructions compute the values from a number on. -/
def Counted : Nat → List Instr → Prop
  | _, [] => True
  | n, i :: rest => i.result? = some n ∧ Counted (n + 1) rest

/-- The addresses of variables that are known after a row of instructions. -/
def addresses : List (Int × Int) → List Instr → List (Int × Int)
  | known, [] => known
  | known, .globalVar id r :: rest => addresses ((r, id) :: known) rest
  | known, _ :: rest => addresses known rest

/-- The accesses to variables that a row of instructions makes, when the addresses of some variables are
known. -/
def accesses : List (Int × Int) → List Instr → List Access
  | _, [] => []
  | known, .globalVar id r :: rest => accesses ((r, id) :: known) rest
  | known, .store _ (.id a) _ :: rest => ((known.lookup a).map .stored).toList ++ accesses known rest
  | known, .load (.id a) _ :: rest => ((known.lookup a).map .loaded).toList ++ accesses known rest
  | known, _ :: rest => accesses known rest

variable {n : Nat} {is : List Instr}

theorem counted_append {js : List Instr} : Counted n (is ++ js) ↔ Counted n is ∧ Counted (n + is.length) js := by
  induction is generalizing n with
  | nil => simp [Counted]
  | cons i is ih =>
    simp only [List.cons_append, Counted, ih, List.length_cons, and_assoc]
    rw [show n + 1 + is.length = n + (is.length + 1) by omega]

theorem accesses_append (known : List (Int × Int)) (is js : List Instr) :
    accesses known (is ++ js) = accesses known is ++ accesses (addresses known is) js := by
  fun_induction accesses known is <;> simp_all [accesses, addresses]

theorem lt_of_mem_addresses {known : List (Int × Int)}
    (hknown : ∀ e ∈ known, e.1 < n) (his : Counted n is) : ∀ e ∈ addresses known is, e.1 < (n + is.length : Nat) := by
  fun_induction addresses known is generalizing n with
  | case1 known => simpa using hknown
  | case2 known id r rest ih =>
    obtain ⟨hr, hrest⟩ := his
    obtain rfl : r = n := Option.some.inj hr
    have hmore : ∀ e ∈ ((r : Int), id) :: known, e.1 < (r + 1 : Nat) := by
      refine List.forall_mem_cons.2 ⟨by dsimp only; omega, fun e he => ?_⟩
      have := hknown e he
      omega
    intro e he
    have := ih hmore hrest e he
    rw [List.length_cons]
    omega
  | case3 known i rest _ ih =>
    intro e he
    have := ih (fun e he => by have := hknown e he; omega) his.2 e he
    rw [List.length_cons]
    omega

theorem lookup_addresses {known : List (Int × Int)} {a : Int} (ha : a < n)
    (his : Counted n is) : (addresses known is).lookup a = known.lookup a := by
  fun_induction addresses known is generalizing n with
  | case1 known => rfl
  | case2 known id r rest ih =>
    obtain ⟨hr, hrest⟩ := his
    obtain rfl : r = n := Option.some.inj hr
    have hne : (a == (r : Int)) = false := by
      rw [beq_eq_false_iff_ne]
      omega
    rw [ih (by omega) hrest, List.lookup_cons, hne]
  | case3 known i rest _ ih => exact ih (by omega) his.2

theorem lookup_eq_none_of_lt {known : List (Int × Int)} (hknown : ∀ e ∈ known, e.1 < n) {a : Int}
    (ha : n ≤ a) : known.lookup a = none := by
  refine List.lookup_eq_none_iff.2 fun e he => ?_
  have := hknown e he
  exact bne_iff_ne.2 (by omega)

/-- A row of so many instructions, which compute the values from a number on and make these accesses,
whatever was known of the values before. -/
structure Codes (n k : Nat) (as : List Access) (is : List Instr) : Prop where
  length : is.length = k
  counted : Counted n is
  makes : ∀ known : List (Int × Int), (∀ e ∈ known, e.1 < n) → accesses known is = as

theorem Codes.nil (n : Nat) : Codes n 0 [] [] := ⟨rfl, trivial, fun _ _ => rfl⟩

theorem Codes.append {k l : Nat} {as bs : List Access} {js : List Instr} (his : Codes n k as is)
    (hjs : Codes (n + k) l bs js) : Codes n (k + l) (as ++ bs) (is ++ js) where
  length := by rw [List.length_append, his.length, hjs.length]
  counted := counted_append.2 ⟨his.counted, by rw [his.length]; exact hjs.counted⟩
  makes known hknown := by
    have hafter := lt_of_mem_addresses hknown his.counted
    rw [his.length] at hafter
    rw [accesses_append, his.makes known hknown, hjs.makes _ hafter]

/-- What is computed between the address of a variable and the store into it. -/
theorem Codes.stored {k : Nat} {as : List Access} (his : Codes (n + 1) k as is)
    (id : Int) (v : Operand) : Codes n (k + 2) (as ++ [.stored id])
      (.globalVar id n :: (is ++ [.store v (.id n) (n + 1 + k)])) where
  length := by simp [his.length]
  counted := ⟨rfl, counted_append.2 ⟨his.counted, by rw [his.length]; exact ⟨rfl, trivial⟩⟩⟩
  makes known hknown := by
    have hmore : ∀ e ∈ ((n : Int), id) :: known, e.1 < (n + 1 : Nat) := by
      refine List.forall_mem_cons.2 ⟨by dsimp only; omega, fun e he => ?_⟩
      have := hknown e he
      omega
    rw [accesses, accesses_append, his.makes _ hmore]
    have hlookup : (addresses (((n : Int), id) :: known) is).lookup (n : Int) = some id :=
      (lookup_addresses (by omega) his.counted).trans List.lookup_cons_self
    simp [accesses, hlookup]

end Instr

namespace Constant

/-- The constant is not too large to be made: an integer has eight bytes, and the length of a text
four. -/
def Fits : Constant → Prop
  | int n => fitsSigned 8 n = true
  | text s => s.length < 2 ^ 31
  | _ => True

instance : DecidablePred Fits := fun c => by
  unfold Fits
  split <;> infer_instance

/-- How many values are computed to make the object of a constant. -/
def steps : Constant → Nat
  | text _ => 4
  | tuple items | frozenset items => 2 + 8 * items.length
  | _ => 2

end Constant

def Program.constantId (p : Program) (c : Constant) : Int := p.variableId ((p.findConstant c).getD 0)

namespace EntryBlock

variable {p : Program} {n : Nat}

/-- The function that registers the implementations of a function. -/
def registrar : String := "flyable_add_impl"

/-- No instruction calls the function that registers. -/
def Avoids (p : Program) (js : List Instr) : Prop := ∀ i ∈ js, p.callee i ≠ some registrar

theorem avoids_nil : Avoids p [] := by simp [Avoids]

theorem avoids_cons {i : Instr} {js : List Instr} :
    Avoids p (i :: js) ↔ p.callee i ≠ some registrar ∧ Avoids p js := List.forall_mem_cons

theorem avoids_append {js ks : List Instr} : Avoids p (js ++ ks) ↔ Avoids p js ∧ Avoids p ks :=
  List.forall_mem_append

/-- The code that makes a text from its characters and their number, by a function of the library. -/
def textCode (i : Nat) (text : String) (n : Nat) : List Instr :=
  [.globalText (some text) n, .cast .pointer (.id n) .int8Ptr (n + 1), .int64 (.id text.length) (n + 2),
    .call i [.id (n + 1 : Nat), .id (n + 2 : Nat)] (n + 3)]

/-- A constant is made and stored in its variable. -/
def Fills (p : Program) (e : Constant × Nat) (n : Nat) (js : List Instr) : Prop :=
  Avoids p js ∧ ∀ text, e.1 = .text text → ∃ i, p.Calls i "PyUnicode_FromStringAndSize" ∧
    js = .globalVar (p.variableId e.2) n :: (textCode i text (n + 1) ++ [.store (.id (n + 4 : Nat)) (.id n) (n + 5)])

end EntryBlock

namespace Straight.Row

variable {γ : Type} {made made' : γ → Nat → List Instr → Prop} {xs : List γ} {n : Nat} {js ks : List Instr}

theorem imp (h : Row made xs n js) (hmade : ∀ x n js, made x n js → made' x n js) : Row made' xs n js := by
  induction xs generalizing n js with
  | nil => exact h
  | cons x xs ih =>
    obtain ⟨ks, ls, rfl, hx, hrest⟩ := h
    exact ⟨ks, ls, rfl, hmade x n ks hx, ih hrest⟩

theorem avoids {p : Program} (h : Row made xs n js) (hmade : ∀ x n ks, made x n ks → EntryBlock.Avoids p ks) :
    EntryBlock.Avoids p js := by
  induction xs generalizing n js with
  | nil =>
    obtain rfl : js = [] := h
    exact EntryBlock.avoids_nil
  | cons x xs ih =>
    obtain ⟨ks, ls, rfl, hx, hrest⟩ := h
    exact EntryBlock.avoids_append.2 ⟨hmade x n ks hx, ih hrest⟩

theorem codes (count : γ → Nat) (accessed : γ → List Access) (h : Row made xs n js)
    (hmade : ∀ x n js, made x n js → Instr.Codes n (count x) (accessed x) js) :
    Instr.Codes n (Entry.total count xs) (xs.flatMap accessed) js := by
  induction xs generalizing n js with
  | nil =>
    obtain rfl : js = [] := h
    exact .nil n
  | cons x xs ih =>
    obtain ⟨ks, ls, rfl, hx, hrest⟩ := h
    have hks := hmade x n ks hx
    exact hks.append (ih (hks.length ▸ hrest))

end Straight.Row

namespace Entry

open Emit Instr Straight EntryBlock

/-- The functions that the entry point refers to. -/
def runtimeNames : List String :=
  ["main", "Py_Initialize", "PyImport_ImportModule", "PyLong_FromLongLong", "PyFloat_FromDouble",
    "PyTuple_New", "PyUnicode_FromStringAndSize", "flyable_init", "Py_BytesMain"]

def objectType : MachineType := (MachineType.ofStruct 0).pointerTo

/-- The program has what the entry point makes use of. -/
structure Equipped (p : Program) : Prop where
  sound : p.Sound
  object : Program.objectPtr p = .ok objectType p
  builtins : ∃ i g, p.known.builtins = some i ∧ p.globals[i]? = some g ∧ g.id < 7

theorem total_const {γ : Type} (k : Nat) (xs : List γ) : total (fun _ => k) xs = k * xs.length := by
  induction xs with
  | nil => rfl
  | cons x xs ih =>
    rw [total, ih, List.length_cons, Nat.mul_succ]
    omega

theorem length_le_total {γ : Type} {count : γ → Nat} {xs : List γ} (h : ∀ x ∈ xs, 1 ≤ count x) :
    xs.length ≤ total count xs := by
  induction xs with
  | nil => exact Nat.le_refl 0
  | cons x xs ih =>
    obtain ⟨hx, hxs⟩ := List.forall_mem_cons.1 h
    have := ih hxs
    rw [List.length_cons, total]
    omega

/-- Where the entry point is written: with room, its program is equipped, and its variables can be
numbered. -/
structure Ready (o : Site) : Prop where
  names : o.names = runtimeNames
  equipped : o.room → Equipped o.base.program
  table : o.room → o.base.program.globalTable.size ≤ 2 ^ 31

variable {p : Program} {o : Site} {K : Program → Prop} {n : Nat}

/-- A value that has been computed can be an operand. -/
theorem fits_value {k : Nat} (h : k < 2 ^ 31) : (Field.word (.id k)).Fits :=
  Field.fits_word_id.2 (fitsSigned_of_lt h)

theorem avoids_call {i : Nat} {name : String} (h : p.Calls i name) (hname : name ∈ runtimeNames) (args : List Operand)
    (r : Nat) {js : List Instr} (hjs : Avoids p js) : Avoids p (.call i args r :: js) := by
  refine avoids_cons.2 ⟨fun heq => ?_, hjs⟩
  rw [h.callee] at heq
  exact absurd (Option.some.inj heq ▸ hname) (by decide)

namespace Ready

theorem objectPtr {R : Post MachineType} (ho : Ready o)
    (h : ∀ t, (o.room → t = objectType) → R t n [] K) : Emits o K n Emit.objectPtr R := by
  refine .objectPtr (fun hroom => ⟨_, (ho.equipped hroom).object⟩) fun t ht => h t fun hroom => ?_
  cases ht.symm.trans (ho.equipped hroom).object
  rfl

theorem library {R : Post Operand} {name : String} {result : MachineType} {params : List MachineType}
    {args : List Operand} (ho : Ready o) (hname : name ∈ runtimeNames)
    (hw : o.room → args.length < 2 ^ 31 ∧ (∀ v ∈ args, (Field.word v).Fits) ∧ n < 2 ^ 31)
    (h : ∀ i : Nat, R (.id n) (n + 1) [.call i args n] fun p => K p ∧ p.Calls i name) : Emits o K n (do
      let f ← external name result params
      call f args) R := by
  refine .bind (.external (fun _ => ho.names ▸ hname) fun i => .call (fun _ p hp => ⟨_, hp.2⟩) (fun hroom hi => ?_) (h i))
  rw [ho.names] at hi
  exact whole_call.2 ⟨Nat.lt_trans hi (by decide), hw hroom⟩

theorem globalVar {R : Post Operand} {i : Nat} (ho : Ready o) (hi : o.room → ∃ g, o.base.program.globals[i]? = some g)
    (hn : o.room → n < 2 ^ 31) (h : R (.id n) (n + 1) [.globalVar (o.base.program.variableId i) n] fun p =>
      K p ∧ p.variableId i = o.base.program.variableId i) : Emits o K n (Emit.globalVar i) R := by
  refine .globalVar hi (fun hroom => whole_globalVar.2 ⟨?_, hn hroom⟩) h
  obtain ⟨g, hg⟩ := hi hroom
  have htable := ho.table hroom
  obtain ⟨hnonneg, hlt⟩ := (ho.equipped hroom).sound.globals i g hg
  rw [Program.variableId, hg, Option.getD_some, show g.id = (g.id.toNat : Int) by omega]
  exact fitsSigned_of_lt (by omega)

theorem tupleItemPtr {R : Post Operand} {a i : Nat} (ho : Ready o)
    (hroom : o.room → a < 2 ^ 31 ∧ i < 2 ^ 31 ∧ n + 4 ≤ 2 ^ 31)
    (h : ∀ t t', R (.id (n + 3 : Nat)) (n + 4) [.cast .pointer (.id a) t n, .int64 3 (n + 1),
      .binary .add (.id i) (.id (n + 1 : Nat)) (n + 2), .element t' (.id n) [.id (n + 2 : Nat)] (n + 3)] K) :
    Emits o K n (Emit.tupleItemPtr (.id a) (.id i)) R := by
  refine .bind (ho.objectPtr fun t ht => ?_)
  refine .bind (.assign rfl (fun hr => ?_) ?_)
  · rw [ht hr]
    exact (whole_ptrCast (by decide)).2 (by have := hroom hr; omega)
  refine .bind (.assign rfl (fun hr => whole_int64.2 ⟨by decide, by have := hroom hr; omega⟩) ?_)
  refine .bind (.assign rfl (fun hr => whole_add.2 (by have := hroom hr; omega)) ?_)
  refine .bind (ho.objectPtr fun t' ht' => .assign rfl (fun hr => ?_) (h _ t'))
  rw [ht' hr]
  exact (whole_element (by decide)).2 (by have := hroom hr; omega)

end Ready

variable {c : Constant}

theorem emits_pooled {R : Post Nat} (hc : o.room → ∃ i, o.base.program.findConstant c = some i)
    (h : ∀ i, o.base.program.findConstant c = some i → R i n [] K) : Emits o K n (pooled c) R := by
  refine .bind (.get fun q hq => ?_)
  have hfind : q.findConstant c = o.base.program.findConstant c := by
    rw [Program.findConstant, hq, Program.findConstant]
  dsimp only
  rw [hfind]
  cases hbase : o.base.program.findConstant c with
  | none => exact .throw fun hroom => by simpa [hbase] using hc hroom
  | some i => exact .pure (h i hbase)

theorem emits_item (ho : Ready o) {item : Constant} {a i : Nat}
    (hitem : o.room → ∃ v g, o.base.program.findConstant item = some v ∧ o.base.program.globals[v]? = some g)
    (hroom : o.room → i < 2 ^ 31 ∧ a < 2 ^ 31 ∧ n + 8 ≤ 2 ^ 31) : Emits o K n (do
      let value ← load (← globalVar (← pooled item))
      let index ← int64 i
      let place ← tupleItemPtr (.id a) index
      discard (store value place)
      return ForInStep.yield PUnit.unit) fun r m js K' => r = .yield ⟨⟩ ∧ m = n + js.length ∧
        (o.room → js.length = 8) ∧ ∀ p, K' p → K p ∧ Avoids p js ∧
          Codes n 8 [.loaded (o.base.program.constantId item)] js := by
  refine .bind (emits_pooled (fun hr => ?_) fun v hv => .bind (ho.globalVar (fun hr => ?_) (fun hr => ?_) ?_))
  · obtain ⟨v, -, hv, -⟩ := hitem hr
    exact ⟨v, hv⟩
  · obtain ⟨v', g, hv', hg⟩ := hitem hr
    cases hv.symm.trans hv'
    exact ⟨g, hg⟩
  · have := hroom hr
    omega
  refine .bind (.assign rfl (fun hr => whole_load.2 (by have := hroom hr; omega)) ?_)
  refine .bind (.assign rfl (fun hr => whole_int64.2 ⟨fitsSigned_eight_of_lt (hroom hr).1, ?_⟩) ?_)
  · have := hroom hr
    omega
  refine .bind (ho.tupleItemPtr (fun hr => by have := hroom hr; omega) fun t t' => ?_)
  refine .bind (.discard (.assign rfl (fun hr => whole_store.2 (by have := hroom hr; omega)) ?_))
  refine .pure ⟨rfl, rfl, fun _ => rfl, fun p hp => ⟨hp.1, by simp [Avoids, Program.callee], rfl,
    ⟨rfl, rfl, rfl, rfl, rfl, rfl, rfl, rfl, trivial⟩, fun known hknown => ?_⟩⟩
  have hne : (n : Int) ≠ (n + 1 + 1 + 1 + 3 : Nat) := by omega
  have hnone : known.lookup ((n + 1 + 1 + 1 + 3 : Nat) : Int) = none := lookup_eq_none_of_lt hknown (by omega)
  have hid : o.base.program.constantId item = o.base.program.variableId v := by
    rw [Program.constantId, hv, Option.getD_some]
  simp only [List.cons_append, List.nil_append, accesses, List.lookup_cons_self, Option.map_some,
    Option.toList_some, List.lookup_cons, beq_false_of_ne hne.symm, hnone, Option.map_none, Option.toList_none, hid]

theorem codes_int64 (v : Operand) (n : Nat) : Codes n 1 [] [.int64 v n] :=
  ⟨rfl, ⟨rfl, trivial⟩, fun _ _ => rfl⟩

theorem codes_call (f : Int) (args : List Operand) (n : Nat) : Codes n 1 [] [.call f args n] :=
  ⟨rfl, ⟨rfl, trivial⟩, fun _ _ => rfl⟩

/-- The code for a constant, up to its object. -/
def Makes (o : Site) (K : Program → Prop) (c : Constant) (n : Nat) : Post Operand := fun v m js K' =>
  (∃ k : Nat, v = .id k ∧ k < m) ∧ m = n + js.length ∧ (o.room → js.length = c.steps) ∧
    ∀ p, K' p → K p ∧ Codes n c.steps (c.members.map fun x => .loaded (o.base.program.constantId x)) js ∧
      Avoids p js ∧ ∀ text, c = .text text →
        v = .id (n + 3 : Nat) ∧ ∃ i, p.Calls i "PyUnicode_FromStringAndSize" ∧ js = textCode i text n

theorem emits_constantTuple (ho : Ready o) {items : List Constant} (hc : c.members = items)
    (hsteps : c.steps = 2 + 8 * items.length) (htext : ∀ text, c ≠ .text text)
    (hitems : o.room → ∀ x ∈ items, ∃ v g, o.base.program.findConstant x = some v ∧ o.base.program.globals[v]? = some g)
    (hroom : o.room → n + c.steps ≤ 2 ^ 31) : Emits o K n (constantTuple items) (Makes o K c n) := by
  rw [hsteps] at hroom
  have hsum : total (fun _ => 8) items.zipIdx = 8 * items.length := by
    rw [total_const, List.length_zipIdx]
  refine .bind (.assign rfl (fun hr => ?_) ?_)
  · have := hroom hr
    exact whole_int64.2 ⟨fitsSigned_eight_of_lt (by omega), by omega⟩
  refine .bind (.bind (ho.objectPtr fun t _ => ho.library (by decide) (fun hr => ?_) fun f => ?_))
  · have := hroom hr
    exact ⟨by simp, List.forall_mem_cons.2 ⟨fits_value (by omega), by simp⟩, by omega⟩
  refine .bind ((Emits.rows (fun _ => 8) (fun p e n js => Avoids p js ∧
    Codes n 8 [.loaded (o.base.program.constantId e.1)] js) ?_ fun hr => ?_).mono ?_)
  · rintro ⟨item, i⟩ hitem m K' hm
    obtain ⟨hi, hget⟩ := List.mem_zipIdx' hitem
    refine emits_item ho (fun hr => hitems hr item (hget ▸ List.getElem_mem hi)) fun hr => ?_
    have := hroom hr
    have := hm hr
    omega
  · have := hroom hr
    rw [hsum]
    omega
  rintro _ _ js K' ⟨rfl, hlength, hrow⟩
  refine .pure ⟨⟨n + 1, rfl, by omega⟩, ?_, fun hr => ?_, fun p hp => ?_⟩
  · simp only [List.length_append, List.length_singleton, List.length_nil]
    omega
  · simp only [List.length_append, List.length_singleton, List.length_nil, hlength hr, hsum, hsteps]
    omega
  obtain ⟨⟨hK, hf⟩, hrow⟩ := hrow p hp
  refine ⟨hK, ?_, avoids_cons.2 ⟨nofun, avoids_call hf (by decide) _ _ ?_⟩, fun text h => absurd h (htext text)⟩
  · have hcodes : Codes (n + 2) (total (fun _ => 8) items.zipIdx)
        (items.zipIdx.flatMap fun e => [.loaded (o.base.program.constantId e.1)]) js := by
      refine hrow.codes _ _ ?_
      intro x m ks h
      exact h.2
    have hmade : (items.zipIdx.flatMap fun e => [Access.loaded (o.base.program.constantId e.1)]) =
        items.map fun x => .loaded (o.base.program.constantId x) := by
      conv_rhs => rw [← List.zipIdx_map_fst 0 items]
      rw [List.map_map, ← List.map_eq_flatMap]
      rfl
    rw [hmade, hsum] at hcodes
    rw [hc, hsteps, List.append_nil]
    exact ((codes_int64 (.id items.length) n).append (codes_call f [.id n] (n + 1))).append hcodes
  · rw [List.append_nil]
    exact hrow.avoids fun _ _ _ => And.left

theorem emits_number (ho : Ready o) {mk : Nat → Instr} (sort : ConstantSort) (name : String)
    (param : MachineType) (t : ValueType) (hmk : (mk n).isTerminator = false) (hw : o.room → (mk n).Whole)
    (hi : Codes n 1 [] [mk n]) (hcallee : ∀ p : Program, p.callee (mk n) = none) (hname : name ∈ runtimeNames)
    (ht : t.findHint? (.constant sort) = none) (hroom : o.room → n + 2 ≤ 2 ^ 31) (hc : c.members = [])
    (hsteps : c.steps = 2) (htext : ∀ text, c ≠ .text text) :
    Emits o K n (do return (← boxNumber sort name param t (← assign mk)).value) (Makes o K c n) := by
  simp only [boxNumber, ht, bind_assoc, pure_bind]
  refine .bind (.assign hmk hw (.bind (ho.objectPtr fun _ _ => ?_)))
  simp only [← bind_assoc]
  refine .bind (ho.library hname (fun hr => ?_) fun i => .pure ⟨⟨n + 1, rfl, by omega⟩, rfl, fun _ => hsteps.symm,
    fun p hp => ⟨hp.1, ?_, ?_, fun text h => absurd h (htext text)⟩⟩)
  · have := hroom hr
    exact ⟨by simp, List.forall_mem_cons.2 ⟨fits_value (by omega), by simp⟩, by omega⟩
  · rw [hc, hsteps]
    exact hi.append (codes_call i [.id n] (n + 1))
  · exact avoids_cons.2 ⟨by rw [hcallee]; nofun, avoids_call hp.2 hname _ _ avoids_nil⟩

theorem emits_newText (ho : Ready o) {text : String} (hroom : o.room → text.length < 2 ^ 31 ∧ n + 4 ≤ 2 ^ 31) :
    Emits o K n (newText text) (Makes o K (.text text) n) := by
  refine .bind (.assign rfl (fun hr => whole_globalText.2 (by have := hroom hr; omega)) ?_)
  refine .bind (.assign rfl (fun hr => (whole_ptrCast (by decide)).2 (by have := hroom hr; omega)) ?_)
  refine .bind (ho.objectPtr fun _ _ => .bind (.external (fun _ => ?_) fun i => ?_))
  · rw [ho.names]
    decide
  refine .bind (.pure (.bind (.assign rfl (fun hr => whole_int64.2 ⟨?_, by have := hroom hr; omega⟩) ?_)))
  · exact fitsSigned_eight_of_lt (hroom hr).1
  refine .call (fun _ p hp => ⟨_, hp.2⟩) (fun hr hi => ?_) ⟨⟨n + 3, rfl, by omega⟩, rfl, fun _ => rfl, fun p hp => ?_⟩
  · have := hroom hr
    rw [ho.names] at hi
    refine whole_call.2 ⟨Nat.lt_trans hi (by decide), by simp, ?_, by omega⟩
    simp only [List.forall_mem_cons]
    exact ⟨fits_value (by omega), fits_value (by omega), by simp⟩
  · refine ⟨hp.1, ⟨rfl, ⟨rfl, rfl, rfl, rfl, trivial⟩, fun _ _ => rfl⟩, ?_, fun t ht => ⟨rfl, i, ?_⟩⟩
    · exact avoids_cons.2 ⟨nofun, avoids_cons.2 ⟨nofun, avoids_cons.2 ⟨nofun,
        avoids_call hp.2 (by decide) _ _ avoids_nil⟩⟩⟩
    · cases ht
      exact ⟨hp.2, rfl⟩

theorem emits_constantObject (ho : Ready o) (hc : o.room → Program.isPooled c = true)
    (hmembers : o.room → ∀ x ∈ c.members, ∃ v g, o.base.program.findConstant x = some v ∧
      o.base.program.globals[v]? = some g)
    (hroom : o.room → c.Fits ∧ n + c.steps ≤ 2 ^ 31) : Emits o K n (constantObject c) (Makes o K c n) := by
  cases c with
  | bool b =>
    refine emits_number ho .integer "PyLong_FromLongLong" .int64 .integer rfl (fun hr => whole_int64.2 ⟨?_, ?_⟩)
      (codes_int64 _ n) (fun _ => rfl) (by decide) rfl (fun hr => (hroom hr).2) rfl rfl nofun
    · cases b <;> decide
    · have : n + 2 ≤ 2 ^ 31 := (hroom hr).2
      omega
  | int k =>
    refine emits_number ho .integer "PyLong_FromLongLong" .int64 .integer rfl
      (fun hr => whole_int64.2 ⟨(hroom hr).1, ?_⟩) (codes_int64 _ n) (fun _ => rfl) (by decide) rfl
      (fun hr => (hroom hr).2) rfl rfl nofun
    have : n + 2 ≤ 2 ^ 31 := (hroom hr).2
    omega
  | float x tag =>
    refine emits_number ho .decimal "PyFloat_FromDouble" .double .decimal rfl (fun hr => whole_float64.2 ?_)
      ⟨rfl, ⟨rfl, trivial⟩, fun _ _ => rfl⟩ (fun _ => rfl) (by decide) rfl (fun hr => (hroom hr).2) rfl rfl nofun
    have : n + 2 ≤ 2 ^ 31 := (hroom hr).2
    omega
  | text s => exact emits_newText ho hroom
  | tuple items => exact emits_constantTuple ho rfl rfl nofun hmembers fun hr => (hroom hr).2
  | frozenset items => exact emits_constantTuple ho rfl rfl nofun hmembers fun hr => (hroom hr).2
  | _ => exact .throw fun hr => by cases hc hr

end Entry
end Lowering
