import Lowering.Proofs.Numbering

/-!
What the code of a function refers to is there. A reference that is in range stays so while the program
grows.
-/
namespace Lowering

/-- How many arguments the functions of a program take, by their names. -/
inductive Arity : String → Nat → Prop
  | library {name : String} {n : Nat} (h : (name, n) ∈ Library.arities) : Arity name n
  | byTuple (name : String) : Arity ("@global@module@" ++ name ++ "@tp@") 3
  | byVector (name : String) : Arity ("@global@module@" ++ name ++ "@vec@") 4
  | entry : Arity "main" 2

namespace Arity

/-- No name of the library begins with the mark of a definition. -/
theorem head_of_library {name : String} {n : Nat} (h : (name, n) ∈ Library.arities) :
    name.toList.head? ≠ some '@' ∧ name ≠ "main" := by
  have hall : ∀ e ∈ Library.arities, e.1.toList.head? ≠ some '@' ∧ e.1 ≠ "main" := by decide +kernel
  exact hall _ h

theorem head_of_definition (name ending : String) : ("@global@module@" ++ name ++ ending).toList.head? = some '@' := by
  simp

theorem endings_ne (name name' : String) :
    "@global@module@" ++ name ++ "@tp@" ≠ "@global@module@" ++ name' ++ "@vec@" := by
  intro h
  have hlist := congrArg (fun s => s.toList.reverse) h
  simp at hlist

theorem unique {name : String} {n k : Nat} (hn : Arity name n) (hk : Arity name k) : n = k := by
  generalize hname : name = name' at hk
  cases hn with
  | library h =>
    obtain ⟨hhead, hmain⟩ := head_of_library h
    cases hk with
    | library h' => exact Library.arities_inj h (hname ▸ h')
    | byTuple | byVector => exact absurd (hname ▸ head_of_definition ..) hhead
    | entry => exact absurd hname hmain
  | byTuple x =>
    cases hk with
    | library h' => exact absurd (hname ▸ head_of_definition ..) (head_of_library h').1
    | byTuple => rfl
    | byVector => exact absurd hname (endings_ne _ _)
    | entry => exact absurd (congrArg (·.toList.head?) hname) (by simp)
  | byVector x =>
    cases hk with
    | library h' => exact absurd (hname ▸ head_of_definition ..) (head_of_library h').1
    | byTuple => exact absurd hname.symm (endings_ne _ _)
    | byVector => rfl
    | entry => exact absurd (congrArg (·.toList.head?) hname) (by simp)
  | entry =>
    cases hk with
    | library h' => exact absurd hname.symm (head_of_library h').2
    | byTuple | byVector => exact absurd (congrArg (·.toList.head?) hname) (by simp)
    | entry => rfl

end Arity

namespace Program

def HasStruct (p : Program) (n : Int) : Prop := 0 ≤ n ∧ n < p.structTable.size

theorem Grown.hasStruct {p q : Program} (h : p.Grown q) : q.HasStruct = p.HasStruct := by
  funext n
  rw [HasStruct, HasStruct, h.structTable]

end Program

/-- The structures of a program are listed, and their members name none but these. -/
structure Program.Laid (p : Program) : Prop where
  zero : p.HasStruct 0
  listed : ∀ (k i : Nat), p.structTable[k]? = some i → ∃ t : StructDef, p.structs[i]? = some t
  members : ∀ (i : Nat) (t : StructDef), p.structs[i]? = some t → ∀ m ∈ t.members, m.Within p.HasStruct

theorem Program.Laid.of_grown {p q : Program} (h : p.Laid) (hpq : p.Grown q) : q.Laid := by
  constructor
  · rw [hpq.hasStruct]
    exact h.zero
  · rw [hpq.structTable, hpq.structs]
    exact h.listed
  · rw [hpq.structs, hpq.hasStruct]
    exact h.members

/-- Everything that an instruction of a function refers to is there, and calls pass as many arguments
as are declared. -/
structure Instr.Fits (p : Program) (f : Func) (i : Instr) : Prop where
  uses : ∀ v ∈ i.uses, ∀ n, v.toInt? = some n → 0 ≤ n ∧ n < f.nextValue
  targets : ∀ k ∈ i.targets, k < f.blocks.size
  types : ∀ t ∈ i.types, t.Within p.HasStruct
  call : ∀ id vs r, i = .call id vs r →
    ∃ (j : Nat) (g : Func), id = j ∧ p.funcs[j]? = some g ∧ g.params.size = vs.length
  funcPtr : ∀ id r, i = .funcPtr id r → ∃ (j : Nat) (g : Func), id = j ∧ p.funcs[j]? = some g
  globalVar : ∀ id r, i = .globalVar id r → 0 ≤ id ∧ id < p.globalTable.size

theorem Instr.Fits.mono {p q : Program} {f g : Func} {i : Instr} (h : i.Fits p f) (hp : p.Grown q)
    (hnext : f.nextValue ≤ g.nextValue) (hsize : f.blocks.size ≤ g.blocks.size) : i.Fits q g where
  uses v hv n hn := by
    have := h.uses v hv n hn
    omega
  targets k hk := Nat.lt_of_lt_of_le (h.targets k hk) hsize
  types t ht := hp.hasStruct ▸ h.types t ht
  call id vs r hi := by
    obtain ⟨j, c, hj, hc, hsize⟩ := h.call id vs r hi
    obtain ⟨d, hd, hcd⟩ := hp.funcs j c hc
    exact ⟨j, d, hj, hd, by rw [hcd.params, hsize]⟩
  funcPtr id r hi := by
    obtain ⟨j, c, hj, hc⟩ := h.funcPtr id r hi
    obtain ⟨d, hd, -⟩ := hp.funcs j c hc
    exact ⟨j, d, hj, hd⟩
  globalVar id r hi := by
    have hle := hp.globalTable.length_le
    have := h.globalVar id r hi
    simp only [Array.length_toList] at hle
    omega

/-- The values of a function are numbered, and its code fits the program. -/
structure Func.Linked (p : Program) (f : Func) : Prop where
  numbered : f.Numbered
  fits : ∀ (k : Nat) (b : Block) (i : Instr), f.blocks[k]? = some b → .instr i ∈ b.items → i.Fits p f

/-- Besides, the blocks of the function have ended. -/
structure Func.Complete (p : Program) (f : Func) : Prop extends Func.Linked p f where
  done : ∀ (k : Nat) (b : Block), f.blocks[k]? = some b → b.Done f.blocks.size

theorem Func.Declared.complete {f : Func} (h : f.Declared) (p : Program) : f.Complete p where
  numbered := .of_empty h.blocks (Nat.le_of_eq h.nextValue.symm)
  done := by simp [h.blocks]
  fits := by simp [h.blocks]

end Lowering
