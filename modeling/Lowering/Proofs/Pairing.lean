import Lowering.Proofs.Likeness
import Lowering.Proofs.Numbering

/-!
Two lowerings side by side. The one on the left fills the tables of its program; the one on the right
finds everything there already. What they have emitted is alike, instruction by instruction.
-/
namespace Lowering

variable {θ : Likeness}

/-- Terms that stand for one another. -/
class inductive TermLike (θ : Likeness) : Term → Term → Prop
  | mk (type : Option ValueType) {v v' : Operand} (h : OperandLike θ v v') :
    TermLike θ ⟨type, v⟩ ⟨type, v'⟩

theorem TermLike.withType {t t' : Term} (h : TermLike θ t t') (type : Option ValueType) :
    TermLike θ { t with type } { t' with type } := by
  obtain ⟨_, hv⟩ := h
  exact ⟨type, hv⟩

theorem TermLike.withValue {t t' : Term} (h : TermLike θ t t') {v v' : Operand}
    (hv : OperandLike θ v v') : TermLike θ { t with value := v } { t' with value := v' } := by
  obtain ⟨type, _⟩ := h
  exact ⟨type, hv⟩

/-- Where two variables live. -/
inductive SlotLike (θ : Likeness) : Slot → Slot → Prop
  | empty : SlotLike θ .empty .empty
  | value {v v' : Operand} (h : OperandLike θ v v') : SlotLike θ (.value v) (.value v')
  | global (i : Nat) : SlotLike θ (.global i) (.global i)

structure VariableLike (θ : Likeness) (v v' : Variable) : Prop where
  name : v'.name = v.name
  type : v'.type = v.type
  slot : SlotLike θ v.slot v'.slot
  isArg : v'.isArg = v.isArg
  isGlobal : v'.isGlobal = v.isGlobal

structure ImplLike (θ : Likeness) (m m' : Impl) : Prop where
  code : Option.Rel θ.func m.code m'.code
  scope : θ.scope m.scope m'.scope
  parent : m'.parent = m.parent

/-- Blocks with alike instructions after what leads them. -/
structure BlockLike (θ : Likeness) (count : Nat) (lead : List Item × List Item) (b b' : Block) :
    Prop where
  locked : b'.locked = b.locked
  returns : b'.returns = b.returns
  branches : List.Forall₂ θ.block b.branches.toList b'.branches.toList
  items : ∃ body body' : List Instr, b.items.toList = lead.1 ++ body.map .instr ∧
    b'.items.toList = lead.2 ++ body'.map .instr ∧ List.Forall₂ (InstrLike θ count) body body'

structure TreeLike (θ : Likeness) (f f' : TreeFrame) : Prop where
  impl : θ.impl f.impl f'.impl
  scope : θ.scope f.scope f'.scope
  entry : θ.block f.entry f'.entry
  content : θ.block f.content f'.content
  last : TermLike θ f.last f'.last
  assigned : TermLike θ f.assigned f'.assigned
  exits : List.Forall₂ θ.block f.exits f'.exits
  handlers : List.Forall₂ (Option.Rel θ.block) f.handlers f'.handlers
  replaced : f'.replaced = f.replaced

/-- What the tables of a program list fits the demands on names and types. -/
structure Program.Lawful (arity : String → Nat → Prop) (struct : Int → Prop) (p : Program) : Prop where
  arity : ∀ (i : Nat) (f : Func) (n : Nat), p.funcs[i]? = some f → arity f.name n → f.params.size = n
  result : ∀ (i : Nat) (f : Func), p.funcs[i]? = some f → f.result.Within struct
  params : ∀ (i : Nat) (f : Func), p.funcs[i]? = some f → ∀ t ∈ f.params, t.Within struct
  globals : ∀ (i : Nat) (g : GlobalVar), p.globals[i]? = some g → g.type.Within struct
  structs : ∀ (i : Nat) (t : StructDef), p.structs[i]? = some t → struct t.id

/-- A pair of lowerings that share a likeness. The left one is known to its end. -/
structure Pairing (θ : Likeness) where
  /-- The left program at the end. -/
  final : Program
  home : Nat
  home' : Nat
  /-- The left function at the end. -/
  last : Func
  last_eq : final.funcs[home]? = some last
  /-- How many blocks the functions may have. -/
  count : Nat
  size_le : last.blocks.size ≤ count
  /-- The blocks before this one had ended before. -/
  first : Nat
  /-- Items that blocks begin with and that are not alike. -/
  lead : Nat → List Item × List Item
  /-- Blocks from this one on begin alike. -/
  fresh : Nat
  lead_fresh : ∀ k, fresh ≤ k → lead k = ([], [])
  /-- Values from this one on are numbered alike, up to a shift. -/
  base : Nat
  shift : Int
  vars : Nat
  vars' : Nat
  /-- The left state at the start. -/
  start : State
  /-- The reports on the right at the start. -/
  reports' : Array Report
  scope : Nat
  scope' : Nat
  value_fits : ∀ n m, θ.value n m → fitsSigned 4 n = true → fitsSigned 4 m = true
  value_fresh : ∀ n : Nat, base ≤ n → n < last.nextValue → θ.value n (n + shift)
  block_iff : ∀ r r', θ.block r r' ↔ r.func = home ∧ r'.func = home' ∧ r'.index = r.index ∧
    first ≤ r.index ∧ r.index < count
  ended_iff : ∀ r r', θ.ended r r' ↔ r.func = home ∧ r'.func = home' ∧ r'.index = r.index ∧
    r.index < first
  func_eq : ∀ i i', θ.func i i' → i = home ∧ i' = home'
  scope_eq : ∀ i i', θ.scope i i' → i = scope ∧ i' = scope'
  var_iff : ∀ i i', θ.var i i' ↔ ∃ k, i = vars + k ∧ i' = vars' + k
  struct_zero : θ.struct 0
  struct_of : ∀ (i : Nat) (t : StructDef), final.structs[i]? = some t → θ.struct t.id
  listed_of : ∀ (i : Nat) (f : Func), final.funcs[i]? = some f → θ.listed i
  callee_of : ∀ (i : Nat) (f : Func) (n : Nat), final.funcs[i]? = some f → θ.arity f.name n → θ.callee i n
  global_of : ∀ (i : Nat) (g : GlobalVar), final.globals[i]? = some g → θ.global g.id

namespace Pairing

variable (d : Pairing θ)

structure HomeLike (f f' : Func) : Prop where
  numbered : f.Numbered
  size : f'.blocks.size = f.blocks.size
  first_le : d.first ≤ f.blocks.size
  fresh_le : d.fresh ≤ f.blocks.size
  base_le : d.base ≤ f.nextValue
  next : (f'.nextValue : Int) = f.nextValue + d.shift
  result : f'.result = f.result
  cursor : ∀ i i', θ.func i i' → θ.cursor f.cursor f'.cursor
  blocks : ∀ (k : Nat) (b b' : Block), d.first ≤ k → f.blocks[k]? = some b → f'.blocks[k]? = some b' →
    BlockLike θ d.count (d.lead k) b b'
  done : ∀ (k : Nat) (b b' : Block), k < d.first → f.blocks[k]? = some b → f'.blocks[k]? = some b' →
    b.Done d.first ∧ b'.Done d.first

structure ProgramLike (p q : Program) : Prop where
  sound : p.Sound
  sound' : q.Sound
  lawful : θ.strict → p.Lawful θ.arity θ.struct
  ahead : d.final.Ahead q
  home : ∃ f f' : Func, p.funcs[d.home]? = some f ∧ q.funcs[d.home']? = some f' ∧ d.HomeLike f f'
  /-- The other functions of the left program are as they were, or have no code. -/
  others : ∀ (j : Nat) (g : Func), j ≠ d.home → p.funcs[j]? = some g → g.Declared ∨
    ∃ g₀ : Func, d.start.program.funcs[j]? = some g₀ ∧ g.blocks = g₀.blocks ∧ g.nextValue = g₀.nextValue

/-- Both cursors are in the functions in hand. -/
structure CursorLike (cs : Array Cursor) (i : Nat) (cs' : Array Cursor) (i' : Nat) : Prop where
  here : ∃ c c' : Cursor, cs[i]? = some c ∧ cs'[i']? = some c' ∧ c.func = d.home ∧ c'.func = d.home' ∧
    Option.Rel θ.block c.block c'.block

structure VarsLike (vars : Array Variable) (scopes : Array (Array Nat)) (vars' : Array Variable)
    (scopes' : Array (Array Nat)) : Prop where
  le : d.vars ≤ vars.size
  size : vars'.size + d.vars = vars.size + d.vars'
  like : ∀ (k : Nat) (v v' : Variable), vars[d.vars + k]? = some v → vars'[d.vars' + k]? = some v' →
    VariableLike θ v v'
  scope : ∀ i i', θ.scope i i' →
    Option.Rel (fun xs ys => List.Forall₂ θ.var xs.toList ys.toList) scopes[i]? scopes'[i']?
  others : ∀ k, k ≠ d.scope → scopes[k]? = d.start.scopes[k]?
  count : scopes.size = d.start.scopes.size

/-- The states of the two lowerings. -/
structure Paired (s t : State) : Prop where
  program : d.ProgramLike s.program t.program
  cursor : d.CursorLike s.program.cursors s.cursor t.program.cursors t.cursor
  own : ∀ c c', θ.cursor c c' → s.cursor = c ∧ t.cursor = c'
  lowerer : t.lowerer = s.lowerer
  ofTree : s.lowerer = .tree → θ.tree
  unstacked : s.lowerer ≠ .stack
  tree : θ.tree → TreeLike θ s.tree t.tree
  vars : d.VarsLike s.vars s.scopes t.vars t.scopes
  impl : ∀ i i', θ.impl i i' → ImplLike θ (s.impls[i]?.getD default) (t.impls[i']?.getD default)
  impls : s.impls = d.start.impls
  bare : s.lowerer = .bare → t.impls = s.impls
  definitions : s.definitions = d.start.definitions ∧ t.definitions = s.definitions
  sources : s.files = d.start.files ∧ s.fileTable = d.start.fileTable
  files : t.files = s.files ∧ t.fileTable = s.fileTable
  reports : ∃ more : List Report, s.reports.toList = d.start.reports.toList ++ more ∧
    t.reports.toList = d.reports'.toList ++ more

end Pairing

namespace BlockLike

variable {count : Nat} {lead : List Item × List Item} {b b' : Block} {i i' : Instr}

theorem needsEnd (h : BlockLike θ count lead b b') : b'.needsEnd = b.needsEnd := by
  have hempty : b'.branches.isEmpty = b.branches.isEmpty := by
    have hlength := h.branches.length_eq
    rw [Array.length_toList, Array.length_toList] at hlength
    simp only [Array.isEmpty, hlength]
  rw [Block.needsEnd, Block.needsEnd, hempty, h.returns]

theorem push (h : BlockLike θ count lead b b') (hi : InstrLike θ count i i')
    (hw : (i.write b.locked).2 = none) (hw' : (i'.write b'.locked).2 = none) :
    BlockLike θ count lead (b.push i).1 (b'.push i').1 := by
  cases hb : b.locked with
  | true => rwa [Block.push_of_locked hb hw, Block.push_of_locked (h.locked.trans hb) hw']
  | false =>
    rw [Block.push_of_unlocked hb hw, Block.push_of_unlocked (h.locked.trans hb) hw']
    obtain ⟨body, body', hbody, hbody', hlike⟩ := h.items
    refine ⟨h.locked, h.returns, h.branches, body ++ [i], body' ++ [i'], ?_, ?_, ?_⟩
    · simp [hbody]
    · simp [hbody']
    · exact List.rel_append hlike (.cons hi .nil)

theorem endBy (h : BlockLike θ count lead b b') (hi : InstrLike θ count i i')
    (hw : (i.write b.locked).2 = none) (hw' : (i'.write b'.locked).2 = none)
    {targets targets' : List BlockRef} (ht : List.Forall₂ θ.block targets targets') (leaves : Bool) :
    BlockLike θ count lead (b.endBy i targets leaves) (b'.endBy i' targets' leaves) := by
  have hp := h.push hi hw hw'
  refine ⟨rfl, ?_, ?_, hp.items⟩
  · simp only [Block.endBy, hp.returns]
  · simp only [Block.endBy, Array.toList_append]
    exact List.rel_append hp.branches ht

end BlockLike

namespace Pairing

variable {d : Pairing θ}

namespace HomeLike

variable {f f' : Func}

theorem update (h : d.HomeLike f f') {k next next' : Nat} {g g' : Block → Block}
    (hk : d.first ≤ k) (hnext : f.nextValue ≤ next) (hnext' : (next' : Int) = next + d.shift)
    (hnumbered : Func.Numbered { f with blocks := f.blocks.modify k g, nextValue := next })
    (hg : ∀ b b', f.blocks[k]? = some b → f'.blocks[k]? = some b' →
      BlockLike θ d.count (d.lead k) (g b) (g' b')) :
    d.HomeLike { f with blocks := f.blocks.modify k g, nextValue := next }
      { f' with blocks := f'.blocks.modify k g', nextValue := next' } := by
  refine ⟨hnumbered, by simp [h.size], by simpa using h.first_le, by simpa using h.fresh_le,
    Nat.le_trans h.base_le hnext, hnext', h.result, h.cursor, fun j b b' hj hb hb' => ?_,
    fun j b b' hj hb hb' => ?_⟩
  · simp only [Array.getElem?_modify] at hb hb'
    by_cases hkj : k = j
    · subst hkj
      rw [if_pos rfl] at hb hb'
      obtain ⟨c, hc, rfl⟩ := Option.map_eq_some_iff.1 hb
      obtain ⟨c', hc', rfl⟩ := Option.map_eq_some_iff.1 hb'
      exact hg c c' hc hc'
    · rw [if_neg hkj] at hb hb'
      exact h.blocks j b b' hj hb hb'
  · simp only [Array.getElem?_modify] at hb hb'
    rw [if_neg (by omega)] at hb hb'
    exact h.done j b b' hj hb hb'

theorem addBlock (h : d.HomeLike f f') (label label' : Option String) :
    d.HomeLike (f.addBlock label) (f'.addBlock label') := by
  have hfresh := h.fresh_le
  refine ⟨h.numbered.addBlock label, by simp [Func.addBlock, h.size], ?_, ?_, h.base_le, h.next,
    h.result, h.cursor,
    fun j b b' hj hb hb' => ?_, fun j b b' hj hb hb' => ?_⟩
  · simp only [Func.addBlock, Array.size_push]
    have := h.first_le
    omega
  · simp only [Func.addBlock, Array.size_push]
    omega
  · simp only [Func.addBlock, Array.getElem?_push, h.size] at hb hb'
    by_cases hjs : j = f.blocks.size
    · rw [if_pos hjs] at hb hb'
      cases hb
      cases hb'
      refine ⟨rfl, rfl, .nil, [], [], ?_, ?_, .nil⟩ <;> simp [d.lead_fresh j (hjs ▸ hfresh)]
    · rw [if_neg hjs] at hb hb'
      exact h.blocks j b b' hj hb hb'
  · have := h.first_le
    simp only [Func.addBlock, Array.getElem?_push, h.size] at hb hb'
    rw [if_neg (by omega)] at hb hb'
    exact h.done j b b' hj hb hb'

end HomeLike

end Pairing
end Lowering
