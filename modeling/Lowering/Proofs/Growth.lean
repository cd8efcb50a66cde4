import Lowering.Emit
import Mathlib.Data.List.Basic

/-!
How a program grows. Entries of the tables stay where they are, instructions are only added, and a
block that has ended takes no more of them. A sound program holds whole blocks only: each is open and
has no terminator, or has ended with one.
-/
namespace Lowering

namespace Instr

def Whole (i : Instr) : Prop := (i.write false).2 = none

/-- A whole instruction that others may follow. -/
structure Plain (i : Instr) : Prop where
  whole : i.Whole
  follows : i.isTerminator = false

/-- A whole instruction that ends its block. -/
structure Final (i : Instr) : Prop where
  whole : i.Whole
  ends : i.isTerminator = true

end Instr

namespace Block

/-- Plain instructions, with nothing to say where the block goes. -/
structure Open (b : Block) (body : List Instr) : Prop where
  items : b.items.toList = body.map Item.instr
  plain : ∀ i ∈ body, i.Plain
  unlocked : b.locked = false
  needsEnd : b.needsEnd = true

/-- Plain instructions and a terminator after them. -/
structure Ended (b : Block) (body : List Instr) (last : Instr) : Prop where
  items : b.items.toList = (body ++ [last]).map Item.instr
  plain : ∀ i ∈ body, i.Plain
  final : last.Final
  locked : b.locked = true
  needsEnd : b.needsEnd = false

def Shaped (b : Block) : Prop := (∃ body, b.Open body) ∨ ∃ body last, b.Ended body last

theorem shaped_new (id : Nat) (label : Option String) : Shaped { id, label } :=
  .inl ⟨[], rfl, by simp, rfl, rfl⟩

/-- The block has ended, and leads to none but the first blocks of its function. -/
structure Done (b : Block) (size : Nat) : Prop where
  ended : b.needsEnd = false
  within : ∀ r ∈ b.branches, r.index < size

/-- What may become of a block. -/
structure Grown (b c : Block) : Prop where
  id : c.id = b.id
  items : b.items.toList <+: c.items.toList
  frozen : b.locked = true → c.items = b.items ∧ c.locked = true
  ended : b.needsEnd = false → c.needsEnd = false

theorem Grown.refl (b : Block) : b.Grown b :=
  ⟨rfl, List.prefix_rfl, fun h => ⟨rfl, h⟩, fun h => h⟩

theorem Grown.trans {a b c : Block} (hab : a.Grown b) (hbc : b.Grown c) : a.Grown c where
  id := hbc.id.trans hab.id
  items := hab.items.trans hbc.items
  frozen h := by
    obtain ⟨hitems, hlocked⟩ := hab.frozen h
    obtain ⟨hitems', hlocked'⟩ := hbc.frozen hlocked
    exact ⟨hitems'.trans hitems, hlocked'⟩
  ended h := hbc.ended (hab.ended h)

/-- Growth of a block that keeps it whole. -/
structure Extends (b c : Block) : Prop where
  grown : b.Grown c
  shaped : b.Shaped → c.Shaped

end Block

namespace Func

/-- The blocks are numbered in order and whole. -/
structure Sound (f : Func) : Prop where
  dropped : f.dropped = 0
  blocks : ∀ (k : Nat) (b : Block), f.blocks[k]? = some b → b.id = k ∧ b.Shaped

/-- A function that has no code yet. -/
structure Declared (f : Func) : Prop where
  blocks : f.blocks = #[]
  nextValue : f.nextValue = f.params.size

/-- What may become of a function. -/
structure Grown (f g : Func) : Prop where
  id : g.id = f.id
  name : g.name = f.name
  params : g.params = f.params
  result : g.result = f.result
  cursor : g.cursor = f.cursor
  dropped : g.dropped = f.dropped
  nextValue : f.nextValue ≤ g.nextValue
  blocks : ∀ (k : Nat) (b : Block), f.blocks[k]? = some b → ∃ c : Block, g.blocks[k]? = some c ∧ b.Grown c

theorem Grown.refl (f : Func) : f.Grown f :=
  ⟨rfl, rfl, rfl, rfl, rfl, rfl, Nat.le_refl _, fun _ b h => ⟨b, h, .refl b⟩⟩

theorem Grown.trans {f g h : Func} (hfg : f.Grown g) (hgh : g.Grown h) : f.Grown h where
  id := hgh.id.trans hfg.id
  name := hgh.name.trans hfg.name
  params := hgh.params.trans hfg.params
  result := hgh.result.trans hfg.result
  cursor := hgh.cursor.trans hfg.cursor
  dropped := hgh.dropped.trans hfg.dropped
  nextValue := Nat.le_trans hfg.nextValue hgh.nextValue
  blocks k b hb := by
    obtain ⟨c, hc, hbc⟩ := hfg.blocks k b hb
    obtain ⟨d, hd, hcd⟩ := hgh.blocks k c hc
    exact ⟨d, hd, hbc.trans hcd⟩

theorem Grown.size_le {f g : Func} (h : f.Grown g) : f.blocks.size ≤ g.blocks.size := by
  rcases Nat.eq_zero_or_pos f.blocks.size with h0 | hpos
  · omega
  · obtain ⟨c, hc, -⟩ := h.blocks (f.blocks.size - 1) f.blocks[f.blocks.size - 1] (by simp)
    have := (Array.getElem?_eq_some_iff.1 hc).1
    omega

end Func

namespace Program

/-- The name of the variable of the constant at a place of the pool. -/
def constantName (k : Nat) : String := "@flyable@const@" ++ toString k

/-- The number of the variable that is listed at a place. `PyMethod_Type` is entered twice: its second
entry, numbered by the length that the table then has, takes the place of the first. -/
def numberAt (k : Nat) : Nat := if k = 4 then 6 else k

/-- The names of the variables that the setup lists. -/
def setupNames : List String :=
  ["_Py_NoneStruct", "_Py_TrueStruct", "_Py_FalseStruct", "PyFunction_Type", "PyMethod_Type",
    "PyTuple_Type", "__flyable@BuildIn@Module@"]

/-- The variables of the setup are listed first, and listed variables are numbered by their places. -/
structure Placed (globals : Array GlobalVar) (table : Array (String × Nat)) : Prop where
  setup : setupNames <+: table.toList.map Prod.fst
  number : ∀ (k : Nat) (e : String × Nat), table[k]? = some e →
    ∃ g : GlobalVar, globals[e.2]? = some g ∧ g.name = e.1 ∧ g.id = numberAt k

theorem Placed.seven_le {globals : Array GlobalVar} {table : Array (String × Nat)}
    (h : Placed globals table) : 7 ≤ table.size := by
  simpa [setupNames] using h.setup.length_le

structure Sound (p : Program) : Prop where
  funcs : ∀ (i : Nat) (f : Func), p.funcs[i]? = some f → f.Sound
  cursors : ∀ (i : Nat) (f : Func), p.funcs[i]? = some f → ∃ c : Cursor, p.cursors[f.cursor]? = some c ∧ c.func = i
  size : p.funcTable.size = p.funcs.size
  /-- Functions are numbered by their places in the table. -/
  listed : ∀ (i : Nat) (f : Func), p.funcs[i]? = some f → f.id = i ∧ p.funcTable[i]? = some (f.name, i)
  found : ∀ (i : Nat) (f : Func), p.funcs[i]? = some f → lookup p.funcTable f.name = some i
  globals : ∀ (i : Nat) (g : GlobalVar), p.globals[i]? = some g → 0 ≤ g.id ∧ g.id < p.globalTable.size
  placed : Placed p.globals p.globalTable
  /-- The names of constants to come are not taken. -/
  constants : ∀ k, p.constants.size ≤ k → lookup p.globalTable (constantName k) = none

theorem Sound.table {p : Program} (hp : p.Sound) {e : String × Nat} (he : e ∈ p.funcTable) :
    ∃ f : Func, p.funcs[e.2]? = some f ∧ f.name = e.1 := by
  obtain ⟨i, hi, rfl⟩ := Array.mem_iff_getElem.1 he
  have hf := Array.getElem?_eq_getElem (hp.size ▸ hi)
  have hlisted := (hp.listed i _ hf).2
  rw [Array.getElem?_eq_getElem hi] at hlisted
  rw [Option.some.inj hlisted]
  exact ⟨_, hf, rfl⟩

/-- What may become of a program. -/
structure Grown (p q : Program) : Prop where
  structs : q.structs = p.structs
  structTable : q.structTable = p.structTable
  known : q.known = p.known
  globals : p.globals.toList <+: q.globals.toList
  globalTable : p.globalTable.toList <+: q.globalTable.toList
  funcTable : p.funcTable.toList <+: q.funcTable.toList
  constants : p.constants.toList <+: q.constants.toList
  funcs : ∀ (i : Nat) (f : Func), p.funcs[i]? = some f → ∃ g : Func, q.funcs[i]? = some g ∧ f.Grown g
  cursors : ∀ (i : Nat) (c : Cursor), p.cursors[i]? = some c → ∃ d : Cursor, q.cursors[i]? = some d ∧ d.func = c.func

theorem Grown.refl (p : Program) : p.Grown p :=
  ⟨rfl, rfl, rfl, List.prefix_rfl, List.prefix_rfl, List.prefix_rfl, List.prefix_rfl,
    fun _ f h => ⟨f, h, .refl f⟩, fun _ c h => ⟨c, h, rfl⟩⟩

theorem Grown.trans {p q r : Program} (hpq : p.Grown q) (hqr : q.Grown r) : p.Grown r where
  structs := hqr.structs.trans hpq.structs
  structTable := hqr.structTable.trans hpq.structTable
  known := hqr.known.trans hpq.known
  globals := hpq.globals.trans hqr.globals
  globalTable := hpq.globalTable.trans hqr.globalTable
  funcTable := hpq.funcTable.trans hqr.funcTable
  constants := hpq.constants.trans hqr.constants
  funcs i f hf := by
    obtain ⟨g, hg, hfg⟩ := hpq.funcs i f hf
    obtain ⟨h, hh, hgh⟩ := hqr.funcs i g hg
    exact ⟨h, hh, hfg.trans hgh⟩
  cursors i c hc := by
    obtain ⟨d, hd, hcd⟩ := hpq.cursors i c hc
    obtain ⟨e, he, hde⟩ := hqr.cursors i d hd
    exact ⟨e, he, hde.trans hcd⟩

/-- Growth that keeps a sound program sound. -/
def Extends (p q : Program) : Prop := p.Sound → q.Sound ∧ p.Grown q

theorem Extends.refl (p : Program) : p.Extends p := fun h => ⟨h, .refl p⟩

theorem Extends.trans {p q r : Program} (hpq : p.Extends q) (hqr : q.Extends r) : p.Extends r := by
  intro hp
  obtain ⟨hq, hpq⟩ := hpq hp
  obtain ⟨hr, hqr⟩ := hqr hq
  exact ⟨hr, hpq.trans hqr⟩

def mapFunc (p : Program) (i : Nat) (g : Func → Func) : Program :=
  { p with funcs := p.funcs.modify i g }

def mapBlock (p : Program) (ref : BlockRef) (g : Block → Block) : Program :=
  p.mapFunc ref.func fun f => { f with blocks := f.blocks.modify ref.index g }

def blockAt (p : Program) (ref : BlockRef) : Option Block :=
  p.funcs[ref.func]?.bind (·.blocks[ref.index]?)

theorem getElem?_mapFunc (p : Program) (i j : Nat) (g : Func → Func) :
    (p.mapFunc i g).funcs[j]? = if i = j then p.funcs[j]?.map g else p.funcs[j]? := by
  simp only [mapFunc, Array.getElem?_modify]

theorem getElem?_mapFunc_self {p : Program} {i : Nat} {f : Func} {g : Func → Func}
    (h : p.funcs[i]? = some f) : (p.mapFunc i g).funcs[i]? = some (g f) := by
  rw [getElem?_mapFunc, if_pos rfl, h]
  rfl

theorem extends_mapFunc {p : Program} {i : Nat} {g : Func → Func}
    (h : ∀ f : Func, p.funcs[i]? = some f → f.Grown (g f) ∧ (f.Sound → (g f).Sound)) : p.Extends (p.mapFunc i g) := by
  have hget : ∀ (j : Nat) (f : Func), p.funcs[j]? = some f →
      ∃ f' : Func, (p.mapFunc i g).funcs[j]? = some f' ∧
      f.Grown f' ∧ (f.Sound → f'.Sound) := by
    intro j f hf
    rw [getElem?_mapFunc, hf]
    split
    next hij =>
      subst hij
      exact ⟨g f, rfl, h f hf⟩
    next => exact ⟨f, rfl, .refl f, id⟩
  have hback : ∀ (j : Nat) (f' : Func), (p.mapFunc i g).funcs[j]? = some f' →
      ∃ f, p.funcs[j]? = some f := by
    intro j f' hf'
    have hlt := (Array.getElem?_eq_some_iff.1 hf').1
    simp only [mapFunc, Array.size_modify] at hlt
    exact ⟨p.funcs[j], Array.getElem?_eq_getElem hlt⟩
  intro hp
  refine ⟨⟨?_, ?_, ?_, ?_, ?_, hp.globals, hp.placed, hp.constants⟩, ⟨rfl, rfl, rfl, List.prefix_rfl,
    List.prefix_rfl, List.prefix_rfl, List.prefix_rfl, ?_, fun _ c hc => ⟨c, hc, rfl⟩⟩⟩
  · intro j f' hf'
    obtain ⟨f, hf⟩ := hback j f' hf'
    obtain ⟨f'', hf'', -, hsound⟩ := hget j f hf
    cases hf'.symm.trans hf''
    exact hsound (hp.funcs j f hf)
  · intro j f' hf'
    obtain ⟨f, hf⟩ := hback j f' hf'
    obtain ⟨f'', hf'', hgrown, -⟩ := hget j f hf
    cases hf'.symm.trans hf''
    rw [hgrown.cursor]
    exact hp.cursors j f hf
  · simpa only [mapFunc, Array.size_modify] using hp.size
  · intro j f' hf'
    obtain ⟨f, hf⟩ := hback j f' hf'
    obtain ⟨f'', hf'', hgrown, -⟩ := hget j f hf
    cases hf'.symm.trans hf''
    rw [hgrown.id, hgrown.name]
    exact hp.listed j f hf
  · intro j f' hf'
    obtain ⟨f, hf⟩ := hback j f' hf'
    obtain ⟨f'', hf'', hgrown, -⟩ := hget j f hf
    cases hf'.symm.trans hf''
    rw [hgrown.name]
    exact hp.found j f hf
  · intro j f hf
    obtain ⟨f', hf', hgrown, -⟩ := hget j f hf
    exact ⟨f', hf', hgrown⟩

theorem extends_mapBlock {p : Program} {ref : BlockRef} {g : Block → Block}
    (h : ∀ b, p.blockAt ref = some b → b.Extends (g b)) : p.Extends (p.mapBlock ref g) := by
  refine extends_mapFunc fun f hf => ?_
  have hblock : ∀ b : Block, f.blocks[ref.index]? = some b → b.Extends (g b) := fun b hb =>
    h b (by rw [blockAt, hf]; exact hb)
  have hget : ∀ (k : Nat) (b : Block), f.blocks[k]? = some b →
      ∃ c : Block, (f.blocks.modify ref.index g)[k]? = some c ∧ b.Extends c := by
    intro k b hb
    rw [Array.getElem?_modify, hb]
    split
    next hk =>
      subst hk
      exact ⟨g b, rfl, hblock b hb⟩
    next => exact ⟨b, rfl, .refl b, id⟩
  refine ⟨⟨rfl, rfl, rfl, rfl, rfl, rfl, Nat.le_refl _, fun k b hb => ?_⟩, fun hf => ⟨hf.dropped, ?_⟩⟩
  · obtain ⟨c, hc, hbc⟩ := hget k b hb
    exact ⟨c, hc, hbc.grown⟩
  · intro k c hc
    have hlt := (Array.getElem?_eq_some_iff.1 hc).1
    rw [Array.size_modify] at hlt
    obtain ⟨c', hc', hbc⟩ := hget k f.blocks[k] (Array.getElem?_eq_getElem hlt)
    cases hc.symm.trans hc'
    obtain ⟨hid, hshaped⟩ := hf.blocks k _ (Array.getElem?_eq_getElem hlt)
    exact ⟨hbc.grown.id.trans hid, hbc.shaped hshaped⟩

end Program
end Lowering
