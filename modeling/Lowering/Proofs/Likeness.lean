import Lowering.Proofs.Growth
import Lowering.Proofs.References
import Mathlib.Data.List.Forall2

/-!
Instructions that differ only in the numbers of their values. A likeness says which numbers of two
functions stand for one another, and which blocks and variables do.
-/
namespace Lowering

section Lists

variable {α β : Type} {R : α → β → Prop} {xs : List α} {ys : List β}

theorem rel_getElem? (h : List.Forall₂ R xs ys) (i : Nat) : Option.Rel R xs[i]? ys[i]? := by
  induction h generalizing i with
  | nil => exact .none
  | cons ha _ ih =>
    cases i with
    | zero => exact .some ha
    | succ i => exact ih i

theorem rel_of_mem (h : List.Forall₂ R xs ys) {a : α} (ha : a ∈ xs) : ∃ b, R a b := by
  obtain ⟨i, hi, rfl⟩ := List.getElem_of_mem ha
  have hrel := rel_getElem? h i
  rw [List.getElem?_eq_getElem hi] at hrel
  cases hb : ys[i]? with
  | none =>
    rw [hb] at hrel
    cases hrel
  | some b =>
    rw [hb] at hrel
    cases hrel with
    | some hab => exact ⟨b, hab⟩

theorem rel_tail (h : List.Forall₂ R xs ys) : List.Forall₂ R xs.tail ys.tail := by
  cases h with
  | nil => exact .nil
  | cons _ h => exact h

theorem rel_zipIdx (h : List.Forall₂ R xs ys) (n : Nat) :
    List.Forall₂ (fun e e' => R e.1 e'.1 ∧ e'.2 = e.2) (xs.zipIdx n) (ys.zipIdx n) := by
  induction h generalizing n with
  | nil => exact .nil
  | cons ha _ ih => exact .cons ⟨ha, rfl⟩ (ih (n + 1))

end Lists

/-- What stands for what in two lowerings, and what both may refer to. -/
structure Likeness where
  value : Int → Int → Prop
  block : BlockRef → BlockRef → Prop
  /-- Blocks that had ended before. -/
  ended : BlockRef → BlockRef → Prop
  func : Nat → Nat → Prop
  cursor : Nat → Nat → Prop
  impl : Nat → Nat → Prop
  scope : Nat → Nat → Prop
  var : Nat → Nat → Prop
  /-- The frames of lowerings of trees are alike. -/
  tree : Prop
  /-- The tables are held to what follows. -/
  strict : Prop
  /-- The structures that types name. -/
  struct : Int → Prop
  /-- The numbers of global variables. -/
  global : Int → Prop
  /-- The numbers of functions. -/
  listed : Nat → Prop
  /-- The numbers of functions, with how many arguments they take. -/
  callee : Nat → Nat → Prop
  /-- The names of functions, with how many arguments they take. -/
  arity : String → Nat → Prop
  zero : value 0 0
  one : value 1 1
  library : ∀ name n, (name, n) ∈ Library.arities → arity name n
  arity_inj : strict → ∀ name n k, arity name n → arity name k → n = k

namespace Likeness

/-- Everything stands for itself, and anything may be referred to. -/
def equal : Likeness where
  value := Eq
  block := Eq
  ended := Eq
  func := Eq
  cursor := Eq
  impl := Eq
  scope := Eq
  var := Eq
  tree := True
  strict := False
  struct _ := True
  global _ := True
  listed _ := True
  callee _ _ := True
  arity _ _ := True
  zero := rfl
  one := rfl
  library _ _ _ := trivial
  arity_inj := nofun

end Likeness

variable {θ : Likeness}

/-- Operands that stand for one another. -/
class inductive OperandLike (θ : Likeness) : Operand → Operand → Prop
  | id {n m : Int} (h : θ.value n m) : OperandLike θ (.id n) (.id m)
  | same {v : Operand} (h : ∀ n, v ≠ .id n) : OperandLike θ v v

instance : OperandLike θ 0 0 := .id θ.zero
instance : OperandLike θ 1 1 := .id θ.one
instance : OperandLike θ .absent .absent := .same nofun

instance (v : Operand) : OperandLike .equal v v := by
  cases v with
  | id n => exact .id rfl
  | _ => exact .same nofun

theorem OperandLike.isAbsent_iff {v v' : Operand} (h : OperandLike θ v v') : v = .absent ↔ v' = .absent := by
  cases h <;> simp

/-- The type names known structures only. -/
class TypeFits (θ : Likeness) (t : MachineType) : Prop where
  within : t.Within θ.struct

class TypesFit (θ : Likeness) (ts : List MachineType) : Prop where
  within : ∀ t ∈ ts, t.Within θ.struct

section Types

variable (t : MachineType) (ts : List MachineType) [ht : TypeFits θ t] [hts : TypesFit θ ts]

instance : TypeFits θ .void := ⟨MachineType.within_of_plain nofun rfl rfl rfl⟩
instance : TypeFits θ .int1 := ⟨MachineType.within_of_plain nofun rfl rfl rfl⟩
instance : TypeFits θ .int8 := ⟨MachineType.within_of_plain nofun rfl rfl rfl⟩
instance : TypeFits θ .int32 := ⟨MachineType.within_of_plain nofun rfl rfl rfl⟩
instance : TypeFits θ .int64 := ⟨MachineType.within_of_plain nofun rfl rfl rfl⟩
instance : TypeFits θ .double := ⟨MachineType.within_of_plain nofun rfl rfl rfl⟩
instance : TypeFits θ t.pointerTo := ⟨ht.within.pointerTo⟩
instance : TypeFits θ .int8Ptr := inferInstanceAs (TypeFits θ MachineType.int8.pointerTo)
instance (size : Operand) : TypeFits θ (.arrayOf t size) := ⟨ht.within.arrayOf size⟩
instance : TypeFits θ (.function t ts) := ⟨ht.within.function hts.within⟩
instance (t : MachineType) : TypeFits .equal t := ⟨t.within_true⟩
instance : TypesFit θ [] := ⟨nofun⟩
instance : TypesFit θ (t :: ts) := ⟨List.forall_mem_cons.2 ⟨ht.within, hts.within⟩⟩
instance (ts : List MachineType) : TypesFit .equal ts := ⟨fun t _ => t.within_true⟩

instance {α : Type} (xs : List α) : TypesFit θ (xs.map fun _ => t) where
  within := by
    rintro _ h
    obtain ⟨-, -, rfl⟩ := List.mem_map.1 h
    exact ht.within

end Types

/-- The function of that name takes so many arguments. -/
class Takes (θ : Likeness) (name : String) (n : Nat) : Prop where
  takes : θ.arity name n

theorem Takes.library {name : String} {n : Nat} (h : (name, n) ∈ Library.arities) : Takes θ name n :=
  ⟨θ.library name n h⟩

instance (name : String) (n : Nat) : Takes .equal name n := ⟨trivial⟩

/-- An item stands in a list that is written out. -/
class Listed {α : Type} (xs : List α) (a : α) : Prop where
  mem : a ∈ xs

instance {α : Type} (xs : List α) (a : α) : Listed (a :: xs) a := ⟨.head _⟩
instance (priority := low) {α : Type} (xs : List α) (a b : α) [h : Listed xs a] : Listed (b :: xs) a := ⟨.tail _ h.mem⟩

instance (name : String) (n : Nat) [h : Listed Library.arities (name, n)] : Takes θ name n := .library h.mem

/-- The length of a list, by the way it is written. -/
class Length {α : Type} (xs : List α) (n : outParam Nat) : Prop where
  length_eq : xs.length = n

section Lengths

variable {α β : Type} (x y z : α) (xs : List α) (n : Nat) [h : Length xs n]

-- Lengths are written as numerals, since instances are found by them.
instance (priority := low) (xs : List α) : Length xs xs.length := ⟨rfl⟩
instance : Length ([] : List α) 0 := ⟨rfl⟩
instance : Length [x] 1 := ⟨rfl⟩
instance : Length [x, y] 2 := ⟨rfl⟩
instance : Length [x, y, z] 3 := ⟨rfl⟩
instance (f : α → β) : Length (xs.map f) n := ⟨by rw [List.length_map, h.length_eq]⟩

end Lengths

inductive FieldLike (θ : Likeness) : Field → Field → Prop
  | word {v v' : Operand} (h : OperandLike θ v v') : FieldLike θ (.word v) (.word v')
  | same (f : Field) : FieldLike θ f f

theorem FieldLike.count {n m : Nat} (h : θ.value n m) : FieldLike θ (.count n) (.count m) :=
  .word (.id h)

theorem FieldLike.write_ok {f f' : Field} (h : FieldLike θ f f')
    (hfits : ∀ n m, θ.value n m → fitsSigned 4 n = true → fitsSigned 4 m = true) (locked : Bool)
    (hw : ∃ bs, f.write locked = .ok bs) : ∃ bs, f'.write locked = .ok bs := by
  cases h with
  | same => exact hw
  | word h =>
    cases h with
    | same => exact hw
    | id h =>
      cases locked with
      | true => exact ⟨[], rfl⟩
      | false =>
        obtain ⟨bs, hbs⟩ := hw
        rename_i n m
        have hn : fitsSigned 4 n = true := by
          by_contra hn
          simp [Field.write, Field.bytes, Field.integer, Operand.toInt?, hn] at hbs
        exact ⟨signedBytes 4 m, by
          simp [Field.write, Field.bytes, Field.integer, Operand.toInt?, hfits n m h hn]⟩

theorem writeAll_cons_eq_none {locked : Bool} {f : Field} {fs : List Field} :
    (Field.writeAll locked (f :: fs)).2 = none ↔
      (∃ bs, f.write locked = .ok bs) ∧ (Field.writeAll locked fs).2 = none := by
  rw [Field.writeAll]
  cases f.write locked <;> simp

/-- What is written whole is written whole with other numbers, if those fit. -/
theorem writeAll_of_like {fs fs' : List Field} (h : List.Forall₂ (FieldLike θ) fs fs')
    (hfits : ∀ n m, θ.value n m → fitsSigned 4 n = true → fitsSigned 4 m = true) (locked : Bool)
    (hw : (Field.writeAll locked fs).2 = none) : (Field.writeAll locked fs').2 = none := by
  induction h with
  | nil => rfl
  | cons hf _ ih =>
    rw [writeAll_cons_eq_none] at hw ⊢
    exact ⟨hf.write_ok hfits locked hw.1, ih hw.2⟩

theorem forall₂_same (fs : List Field) : List.Forall₂ (FieldLike θ) fs fs :=
  List.forall₂_same.2 fun f _ => .same f

theorem forall₂_word {vs vs' : List Operand} (h : List.Forall₂ (OperandLike θ) vs vs') :
    List.Forall₂ (FieldLike θ) (vs.map .word) (vs'.map .word) := by
  induction h with
  | nil => exact .nil
  | cons hv _ ih => exact .cons (.word hv) ih

/-- Instructions that differ in the numbers of values only; blocks are named by numbers below a
bound. -/
inductive InstrLike (θ : Likeness) (count : Nat) : Instr → Instr → Prop
  | binary (op : Binary) {a a' b b' : Operand} {r r' : Nat} (ha : OperandLike θ a a')
      (hb : OperandLike θ b b') (hr : θ.value r r') :
      InstrLike θ count (.binary op a b r) (.binary op a' b' r')
  | unary (op : Unary) {a a' : Operand} {r r' : Nat} (ha : OperandLike θ a a')
      (hr : θ.value r r') : InstrLike θ count (.unary op a r) (.unary op a' r')
  | store {a a' b b' : Operand} {r r' : Nat} (ha : OperandLike θ a a') (hb : OperandLike θ b b')
      (hr : θ.value r r') : InstrLike θ count (.store a b r) (.store a' b' r')
  | load {a a' : Operand} {r r' : Nat} (ha : OperandLike θ a a') (hr : θ.value r r') :
      InstrLike θ count (.load a r) (.load a' r')
  | branch {n : Nat} (hn : n < count) : InstrLike θ count (.branch n) (.branch n)
  | condBranch {c c' : Operand} {n m : Nat} (hc : OperandLike θ c c') (hn : n < count)
      (hm : m < count) : InstrLike θ count (.condBranch c n m) (.condBranch c' n m)
  | member {a a' b b' c c' : Operand} {r r' : Nat} (ha : OperandLike θ a a')
      (hb : OperandLike θ b b') (hc : OperandLike θ c c') (hr : θ.value r r') :
      InstrLike θ count (.member a b c r) (.member a' b' c' r')
  | element (t : MachineType) {a a' : Operand} {vs vs' : List Operand} {r r' : Nat}
      (ht : TypeFits θ t) (ha : OperandLike θ a a') (hvs : List.Forall₂ (OperandLike θ) vs vs') (hr : θ.value r r') :
      InstrLike θ count (.element t a vs r) (.element t a' vs' r')
  | call {f : Nat} {vs vs' : List Operand} {r r' : Nat} (hf : θ.callee f vs.length)
      (hvs : List.Forall₂ (OperandLike θ) vs vs') (hr : θ.value r r') :
      InstrLike θ count (.call f vs r) (.call f vs' r')
  | callPtr (k : Operand) {a a' : Operand} {vs vs' : List Operand} {r r' : Nat}
      (ha : OperandLike θ a a') (hvs : List.Forall₂ (OperandLike θ) vs vs') (hr : θ.value r r') :
      InstrLike θ count (.callPtr a k vs r) (.callPtr a' k vs' r')
  | int64 (n : Operand) {r r' : Nat} (hr : θ.value r r') :
      InstrLike θ count (.int64 n r) (.int64 n r')
  | smallInt (sort : SmallInt) (n : Operand) {r r' : Nat} (hr : θ.value r r') :
      InstrLike θ count (.smallInt sort n r) (.smallInt sort n r')
  | float64 (x : Option Binary64) {r r' : Nat} (hr : θ.value r r') :
      InstrLike θ count (.float64 x r) (.float64 x r')
  | null (t : MachineType) {r r' : Nat} (ht : TypeFits θ t) (hr : θ.value r r') :
      InstrLike θ count (.null t r) (.null t r')
  | cast (sort : Cast) (t : MachineType) {a a' : Operand} {r r' : Nat} (ht : TypeFits θ t)
      (ha : OperandLike θ a a') (hr : θ.value r r') : InstrLike θ count (.cast sort a t r) (.cast sort a' t r')
  | alloca (t : MachineType) {r r' : Nat} (ht : TypeFits θ t) (hr : θ.value r r') :
      InstrLike θ count (.alloca t r) (.alloca t r')
  | ret {a a' : Operand} (ha : OperandLike θ a a') : InstrLike θ count (.ret a) (.ret a')
  | retVoid : InstrLike θ count .retVoid .retVoid
  | retNull : InstrLike θ count .retNull .retNull
  | globalVar {id : Int} {r r' : Nat} (hid : θ.global id) (hr : θ.value r r') :
      InstrLike θ count (.globalVar id r) (.globalVar id r')
  | globalText (s : Option String) {r r' : Nat} (hr : θ.value r r') :
      InstrLike θ count (.globalText s r) (.globalText s r')
  | funcPtr {f : Nat} {r r' : Nat} (hf : θ.listed f) (hr : θ.value r r') :
      InstrLike θ count (.funcPtr f r) (.funcPtr f r')
  | phi (t : MachineType) {vs vs' : List Operand} {blocks : List Nat} {r r' : Nat}
      (ht : TypeFits θ t) (hvs : List.Forall₂ (OperandLike θ) vs vs') (hblocks : ∀ n ∈ blocks, n < count)
      (hr : θ.value r r') : InstrLike θ count (.phi t vs blocks r) (.phi t vs' blocks r')

namespace InstrLike

variable {count : Nat} {i i' : Instr}

theorem isTerminator (h : InstrLike θ count i i') : i'.isTerminator = i.isTerminator := by
  cases h <;> rfl

theorem fields (h : InstrLike θ count i i') : List.Forall₂ (FieldLike θ) i.fields i'.fields := by
  have last {r r' : Nat} (hr : θ.value r r') : List.Forall₂ (FieldLike θ) [.count r] [.count r'] :=
    .cons (.count hr) .nil
  cases h with
  | binary op ha hb hr => exact .cons (.same _) (.cons (.word ha) (.cons (.word hb) (last hr)))
  | unary op ha hr => exact .cons (.same _) (.cons (.word ha) (last hr))
  | store ha hb hr => exact .cons (.same _) (.cons (.word ha) (.cons (.word hb) (last hr)))
  | load ha hr => exact .cons (.same _) (.cons (.word ha) (last hr))
  | branch => exact forall₂_same _
  | condBranch hc => exact .cons (.same _) (.cons (.word hc) (forall₂_same _))
  | member ha hb hc hr =>
    exact .cons (.same _) (.cons (.word ha) (.cons (.word hb) (.cons (.word hc) (last hr))))
  | element t _ ha hvs hr =>
    simp only [Instr.fields, ← hvs.length_eq]
    exact List.rel_append (List.rel_append (.cons (.same _) (forall₂_same _)) (.cons (.word ha) (.cons (.same _) (forall₂_word hvs)))) (last hr)
  | call _ hvs hr =>
    simp only [Instr.fields, ← hvs.length_eq]
    exact List.rel_append (.cons (.same _) (.cons (.same _) (.cons (.same _) (forall₂_word hvs)))) (last hr)
  | callPtr k ha hvs hr =>
    simp only [Instr.fields, ← hvs.length_eq]
    exact List.rel_append (.cons (.same _) (.cons (.word ha) (.cons (.same _) (.cons (.same _) (forall₂_word hvs))))) (last hr)
  | int64 n hr => exact .cons (.same _) (.cons (.same _) (last hr))
  | smallInt sort n hr => exact .cons (.same _) (.cons (.same _) (last hr))
  | float64 x hr => exact .cons (.same _) (.cons (.same _) (last hr))
  | null t _ hr => exact List.rel_append (forall₂_same _) (last hr)
  | cast sort t _ ha hr =>
    exact List.rel_append (.cons (.same _) (.cons (.word ha) (forall₂_same _))) (last hr)
  | alloca t _ hr => exact List.rel_append (forall₂_same _) (last hr)
  | ret ha => exact .cons (.same _) (.cons (.word ha) .nil)
  | retVoid => exact forall₂_same _
  | retNull => exact forall₂_same _
  | globalVar _ hr => exact .cons (.same _) (.cons (.same _) (last hr))
  | globalText s hr => exact .cons (.same _) (.cons (.same _) (last hr))
  | funcPtr _ hr => exact .cons (.same _) (.cons (.same _) (last hr))
  | phi t _ hvs hblocks hr =>
    simp only [Instr.fields, ← hvs.length_eq]
    exact List.rel_append (List.rel_append (List.rel_append (forall₂_same _) (.cons (.same _) (forall₂_word hvs))) (forall₂_same _)) (last hr)

theorem uses (h : InstrLike θ count i i') : List.Forall₂ (OperandLike θ) i.uses i'.uses := by
  cases h with
  | binary _ ha hb _ | store ha hb _ => exact .cons ha (.cons hb .nil)
  | unary _ ha _ | cast _ _ _ ha _ | load ha _ | ret ha | condBranch ha _ _ => exact .cons ha .nil
  | member ha hb hc _ => exact .cons ha (.cons hb (.cons hc .nil))
  | element _ _ ha hvs _ | callPtr _ ha hvs _ => exact .cons ha hvs
  | call _ hvs _ | phi _ _ hvs _ _ => exact hvs
  | _ => exact .nil

theorem targets (h : InstrLike θ count i i') : ∀ n ∈ i.targets, n < count := by
  cases h with
  | branch hn => simpa [Instr.targets] using hn
  | condBranch _ hn hm => simpa [Instr.targets] using ⟨hn, hm⟩
  | phi _ _ _ hblocks _ => exact hblocks
  | _ => exact nofun

theorem types (h : InstrLike θ count i i') : ∀ t ∈ i.types, t.Within θ.struct := by
  cases h with
  | element _ ht _ _ _ | null _ ht _ | cast _ _ ht _ _ | alloca _ ht _ | phi _ ht _ _ _ =>
    simpa [Instr.types] using ht.within
  | _ => exact nofun

theorem write_eq_none (h : InstrLike θ count i i')
    (hfits : ∀ n m, θ.value n m → fitsSigned 4 n = true → fitsSigned 4 m = true) {locked : Bool}
    (hw : (i.write locked).2 = none) : (i'.write locked).2 = none :=
  writeAll_of_like h.fields hfits locked hw

end InstrLike
end Lowering
