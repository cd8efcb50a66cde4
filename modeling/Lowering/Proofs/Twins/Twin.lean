import Lowering.Proofs.Renaming
import Lowering.Proofs.Twins.Arguments
import Lowering.Proofs.Twins.Functions

/-!
Twins: the two functions of a definition. They have the same code up to the numbers of values, but for the
code that binds the arguments.
-/
namespace Lowering.Twins

open Lower

variable {lo lo' hi hi' : Nat}

/-- Values stand for one another as matched, and anything may be referred to. -/
def Matching.likeness (v : Matching lo lo') : Likeness :=
  { Likeness.equal with
    value := v.rel
    zero := v.zero
    one := v.one }

theorem Matching.exists_renaming (v : Matching lo lo') : ∃ ρ : Nat → Nat, Function.Injective ρ ∧ ρ 0 = 0 ∧ ρ 1 = 1 ∧
    ρ 2 = 3 ∧ v.likeness.Renames ρ := by
  have hrange : ∀ n m, v.rel n m → 0 ≤ n ∧ 0 ≤ m ∧ m < lo' := fun n m h => ⟨(v.range n m h).1, (v.range n m h).2.2⟩
  obtain ⟨ρ, hinj, hρ⟩ := Lowering.exists_renaming hrange (fun n m m' h h' => (v.eq_iff n m n m' h h').1 rfl)
    (fun n n' m h h' => (v.eq_iff n m n' m h h').2 rfl)
  have hρ' : v.likeness.Renames ρ := hρ
  have hzero : v.likeness.value (0 : Nat) (0 : Nat) := v.zero
  have hone : v.likeness.value (1 : Nat) (1 : Nat) := v.one
  have hkeywords : v.likeness.value (2 : Nat) (3 : Nat) := v.keywords
  exact ⟨ρ, hinj, (hρ'.eq hzero).symm, (hρ'.eq hone).symm, (hρ'.eq hkeywords).symm, hρ'⟩

section Widen

variable {θ : Likeness} {v : Matching lo lo'}

theorem operandLike_widen (hv : ∀ n m, θ.value n m → v.rel n m) {a a' : Operand} (h : OperandLike θ a a') :
    OperandLike v.likeness a a' := by
  cases h with
  | id h => exact .id (hv _ _ h)
  | same h => exact .same h

theorem instrLike_widen (hv : ∀ n m, θ.value n m → v.rel n m) {count count' : Nat} (hcount : count ≤ count')
    {i i' : Instr} (h : InstrLike θ count i i') : InstrLike v.likeness count' i i' := by
  have hop {a a' : Operand} (h : OperandLike θ a a') : OperandLike v.likeness a a' := operandLike_widen hv h
  have hops {vs vs' : List Operand} (h : List.Forall₂ (OperandLike θ) vs vs') :
    List.Forall₂ (OperandLike v.likeness) vs vs' := h.imp fun _ _ => hop
  have htype (t : MachineType) : TypeFits v.likeness t := ⟨t.within_true⟩
  cases h with
  | binary op ha hb hr => exact .binary op (hop ha) (hop hb) (hv _ _ hr)
  | unary op ha hr => exact .unary op (hop ha) (hv _ _ hr)
  | store ha hb hr => exact .store (hop ha) (hop hb) (hv _ _ hr)
  | load ha hr => exact .load (hop ha) (hv _ _ hr)
  | branch hn => exact .branch (Nat.lt_of_lt_of_le hn hcount)
  | condBranch hc hn hm => exact .condBranch (hop hc) (Nat.lt_of_lt_of_le hn hcount) (Nat.lt_of_lt_of_le hm hcount)
  | member ha hb hc hr => exact .member (hop ha) (hop hb) (hop hc) (hv _ _ hr)
  | element t _ ha hvs hr => exact .element t (htype t) (hop ha) (hops hvs) (hv _ _ hr)
  | call _ hvs hr => exact .call trivial (hops hvs) (hv _ _ hr)
  | callPtr k ha hvs hr => exact .callPtr k (hop ha) (hops hvs) (hv _ _ hr)
  | int64 n hr => exact .int64 n (hv _ _ hr)
  | smallInt sort n hr => exact .smallInt sort n (hv _ _ hr)
  | float64 x hr => exact .float64 x (hv _ _ hr)
  | null t _ hr => exact .null t (htype t) (hv _ _ hr)
  | cast sort t _ ha hr => exact .cast sort t (htype t) (hop ha) (hv _ _ hr)
  | alloca t _ hr => exact .alloca t (htype t) (hv _ _ hr)
  | ret ha => exact .ret (hop ha)
  | retVoid => exact .retVoid
  | retNull => exact .retNull
  | globalVar _ hr => exact .globalVar trivial (hv _ _ hr)
  | globalText s hr => exact .globalText s (hv _ _ hr)
  | funcPtr _ hr => exact .funcPtr trivial (hv _ _ hr)
  | phi t _ hvs hblocks hr =>
    exact .phi t (htype t) (hops hvs) (fun n hn => Nat.lt_of_lt_of_le (hblocks n hn) hcount) (hv _ _ hr)

end Widen

/-- Blocks of twins: code that binds so many arguments, then the same code up to the numbers of values. -/
def Matching.Blocks (v : Matching lo lo') (count n : Nat) (b b' : Block) : Prop :=
  ∃ (type : MachineType) (cs cs' : List Nat) (body body' : List Instr), cs.length = n ∧ cs'.length = n ∧
    b.items.toList = (prologue tupleCode type 0 cs ++ body).map .instr ∧
    b'.items.toList = (prologue vectorCode type 0 cs' ++ body').map .instr ∧
    List.Forall₂ (InstrLike v.likeness count) body body'

theorem Matching.Blocks.widen {v : Matching lo lo'} {w : Matching hi hi'} (hvw : ∀ n m, v.rel n m → w.rel n m)
    {count count' n : Nat} (hcount : count ≤ count') {b b' : Block} (h : v.Blocks count n b b') :
    w.Blocks count' n b b' := by
  obtain ⟨type, cs, cs', body, body', hcs, hcs', hb, hb', hlike⟩ := h
  exact ⟨type, cs, cs', body, body', hcs, hcs', hb, hb', hlike.imp fun _ _ => instrLike_widen hvw hcount⟩

/-- The two functions of a definition. -/
structure Twin (g g' : Func) : Prop where
  size : g'.blocks.size = g.blocks.size
  result : g'.result = g.result
  next_le : g'.nextValue ≤ g.nextValue + 1
  alike : ∃ v : Matching g.nextValue g'.nextValue, ∀ (k : Nat) (b b' : Block), g.blocks[k]? = some b →
    g'.blocks[k]? = some b' → ∃ n, v.Blocks g.blocks.size n b b'

theorem Twin.of_declared {g g' : Func} (hg : g.Declared) (hg' : g'.Declared) (hparams : g.params.size = 3)
    (hparams' : g'.params.size = 4) (hresult : g'.result = g.result) : Twin g g' := by
  have hnext : g.nextValue = 3 := hg.nextValue.trans hparams
  have hnext' : g'.nextValue = 4 := hg'.nextValue.trans hparams'
  refine ⟨by rw [hg.blocks, hg'.blocks], hresult, by omega, ?_⟩
  rw [hnext, hnext']
  exact ⟨.parameters, by simp [hg.blocks]⟩

theorem Twin.of_kept {g g' h h' : Func} (hg : Kept g h) (hg' : Kept g' h') (ht : Twin g g') : Twin h h' := by
  obtain ⟨hsize, hresult, hnext, halike⟩ := ht
  refine ⟨?_, ?_, ?_, ?_⟩
  · rw [hg.blocks_eq, hg'.blocks_eq, hsize]
  · rw [hg.result, hg'.result, hresult]
  · rw [hg.next_eq, hg'.next_eq]
    exact hnext
  · rw [hg.next_eq, hg'.next_eq, hg.blocks_eq, hg'.blocks_eq]
    exact halike

def tupleName (base : String) : String := "@global@module@" ++ base ++ "@tp@"

def vectorName (base : String) : String := "@global@module@" ++ base ++ "@vec@"

/-- The functions of definitions come in twos. -/
structure Even (p : Program) : Prop where
  twin : ∀ (base : String) (f : Nat) (g : Func), p.funcs[f]? = some g → g.name = tupleName base →
    ∃ (f' : Nat) (g' : Func), p.funcs[f']? = some g' ∧ g'.name = vectorName base ∧ Twin g g'
  back : ∀ (base : String) (f' : Nat) (g' : Func), p.funcs[f']? = some g' → g'.name = vectorName base →
    ∃ (f : Nat) (g : Func), p.funcs[f]? = some g ∧ g.name = tupleName base

end Lowering.Twins
