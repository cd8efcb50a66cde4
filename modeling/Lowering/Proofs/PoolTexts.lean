import Lowering.Proofs.OpcodeTable
import Lowering.Proofs.Registration

/-!
The texts of the constant pool, as the entry point makes them. A text is written after the count of its
characters and read by the count of its bytes, and the library is given the count of its characters as well:
it arrives as it is exactly if each of its characters is one byte.
-/
namespace Lowering

/-- A text is taken back off its operand, up to what follows, exactly if it is as long in bytes as in
characters. -/
theorem Layout.take_textBytes_iff {text : String} (h : fitsSigned 4 text.length = true) (rest : Bytes) :
    Layout.blob.take (Field.textBytes text ++ rest) = some (nameBytes text, rest) ↔ IsPlainName text := by
  rw [Layout.blob.take_eq_some_iff, Layout.blob_fits_iff, List.append_cancel_right_eq]
  constructor
  · rintro ⟨hbytes, heq⟩
    exact isPlainName_of_textBytes_eq h hbytes heq
  · intro hplain
    rw [length_nameBytes, hplain]
    exact ⟨h, textBytes_eq_putBlob hplain⟩

theorem Instr.Whole.writes {i : Instr} (h : i.Whole) : Field.Writes i.fields i.bytes := Prod.ext rfl h

theorem Straight.Row.exists_of_mem {γ : Type} {made : γ → Nat → List Instr → Prop} {xs : List γ} {n : Nat}
    {js : List Instr} (h : Row made xs n js) {x : γ} (hx : x ∈ xs) :
    ∃ before ks after m, js = before ++ ks ++ after ∧ made x m ks := by
  induction xs generalizing n js with
  | nil => cases hx
  | cons y xs ih =>
    obtain ⟨ks, ls, rfl, hy, hrest⟩ := h
    rcases List.mem_cons.1 hx with rfl | hx
    · exact ⟨[], ks, ls, n, rfl, hy⟩
    · obtain ⟨before, ms, after, m, rfl, hmade⟩ := ih hrest hx
      exact ⟨ks ++ before, ms, after, m, by simp only [List.append_assoc], hmade⟩

namespace EntryBlock

variable {n : Nat}

/-- The code that makes a text of so many characters and stores it in a variable. -/
def textFill (i : Nat) (id : Int) (text : String) (n : Nat) : List Instr :=
  .globalVar id n :: (textCode i text (n + 1) ++ [.store (.id (n + 4 : Nat)) (.id n) (n + 5)])

/-- A block makes the text of a variable: from the operand of the text on, its bytes are the text, the number
of the value that the text is, and the rest. -/
structure Carries (p : Program) (b : Block) (text : String) (v n : Nat) (operand rest : Bytes) : Prop where
  code : ∃ i before after, p.Calls i "PyUnicode_FromStringAndSize" ∧
    b.items.toList = (before ++ textFill i (p.variableId v) text n ++ after).map .instr ∧
    b.bytes = before.flatMap Instr.bytes ++ (Instr.globalVar (p.variableId v) n).bytes ++
      signedBytes 4 (3001 : Nat) ++ operand
  operand : operand = Field.textBytes text ++ (signedBytes 4 (n + 1 : Nat) ++ rest)
  counted : fitsSigned 4 text.length = true

theorem bytes_of_items {b : Block} {js : List Instr} (h : b.items.toList = js.map .instr) :
    b.bytes = js.flatMap Instr.bytes := by
  rw [Block.bytes, h, List.flatMap_map]
  rfl

theorem Fills.carries {p : Program} {b : Block} {before js after : List Instr} {text : String} {v : Nat}
    (h : Fills p (.text text, v) n js) (hb : b.Shaped) (hitems : b.items.toList = (before ++ js ++ after).map .instr) :
    ∃ operand rest, Carries p b text v n operand rest := by
  obtain ⟨i, hi, rfl⟩ := h.2 text rfl
  have hmem : Item.instr (.globalText (some text) (n + 1)) ∈ b.items := by
    rw [← Array.mem_toList_iff, hitems]
    simp [textCode]
  obtain ⟨hcounted, -, hbytes⟩ := Instr.writes_globalText (hb.whole hmem).writes
  refine ⟨_, (([.cast .pointer (.id (n + 1 : Nat)) .int8Ptr (n + 1 + 1), .int64 (.id text.length) (n + 1 + 2),
    .call i [.id (n + 1 + 1 : Nat), .id (n + 1 + 2 : Nat)] (n + 1 + 3), .store (.id (n + 4 : Nat)) (.id n) (n + 5)] :
    List Instr) ++ after).flatMap Instr.bytes, ⟨i, before, after, hi, hitems, ?_⟩, rfl, hcounted⟩
  rw [bytes_of_items hitems]
  simp only [List.flatMap_append, List.flatMap_cons, textCode, List.cons_append, List.nil_append,
    List.append_assoc, hbytes]

end EntryBlock

namespace Compile

open EntryBlock

variable {modules : List (String × Node)} {output : String} {s : State} {text : String} {v : Nat}

/-- The entry point makes every text of the pool, and it is byte exact for those that are as long in bytes as
in characters: for no other is the text read back up to the number of its value, and for no other is the size
that is passed on the number of its bytes. -/
theorem compile_text_exact_iff {bytes : Option Bytes}
    (h : compile (modules.map moduleFile) { ready with output } = .ok bytes s) (hclean : s.reports = #[])
    (hpool : (Constant.text text, v) ∈ s.program.constants) :
    ∃ (f n : Nat) (g : Func) (b : Block) (operand rest : Bytes),
      s.program.funcs[f]? = some g ∧ g.name = "main" ∧ g.blocks = #[b] ∧
      Carries s.program b text v n operand rest ∧
      (Layout.blob.take operand = some (nameBytes text, signedBytes 4 (n + 1 : Nat) ++ rest) ↔ IsPlainName text) ∧
      (text.length = (nameBytes text).length ↔ IsPlainName text) := by
  obtain ⟨start, t, -, -, hc, hmain, hm⟩ := exists_completed h hclean
  have hsound := (Entry.emitMain_linked hc.waiting.rested hmain).sound
  obtain ⟨f, g, b, n, js, u, hg, hname, hblocks, hitems, before, fills, regs, after, rfl, -, hfills, -⟩ := hm.block
  rw [← hm.constants] at hfills
  obtain ⟨front, ks, back, m, rfl, hmade⟩ := hfills.exists_of_mem (Array.mem_toList_iff.2 hpool)
  have hshaped : b.Shaped := ((hsound.funcs f g hg).blocks 0 b (by rw [hblocks]; rfl)).2
  have hsplit : b.items.toList = ((before ++ front) ++ ks ++ (back ++ regs ++ after ++ [Instr.ret u])).map .instr := by
    rw [hitems]
    simp only [List.append_assoc]
  obtain ⟨operand, rest, hcarries⟩ := hmade.carries hshaped hsplit
  refine ⟨f, m, g, b, operand, rest, hg, hname, hblocks, hcarries, ?_, ?_⟩
  · rw [hcarries.operand]
    exact Layout.take_textBytes_iff hcarries.counted _
  · rw [length_nameBytes]
    exact eq_comm

def isText (text : String) : Constant → Bool
  | .text t => t == text
  | _ => false

theorem eq_text_of_isText {c : Constant} {text : String} (h : isText text c = true) : c = .text text := by
  cases c with
  | text t => rw [beq_iff_eq.1 h]
  | _ => cases h

/-- A module with a function that returns a text of two characters, one of which is two bytes. -/
def accentedModules : List (String × Node) :=
  [("a.py", .mk {} (.other "Module" [.group [plainFunction "f" [] [.mk {} (.ret (.mk {} (.constant (.text "aé"))))]]]))]

theorem accentedModules_inexact : ∃ bytes s' v,
    compile (accentedModules.map moduleFile) { ready with output := "accented.o" } = .ok (some bytes) s' ∧
      s'.reports = #[] ∧ (Constant.text "aé", v) ∈ s'.program.constants ∧
      ∃ b operand rest n, Carries s'.program b "aé" v n operand rest ∧
        Layout.blob.take operand ≠ some (nameBytes "aé", signedBytes 4 (n + 1 : Nat) ++ rest) := by
  obtain ⟨bytes, s', h, hfull⟩ := exists_of_endsWith
    (r := compile (accentedModules.map moduleFile) { ready with output := "accented.o" })
    (P := fun s => s.reports.isEmpty && s.program.constants.any fun e => isText "aé" e.1) (by decide +kernel)
  obtain ⟨hclean, hpool⟩ := Bool.and_eq_true_iff.1 hfull
  have hclean := Array.isEmpty_iff.1 hclean
  obtain ⟨⟨c, v⟩, hmem, hc⟩ := Array.any_eq_true'.1 hpool
  obtain rfl := eq_text_of_isText hc
  obtain ⟨f, n, g, b, operand, rest, -, -, -, hcarries, hread, -⟩ := compile_text_exact_iff h hclean hmem
  exact ⟨bytes, s', v, h, hclean, hmem, b, operand, rest, n, hcarries, fun heq => absurd (hread.1 heq) (by decide)⟩

end Compile
end Lowering
