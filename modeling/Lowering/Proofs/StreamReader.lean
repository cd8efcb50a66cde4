import Lowering.Program.Stream
import Lowering.Proofs.TypeShape
import Mathlib.Data.String.Lemmas

/-!
A reader of the stream, and what it recovers. A name is written with the count of its characters and
read by the count of its bytes, so the reader recovers a program exactly if no name has a character of
more than one byte.
-/
namespace Lowering

namespace Field

/-- An open writer takes the fields whole, as these bytes. -/
def Writes (fs : List Field) (bs : Bytes) : Prop := writeAll false fs = (bs, none)

variable {bs : Bytes}

theorem written_eq_ok_iff {fs : List Field} : written fs = .ok bs ↔ Writes fs bs := by
  unfold written Writes
  split <;> simp_all

theorem writes_nil_iff : Writes [] bs ↔ bs = [] := by
  simp [Writes, writeAll, eq_comm]

theorem writes_cons_iff {f : Field} {fs : List Field} :
    Writes (f :: fs) bs ↔ ∃ b rest, f.bytes = .ok b ∧ Writes fs rest ∧ bs = b ++ rest := by
  simp only [Writes, writeAll, write, Bool.false_eq_true, if_false]
  cases f.bytes with
  | error fault => simp
  | ok b =>
    cases hall : writeAll false fs with
    | mk more fault =>
      simp only [Prod.mk.injEq, Except.ok.injEq, exists_eq_left', exists_and_left]
      constructor
      · rintro ⟨rfl, rfl⟩
        exact ⟨more, ⟨rfl, rfl⟩, rfl⟩
      · rintro ⟨_, ⟨rfl, rfl⟩, rfl⟩
        exact ⟨rfl, rfl⟩

theorem writes_append_iff {fs gs : List Field} :
    Writes (fs ++ gs) bs ↔ ∃ xs ys, Writes fs xs ∧ Writes gs ys ∧ bs = xs ++ ys := by
  induction fs generalizing bs with
  | nil => simp [writes_nil_iff]
  | cons f fs ih =>
    simp only [List.cons_append, writes_cons_iff, ih]
    constructor
    · rintro ⟨b, rest, hb, ⟨xs, ys, hxs, hys, rfl⟩, rfl⟩
      exact ⟨b ++ xs, ys, ⟨b, xs, hb, hxs, rfl⟩, hys, by simp⟩
    · rintro ⟨xs, ys, ⟨b, rest, hb, hrest, rfl⟩, hys, rfl⟩
      exact ⟨b, rest ++ ys, hb, ⟨rest, ys, hrest, hys, rfl⟩, by simp⟩

theorem writes_flatMap {α : Type} {fields : α → List Field} {put : α → Bytes} {Good : α → Prop}
    {xs : List α} (h : ∀ x ∈ xs, ∀ bs, Writes (fields x) bs → Good x ∧ bs = put x)
    (hbs : Writes (xs.flatMap fields) bs) : (∀ x ∈ xs, Good x) ∧ bs = xs.flatMap put := by
  induction xs generalizing bs with
  | nil => simpa using writes_nil_iff.1 hbs
  | cons x xs ih =>
    rw [List.forall_mem_cons] at h
    obtain ⟨xs', ys, hx, hxs, rfl⟩ := writes_append_iff.1 hbs
    obtain ⟨hgood, rfl⟩ := h.1 _ hx
    obtain ⟨hall, rfl⟩ := ih h.2 hxs
    exact ⟨List.forall_mem_cons.2 ⟨hgood, hall⟩, rfl⟩

theorem bytes_word_eq_ok_iff {n : Int} :
    (word (.id n)).bytes = .ok bs ↔ fitsSigned 4 n = true ∧ bs = signedBytes 4 n := by
  by_cases h : fitsSigned 4 n = true <;> simp only [bytes, integer, Operand.toInt?, h]
  · simp only [if_true, Except.ok.injEq, true_and, eq_comm]
  · simp

theorem bytes_operand_eq_ok {o : Operand} (h : (word o).bytes = .ok bs) :
    ∃ n, o.toInt? = some n ∧ fitsSigned 4 n = true ∧ bs = signedBytes 4 n := by
  rw [bytes, integer] at h
  cases ho : o.toInt? with
  | none => simp [ho] at h
  | some n =>
    rw [ho] at h
    exact ⟨n, rfl, bytes_word_eq_ok_iff.1 h⟩

theorem bytes_text_eq_ok_iff {s : String} :
    (text s).bytes = .ok bs ↔ fitsSigned 4 s.length = true ∧ bs = textBytes s := by
  by_cases h : fitsSigned 4 s.length = true <;> simp only [bytes, h]
  · simp only [if_true, Except.ok.injEq, true_and, eq_comm]
  · simp

end Field

namespace MachineType

open Field

mutual

/-- What the stream tells of a type. -/
def shape : MachineType → TypeShape
  | ⟨primitive, structId, pointers, result, params, element, size⟩ =>
    match primitive with
    | .func => .function pointers structId (shapeOf result) (shapes params)
    | .array => .array pointers structId (shapeOf element) (size.toInt?.getD 0)
    | primitive => .layer primitive.code pointers structId

def shapeOf : Option MachineType → TypeShape
  | none => .layer Primitive.void.code 0 0
  | some t => t.shape

def shapes : List MachineType → List TypeShape
  | [] => []
  | t :: rest => t.shape :: shapes rest

end

theorem shapes_eq (ts : List MachineType) : shapes ts = ts.map shape := by
  induction ts with
  | nil => rfl
  | cons t rest ih => simp [shapes, ih]

mutual

theorem writes_fields (t : MachineType) {bs : Bytes} (h : Writes t.fields bs) :
    TypeShape.layout.Fits t.shape ∧ bs = t.shape.put := by
  obtain ⟨primitive, structId, pointers, result, params, element, size⟩ := t
  unfold fields at h
  obtain ⟨_, _, hkind, hlayer, rfl⟩ := writes_cons_iff.1 h
  obtain ⟨_, _, hpointers, hrest, rfl⟩ := writes_cons_iff.1 hlayer
  obtain ⟨_, inside, hid, hinside, rfl⟩ := writes_cons_iff.1 hrest
  obtain ⟨kindFits, rfl⟩ := bytes_word_eq_ok_iff.1 hkind
  obtain ⟨pointersFit, rfl⟩ := bytes_word_eq_ok_iff.1 hpointers
  obtain ⟨idFits, rfl⟩ := bytes_word_eq_ok_iff.1 hid
  have hw : TypeShape.words.Fits (primitive.code, pointers, structId) :=
    ⟨kindFits, pointersFit, idFits⟩
  cases primitive with
  | func =>
    obtain ⟨xs, ys, hresult, hargs, rfl⟩ := writes_append_iff.1 hinside
    obtain ⟨_, zs, hcount, hparams, rfl⟩ := writes_cons_iff.1 hargs
    obtain ⟨countFits, rfl⟩ := bytes_word_eq_ok_iff.1 hcount
    obtain ⟨resultFits, rfl⟩ := writes_resultFields result hresult
    obtain ⟨paramsFit, rfl⟩ := writes_paramFields params hparams
    have hlen : (shapes params).length = params.length := by rw [shapes_eq, List.length_map]
    rw [← hlen] at countFits ⊢
    refine ⟨TypeShape.layout_fits_function hw resultFits ⟨countFits, paramsFit⟩, ?_⟩
    simp only [shape, TypeShape.put_function, TypeShape.putLayer, Layout.putCounted,
      List.append_assoc]
    rfl
  | array =>
    obtain ⟨xs, ys, helement, hlast, rfl⟩ := writes_append_iff.1 hinside
    obtain ⟨_, zs, hsize, hnil, rfl⟩ := writes_cons_iff.1 hlast
    obtain ⟨elementFits, rfl⟩ := writes_elementFields element helement
    obtain ⟨n, hn, sizeFits, rfl⟩ := bytes_operand_eq_ok hsize
    rw [writes_nil_iff.1 hnil]
    have hshape : shape ⟨.array, structId, pointers, result, params, element, size⟩ =
        .array pointers structId (shapeOf element) n := by rw [shape, hn]; rfl
    rw [hshape]
    refine ⟨TypeShape.layout_fits_array hw elementFits sizeFits, ?_⟩
    simp only [TypeShape.put, TypeShape.putLayer, List.append_assoc, List.append_nil]
    rfl
  | _ =>
    rw [writes_nil_iff.1 hinside, List.append_nil]
    exact ⟨TypeShape.layout_fits_layer hw (by decide) (by decide), rfl⟩

theorem writes_resultFields (t : Option MachineType) {bs : Bytes} (h : Writes (resultFields t) bs) :
    TypeShape.layout.Fits (shapeOf t) ∧ bs = (shapeOf t).put := by
  cases t with
  | none => simp [resultFields, writes_cons_iff, bytes] at h
  | some t => exact writes_fields t h

theorem writes_elementFields (t : Option MachineType) {bs : Bytes} (h : Writes (elementFields t) bs) :
    TypeShape.layout.Fits (shapeOf t) ∧ bs = (shapeOf t).put := by
  cases t with
  | none => simp [elementFields, writes_cons_iff, bytes] at h
  | some t => exact writes_fields t h

theorem writes_paramFields (ts : List MachineType) {bs : Bytes} (h : Writes (paramFields ts) bs) :
    (∀ t ∈ shapes ts, TypeShape.layout.Fits t) ∧ bs = (shapes ts).flatMap TypeShape.put := by
  cases ts with
  | nil => simpa [shapes] using writes_nil_iff.1 h
  | cons t rest =>
    obtain ⟨xs, ys, hx, hy, rfl⟩ := writes_append_iff.1 h
    obtain ⟨hfits, rfl⟩ := writes_fields t hx
    obtain ⟨hall, rfl⟩ := writes_paramFields rest hy
    exact ⟨List.forall_mem_cons.2 ⟨hfits, hall⟩, rfl⟩

end

end MachineType

def nameBytes (name : String) : Bytes := name.toUTF8.data.toList

@[simp] theorem length_nameBytes (name : String) : (nameBytes name).length = name.utf8ByteSize := by
  simp [nameBytes]

/-- Every character of the name is one byte. -/
def IsPlainName (name : String) : Prop := name.utf8ByteSize = name.length

instance : DecidablePred IsPlainName := fun name =>
  inferInstanceAs (Decidable (name.utf8ByteSize = name.length))

theorem isPlainName_append_iff {a b : String} (h : IsPlainName a) : IsPlainName (a ++ b) ↔ IsPlainName b := by
  unfold IsPlainName at *
  rw [String.utf8ByteSize_append, String.length_append]
  omega

theorem isPlainName_ofDigits {cs : List Char} (h : ∀ c ∈ cs, c.isDigit = true) : IsPlainName (String.ofList cs) := by
  induction cs with
  | nil => rfl
  | cons c cs ih =>
    rw [List.forall_mem_cons] at h
    have hc : IsPlainName (String.singleton c) := by
      have hdigit := h.1
      simp only [Char.isDigit, Bool.and_eq_true, decide_eq_true_eq] at hdigit
      rw [IsPlainName, String.utf8ByteSize_singleton, String.length_singleton,
        Char.utf8Size_eq_one_iff]
      exact UInt32.le_trans hdigit.2 (by decide)
    rw [String.ofList_cons, isPlainName_append_iff hc]
    exact ih h.2

theorem isPlainName_toString (n : Nat) : IsPlainName (toString n) := by
  rw [Nat.toString_eq_repr, Nat.repr_eq_ofList_toDigits]
  exact isPlainName_ofDigits fun c hc => Nat.isDigit_of_mem_toDigits (by decide) (by decide) hc

theorem textBytes_eq_putBlob {name : String} (h : IsPlainName name) :
    Field.textBytes name = Layout.putBlob (nameBytes name) := by
  rw [Layout.putBlob_eq, length_nameBytes, h]
  rfl

/-- A table of named entries as a reader sees it. -/
def putTable {α : Type} (put : α → Bytes) : List (Bytes × α) → Bytes :=
  Layout.putCounted fun e => Layout.putBlob e.1 ++ put e.2

/-- A table of named entries as it is written. -/
def writtenTable {α : Type} (put : α → Bytes) : List (String × α) → Bytes :=
  Layout.putCounted fun e => Field.textBytes e.1 ++ put e.2

/-- The entries with the bytes of their names. -/
def readable {α : Type} (entries : List (String × α)) : List (Bytes × α) :=
  entries.map fun e => (nameBytes e.1, e.2)

section Table

variable {α : Type} {put : α → Bytes}

theorem putTable_readable (entries : List (String × α)) :
    putTable put (readable entries) = signedBytes 4 entries.length ++
      entries.flatMap fun e => Layout.putBlob (nameBytes e.1) ++ put e.2 := by
  simp [putTable, readable, Layout.putCounted, List.flatMap_map]

theorem writtenTable_eq (entries : List (String × α)) (h : ∀ e ∈ entries, IsPlainName e.1) :
    writtenTable put entries = putTable put (readable entries) := by
  rw [putTable_readable, writtenTable, Layout.putCounted]
  rw [List.flatMap_def, List.flatMap_def]
  congr 2
  exact List.map_congr_left fun e he => by rw [textBytes_eq_putBlob (h e he)]

theorem length_textBytes (name : String) :
    (Field.textBytes name).length = (Layout.putBlob (nameBytes name)).length := by
  simp [Field.textBytes, Layout.putBlob_eq]

theorem length_writtenTable (entries : List (String × α)) :
    (writtenTable put entries).length = (putTable put (readable entries)).length := by
  simp [putTable_readable, writtenTable, Layout.putCounted, List.length_flatMap, length_textBytes]

theorem eq_of_flatMap_eq {β : Type} {f g : β → Bytes} {xs : List β}
    (hlen : ∀ x ∈ xs, (f x).length = (g x).length) (h : xs.flatMap f = xs.flatMap g) : ∀ x ∈ xs, f x = g x := by
  induction xs with
  | nil => simp
  | cons x xs ih =>
    rw [List.forall_mem_cons] at hlen ⊢
    obtain ⟨hx, hxs⟩ := List.append_inj h hlen.1
    exact ⟨hx, ih hlen.2 hxs⟩

theorem isPlainName_of_textBytes_eq {name : String} (hchars : fitsSigned 4 name.length = true)
    (hbytes : fitsSigned 4 (nameBytes name).length = true)
    (h : Field.textBytes name = Layout.putBlob (nameBytes name)) : IsPlainName name := by
  rw [Layout.putBlob_eq, Field.textBytes] at h
  have hcount := signedBytes_inj hchars hbytes (List.append_inj h (by simp)).1
  rw [length_nameBytes] at hcount
  exact (Int.ofNat_inj.1 hcount).symm

theorem isPlainName_of_writtenTable_eq {entries : List (String × α)}
    (hchars : ∀ e ∈ entries, fitsSigned 4 e.1.length = true)
    (hbytes : ∀ e ∈ entries, fitsSigned 4 (nameBytes e.1).length = true)
    (h : writtenTable put entries = putTable put (readable entries)) : ∀ e ∈ entries, IsPlainName e.1 := by
  rw [putTable_readable, writtenTable, Layout.putCounted] at h
  intro e he
  have hentry := eq_of_flatMap_eq (fun e _ => by simp [length_textBytes])
    (List.append_cancel_left h) e he
  exact isPlainName_of_textBytes_eq (hchars e he) (hbytes e he)
    (List.append_inj hentry (length_textBytes e.1)).1

end Table

structure GlobalShape where
  type : TypeShape
  linkage : Int

namespace GlobalShape

def put (g : GlobalShape) : Bytes := g.type.put ++ signedBytes 4 g.linkage

def ofParts : TypeShape × Int ≃ GlobalShape where
  toFun x := ⟨x.1, x.2⟩
  invFun g := (g.type, g.linkage)
  left_inv _ := rfl
  right_inv _ := rfl

def layout : Layout put := (TypeShape.layout.pair (.signed 4)).map ofParts

end GlobalShape

structure FuncShape where
  linkage : Int
  result : TypeShape
  params : List TypeShape
  /-- How many values the reader makes room for. -/
  values : Int
  /-- The name and the bytes of each block. -/
  blocks : List (Bytes × Bytes)

namespace FuncShape

def putBlock (b : Bytes × Bytes) : Bytes := Layout.putBlob b.1 ++ Layout.putBlob b.2

def put (f : FuncShape) : Bytes :=
  signedBytes 4 f.linkage ++ (f.result.put ++ (Layout.putCounted TypeShape.put f.params ++
    (signedBytes 4 f.values ++ Layout.putCounted putBlock f.blocks)))

def ofParts :
    Int × TypeShape × List TypeShape × Int × List (Bytes × Bytes) ≃ FuncShape where
  toFun x := ⟨x.1, x.2.1, x.2.2.1, x.2.2.2.1, x.2.2.2.2⟩
  invFun f := (f.linkage, f.result, f.params, f.values, f.blocks)
  left_inv _ := rfl
  right_inv _ := rfl

def layout : Layout put :=
  ((Layout.signed 4).pair (TypeShape.layout.pair (TypeShape.layout.counted.pair
    ((Layout.signed 4).pair (Layout.blob.pair Layout.blob).counted)))).map ofParts

end FuncShape

/-- What the stream tells of a program. -/
structure Image where
  mode : Int
  structs : List (Bytes × List TypeShape)
  globals : List (Bytes × GlobalShape)
  funcs : List (Bytes × FuncShape)

namespace Image

def put (i : Image) : Bytes :=
  signedBytes 4 i.mode ++ (putTable (Layout.putCounted TypeShape.put) i.structs ++
    (putTable GlobalShape.put i.globals ++ putTable FuncShape.put i.funcs))

def ofParts : Int × List (Bytes × List TypeShape) × List (Bytes × GlobalShape) ×
    List (Bytes × FuncShape) ≃ Image where
  toFun x := ⟨x.1, x.2.1, x.2.2.1, x.2.2.2⟩
  invFun i := (i.mode, i.structs, i.globals, i.funcs)
  left_inv _ := rfl
  right_inv _ := rfl

def layout : Layout put :=
  ((Layout.signed 4).pair ((Layout.blob.pair TypeShape.layout.counted).counted.pair
    ((Layout.blob.pair GlobalShape.layout).counted.pair
      (Layout.blob.pair FuncShape.layout).counted))).map ofParts

theorem layout_fits_iff (i : Image) : layout.Fits i ↔ fitsSigned 4 i.mode = true ∧
    (Layout.blob.pair TypeShape.layout.counted).counted.Fits i.structs ∧
    (Layout.blob.pair GlobalShape.layout).counted.Fits i.globals ∧
    (Layout.blob.pair FuncShape.layout).counted.Fits i.funcs :=
  Iff.rfl

end Image

/-- The name that a stream starts with. -/
def streamHeader : String := "**Flyable format**"

/-- Reads a stream: its header, then an image that takes up all that is left. -/
def readStream (bs : Bytes) : Option Image := do
  let (header, bs) ← Layout.blob.take bs
  let (image, rest) ← Image.layout.take bs
  if header = nameBytes streamHeader ∧ rest = [] then some image else none

def Func.shape (f : Func) : FuncShape where
  linkage := f.linkage
  result := f.result.shape
  params := f.params.toList.map MachineType.shape
  values := f.nextValue + 1
  blocks := f.liveBlocks.map fun b => (nameBytes b.name, b.bytes)

def GlobalVar.shape (g : GlobalVar) : GlobalShape := ⟨g.type.shape, g.linkage⟩

namespace Program

def structEntries (p : Program) : List (String × List TypeShape) :=
  p.listedStructs.map fun s =>
    ("FlyableStruct@" ++ s.name, s.members.toList.map MachineType.shape)

def globalEntries (p : Program) : List (String × GlobalShape) :=
  p.listedGlobals.map fun g => (g.name, g.shape)

def funcEntries (p : Program) : List (String × FuncShape) :=
  p.listedFuncs.map fun f => (f.name, f.shape)

/-- All that a reader should recover of a program, in the order of its tables. -/
def image (p : Program) (mode : Nat) : Image where
  mode := mode
  structs := readable p.structEntries
  globals := readable p.globalEntries
  funcs := readable p.funcEntries

def entryNames (p : Program) : List String :=
  p.listedStructs.map (·.name) ++ p.listedGlobals.map (·.name) ++ p.listedFuncs.map (·.name)

end Program

section Written

open Field

variable {bs : Bytes}

theorem writes_types {ts : List MachineType} (h : Writes (.count ts.length :: ts.flatMap MachineType.fields) bs) :
    TypeShape.layout.counted.Fits (ts.map MachineType.shape) ∧
      bs = Layout.putCounted TypeShape.put (ts.map MachineType.shape) := by
  obtain ⟨_, _, hcount, htypes, rfl⟩ := writes_cons_iff.1 h
  obtain ⟨countFits, rfl⟩ := bytes_word_eq_ok_iff.1 hcount
  obtain ⟨typesFit, rfl⟩ := writes_flatMap (fun t _ _ => t.writes_fields) htypes
  rw [Layout.counted_fits_iff, Layout.putCounted, List.length_map, List.flatMap_map]
  exact ⟨⟨countFits, List.forall_mem_map.2 typesFit⟩, rfl⟩

theorem writes_struct {s : StructDef} (h : Writes (Program.structFields s) bs) :
    (fitsSigned 4 ("FlyableStruct@" ++ s.name).length = true ∧
      TypeShape.layout.counted.Fits (s.members.toList.map MachineType.shape)) ∧
    bs = textBytes ("FlyableStruct@" ++ s.name) ++
      Layout.putCounted TypeShape.put (s.members.toList.map MachineType.shape) := by
  obtain ⟨_, _, hname, hmembers, rfl⟩ := writes_cons_iff.1 h
  obtain ⟨nameFits, rfl⟩ := bytes_text_eq_ok_iff.1 hname
  rw [← Array.length_toList] at hmembers
  obtain ⟨membersFit, rfl⟩ := writes_types hmembers
  exact ⟨⟨nameFits, membersFit⟩, rfl⟩

theorem writes_global {g : GlobalVar} (h : Writes g.fields bs) :
    (fitsSigned 4 g.name.length = true ∧ GlobalShape.layout.Fits g.shape) ∧ bs = textBytes g.name ++ g.shape.put := by
  obtain ⟨_, _, hname, hrest, rfl⟩ := writes_cons_iff.1 h
  obtain ⟨nameFits, rfl⟩ := bytes_text_eq_ok_iff.1 hname
  obtain ⟨_, _, htype, hlast, rfl⟩ := writes_append_iff.1 hrest
  obtain ⟨typeFits, rfl⟩ := g.type.writes_fields htype
  obtain ⟨_, _, hlinkage, hnil, rfl⟩ := writes_cons_iff.1 hlast
  obtain ⟨linkageFits, rfl⟩ := bytes_word_eq_ok_iff.1 hlinkage
  rw [writes_nil_iff.1 hnil, List.append_nil]
  exact ⟨⟨nameFits, typeFits, linkageFits⟩, rfl⟩

theorem isPlainName_block (b : Block) : IsPlainName b.name :=
  (isPlainName_append_iff (by decide)).2 (isPlainName_toString b.id)

theorem writes_block {b : Block} (h : Writes b.fields bs) :
    (Layout.blob.pair Layout.blob).Fits (nameBytes b.name, b.bytes) ∧
      bs = FuncShape.putBlock (nameBytes b.name, b.bytes) := by
  obtain ⟨_, _, hname, hrest, rfl⟩ := writes_cons_iff.1 h
  obtain ⟨nameFits, rfl⟩ := bytes_text_eq_ok_iff.1 hname
  obtain ⟨_, _, hcount, hlast, rfl⟩ := writes_cons_iff.1 hrest
  obtain ⟨countFits, rfl⟩ := bytes_word_eq_ok_iff.1 hcount
  obtain ⟨_, _, hraw, hnil, rfl⟩ := writes_cons_iff.1 hlast
  obtain rfl : b.bytes = _ := Except.ok.inj hraw
  have hplain := isPlainName_block b
  rw [writes_nil_iff.1 hnil, List.append_nil, textBytes_eq_putBlob hplain, FuncShape.putBlock,
    Layout.putBlob_eq b.bytes]
  rw [← hplain, ← length_nameBytes] at nameFits
  exact ⟨⟨(Layout.blob_fits_iff _).2 nameFits, (Layout.blob_fits_iff _).2 countFits⟩, rfl⟩

theorem writes_func {f : Func} (h : Writes f.fields bs) :
    (fitsSigned 4 f.name.length = true ∧ FuncShape.layout.Fits f.shape) ∧ bs = textBytes f.name ++ f.shape.put := by
  obtain ⟨_, _, hhead, hbody, rfl⟩ := writes_append_iff.1 h
  obtain ⟨_, _, hsignature, hparams, rfl⟩ := writes_append_iff.1 hhead
  obtain ⟨_, _, hname, hlinked, rfl⟩ := writes_cons_iff.1 hsignature
  obtain ⟨_, _, hlinkage, hresult, rfl⟩ := writes_cons_iff.1 hlinked
  obtain ⟨_, _, hvalues, hblocks, rfl⟩ := writes_cons_iff.1 hbody
  obtain ⟨_, _, hcount, hlive, rfl⟩ := writes_cons_iff.1 hblocks
  obtain ⟨nameFits, rfl⟩ := bytes_text_eq_ok_iff.1 hname
  obtain ⟨linkageFits, rfl⟩ := bytes_word_eq_ok_iff.1 hlinkage
  obtain ⟨resultFits, rfl⟩ := f.result.writes_fields hresult
  rw [← Array.length_toList] at hparams
  obtain ⟨paramsFit, rfl⟩ := writes_types hparams
  obtain ⟨valuesFit, rfl⟩ := bytes_word_eq_ok_iff.1 hvalues
  obtain ⟨countFits, rfl⟩ := bytes_word_eq_ok_iff.1 hcount
  obtain ⟨blocksFit, rfl⟩ := writes_flatMap (fun b _ _ => writes_block) hlive
  have hlen : f.shape.blocks.length = f.blockCount := by
    simp [Func.shape, Func.liveBlocks, Func.blockCount]
  rw [← hlen] at countFits
  refine ⟨⟨nameFits, linkageFits, resultFits, paramsFit, valuesFit, countFits,
    List.forall_mem_map.2 blocksFit⟩, ?_⟩
  have hput : Layout.putCounted FuncShape.putBlock f.shape.blocks = signedBytes 4 f.blockCount ++
      f.liveBlocks.flatMap fun b => FuncShape.putBlock (nameBytes b.name, b.bytes) := by
    rw [Layout.putCounted, hlen, Func.shape, List.flatMap_map]
  rw [FuncShape.put, hput]
  simp only [List.append_assoc]
  rfl

/-- The counts and the bodies of a table can be written; nothing is said of how its names read. -/
structure TableFits {α : Type} {put : α → Bytes} (l : Layout put) (entries : List (String × α)) :
    Prop where
  count : fitsSigned 4 entries.length = true
  names : ∀ e ∈ entries, fitsSigned 4 e.1.length = true
  bodies : ∀ e ∈ entries, l.Fits e.2

section Table

variable {α ε : Type} {put : α → Bytes} {l : Layout put}

theorem writes_table {xs : List ε} {fields : ε → List Field} {name : ε → String} {body : ε → α}
    (hx : ∀ x ∈ xs, ∀ bs, Writes (fields x) bs → (fitsSigned 4 (name x).length = true ∧ l.Fits (body x)) ∧
        bs = textBytes (name x) ++ put (body x)) {bs : Bytes}
    (h : Writes (.count (xs.map fields).length :: (xs.map fields).flatten) bs) :
    TableFits l (xs.map fun x => (name x, body x)) ∧ bs = writtenTable put (xs.map fun x => (name x, body x)) := by
  obtain ⟨_, _, hcount, hentries, rfl⟩ := writes_cons_iff.1 h
  obtain ⟨countFits, rfl⟩ := bytes_word_eq_ok_iff.1 hcount
  rw [← List.flatMap_def] at hentries
  obtain ⟨good, rfl⟩ := writes_flatMap hx hentries
  have hlen : (xs.map fields).length = (xs.map fun x => (name x, body x)).length := by simp
  rw [hlen] at countFits ⊢
  refine ⟨⟨countFits, List.forall_mem_map.2 fun x hx => (good x hx).1,
    List.forall_mem_map.2 fun x hx => (good x hx).2⟩, ?_⟩
  rw [writtenTable, Layout.putCounted, List.flatMap_map]

theorem TableFits.readable {entries : List (String × α)} (h : TableFits l entries)
    (hplain : ∀ e ∈ entries, IsPlainName e.1) : (Layout.blob.pair l).counted.Fits (readable entries) := by
  rw [Layout.counted_fits_iff, Lowering.readable, List.length_map]
  refine ⟨h.count, List.forall_mem_map.2 fun e he => ⟨(Layout.blob_fits_iff _).2 ?_, h.bodies e he⟩⟩
  rw [length_nameBytes, hplain e he]
  exact h.names e he

theorem TableFits.isPlainName {entries : List (String × α)} (h : TableFits l entries)
    (hread : (Layout.blob.pair l).counted.Fits (Lowering.readable entries))
    (heq : writtenTable put entries = putTable put (Lowering.readable entries)) : ∀ e ∈ entries, IsPlainName e.1 := by
  rw [Layout.counted_fits_iff, Lowering.readable, List.forall_mem_map] at hread
  exact isPlainName_of_writtenTable_eq h.names
    (fun e he => (Layout.blob_fits_iff _).1 (hread.2 e he).1) heq

end Table

theorem writes_stream {p : Program} {mode : Nat} (h : Writes (p.streamFields mode) bs) :
    fitsSigned 4 mode = true ∧ TableFits TypeShape.layout.counted p.structEntries ∧
    TableFits GlobalShape.layout p.globalEntries ∧ TableFits FuncShape.layout p.funcEntries ∧
    bs = Layout.putBlob (nameBytes streamHeader) ++ (signedBytes 4 mode ++
      (writtenTable (Layout.putCounted TypeShape.put) p.structEntries ++
        (writtenTable GlobalShape.put p.globalEntries ++ writtenTable FuncShape.put p.funcEntries))) := by
  obtain ⟨_, _, hfront, hfuncs, rfl⟩ := writes_append_iff.1 h
  obtain ⟨_, _, hhead, hglobals, rfl⟩ := writes_append_iff.1 hfront
  obtain ⟨_, _, hheader, hmoded, rfl⟩ := writes_cons_iff.1 hhead
  obtain ⟨_, _, hmode, hstructs, rfl⟩ := writes_cons_iff.1 hmoded
  obtain ⟨-, rfl⟩ := bytes_text_eq_ok_iff.1 hheader
  obtain ⟨modeFits, rfl⟩ := bytes_word_eq_ok_iff.1 hmode
  obtain ⟨structsFit, rfl⟩ := writes_table (fun _ _ _ => writes_struct) hstructs
  obtain ⟨globalsFit, rfl⟩ := writes_table (fun _ _ _ => writes_global) hglobals
  obtain ⟨funcsFit, rfl⟩ := writes_table (fun _ _ _ => writes_func) hfuncs
  refine ⟨modeFits, structsFit, globalsFit, funcsFit, ?_⟩
  rw [show "**Flyable format**" = streamHeader from rfl, textBytes_eq_putBlob (by decide)]
  simp only [List.append_assoc]
  rfl

end Written

namespace Program

theorem forall_entryNames_iff (p : Program) : (∀ name ∈ p.entryNames, IsPlainName name) ↔
    (∀ e ∈ p.structEntries, IsPlainName e.1) ∧ (∀ e ∈ p.globalEntries, IsPlainName e.1) ∧
      ∀ e ∈ p.funcEntries, IsPlainName e.1 := by
  have hstruct : IsPlainName "FlyableStruct@" := by decide
  simp only [entryNames, structEntries, globalEntries, funcEntries, List.forall_mem_append,
    List.forall_mem_map, isPlainName_append_iff hstruct, and_assoc]

theorem readStream_eq_some_iff {image : Image} {bs : Bytes} :
    readStream (Layout.putBlob (nameBytes streamHeader) ++ bs) = some image ↔
      Image.layout.Fits image ∧ bs = image.put := by
  have hheader := Layout.blob.take_put (nameBytes streamHeader)
    ((Layout.blob_fits_iff _).2 (by decide)) bs
  simp only [readStream, hheader, Option.bind_eq_bind, Option.bind_some, true_and,
    Option.bind_eq_some_iff, Prod.exists, Option.ite_none_right_eq_some, Option.some.injEq,
    Image.layout.take_eq_some_iff]
  constructor
  · rintro ⟨image, rest, ⟨hfits, rfl⟩, rfl, rfl⟩
    exact ⟨hfits, by simp⟩
  · rintro ⟨hfits, rfl⟩
    exact ⟨image, [], ⟨hfits, by simp⟩, rfl, rfl⟩

/-- The reader recovers all of a written program, and uses up the stream, exactly if every name has
as many bytes as characters. -/
theorem readStream_stream_iff (p : Program) (mode : Nat) {bytes : Bytes}
    (h : p.stream mode = .ok bytes) : readStream bytes = some (p.image mode) ↔
      ∀ name ∈ p.entryNames, name.utf8ByteSize = name.length := by
  obtain ⟨modeFits, structsFit, globalsFit, funcsFit, rfl⟩ := writes_stream (Field.written_eq_ok_iff.1 h)
  rw [readStream_eq_some_iff, Image.layout_fits_iff, Image.put]
  refine Iff.trans ?_ p.forall_entryNames_iff.symm
  constructor
  · rintro ⟨⟨-, structsRead, globalsRead, funcsRead⟩, heq⟩
    obtain ⟨-, heq⟩ := List.append_inj heq (by simp [image])
    obtain ⟨hstructs, heq⟩ := List.append_inj heq (length_writtenTable _)
    obtain ⟨hglobals, hfuncs⟩ := List.append_inj heq (length_writtenTable _)
    exact ⟨structsFit.isPlainName structsRead hstructs, globalsFit.isPlainName globalsRead hglobals,
      funcsFit.isPlainName funcsRead hfuncs⟩
  · rintro ⟨hstructs, hglobals, hfuncs⟩
    rw [writtenTable_eq _ hstructs, writtenTable_eq _ hglobals, writtenTable_eq _ hfuncs]
    exact ⟨⟨modeFits, structsFit.readable hstructs, globalsFit.readable hglobals,
      funcsFit.readable hfuncs⟩, rfl⟩

def oneGlobal (name : String) : Program where
  globals := #[{ name, type := .int64 }]
  globalTable := #[(name, 0)]

/-- The reader recovers a variable named by one byte, and not one named by a character of two. -/
theorem readStream_oneGlobal :
    (∃ bytes, (oneGlobal "e").stream 0 = .ok bytes ∧
      readStream bytes = some ((oneGlobal "e").image 0)) ∧
    ∃ bytes, (oneGlobal "é").stream 0 = .ok bytes ∧
      readStream bytes ≠ some ((oneGlobal "é").image 0) := by
  have written : ∀ r : Except Fault Bytes, r.isOk = true → ∃ bytes, r = .ok bytes := by
    rintro (_ | bytes) h
    · cases h
    · exact ⟨bytes, rfl⟩
  constructor
  · obtain ⟨bytes, h⟩ := written ((oneGlobal "e").stream 0) (by decide +kernel)
    exact ⟨bytes, h, (readStream_stream_iff _ _ h).2 (by decide +kernel)⟩
  · obtain ⟨bytes, h⟩ := written ((oneGlobal "é").stream 0) (by decide +kernel)
    exact ⟨bytes, h, fun hread => absurd ((readStream_stream_iff _ _ h).1 hread) (by decide +kernel)⟩

end Program
end Lowering
