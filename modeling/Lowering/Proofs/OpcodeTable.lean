import Lowering.Proofs.StreamReader

/-!
A reader of instructions. A table tells what follows each opcode; the reader takes an opcode, what the
table says, and so on to the end. It recovers every instruction but a text that is longer in bytes than in
characters.
-/
namespace Lowering

namespace Layout

variable {α β : Type} {put : α → Bytes} {putB : β → Bytes}

/-- Values of one sort among those of several. -/
def tagged (l : Layout put) (tag : α → β) (h : ∀ a, putB (tag a) = put a) : Layout putB where
  take bs := (l.take bs).map fun x => (tag x.1, x.2)
  Fits b := ∃ a, l.Fits a ∧ tag a = b
  take_eq_some_iff bs b rest := by
    simp only [Option.map_eq_some_iff, Prod.exists, Prod.mk.injEq, l.take_eq_some_iff]
    constructor
    · rintro ⟨a, _, ⟨ha, rfl⟩, rfl, rfl⟩
      exact ⟨⟨a, ha, rfl⟩, by rw [h]⟩
    · rintro ⟨⟨a, ha, rfl⟩, rfl⟩
      exact ⟨a, rest, ⟨ha, by rw [h]⟩, rfl, rfl⟩

/-- Takes values until nothing is left; there are no more of them than steps. -/
def takeAll (l : Layout put) : Nat → Bytes → Option (List α)
  | _, [] => some []
  | 0, _ :: _ => none
  | k + 1, b :: bs => do
    let (a, rest) ← l.take (b :: bs)
    let more ← takeAll l k rest
    return a :: more

/-- The values that fill a buffer. -/
def readAll (l : Layout put) (bs : Bytes) : Option (List α) := l.takeAll bs.length bs

theorem takeAll_eq_some_iff (l : Layout put) (hput : ∀ a, put a ≠ []) {k : Nat} {bs : Bytes}
    (hk : bs.length ≤ k) {xs : List α} : l.takeAll k bs = some xs ↔ (∀ x ∈ xs, l.Fits x) ∧ bs = xs.flatMap put := by
  induction k generalizing bs xs with
  | zero =>
    obtain rfl : bs = [] := List.eq_nil_of_length_eq_zero (by omega)
    cases xs with
    | nil => simp [takeAll]
    | cons x xs => simp [takeAll, hput]
  | succ k ih =>
    cases bs with
    | nil =>
      cases xs with
      | nil => simp [takeAll]
      | cons x xs => simp [takeAll, hput]
    | cons b bs =>
      simp only [takeAll, Option.bind_eq_bind, Option.bind_eq_some_iff, Prod.exists, Option.pure_def,
        Option.some.injEq, l.take_eq_some_iff]
      have hshort : ∀ a rest, b :: bs = put a ++ rest → rest.length ≤ k := by
        intro a rest heq
        have hlen := congrArg List.length heq
        have := List.length_pos_iff.2 (hput a)
        simp only [List.length_cons, List.length_append] at hlen hk
        omega
      constructor
      · rintro ⟨a, rest, ⟨ha, heq⟩, more, hmore, rfl⟩
        obtain ⟨hfits, rfl⟩ := (ih (hshort a rest heq)).1 hmore
        exact ⟨List.forall_mem_cons.2 ⟨ha, hfits⟩, by rw [heq, List.flatMap_cons]⟩
      · rintro ⟨hfits, heq⟩
        cases xs with
        | nil => cases heq
        | cons x xs =>
          rw [List.forall_mem_cons] at hfits
          rw [List.flatMap_cons] at heq
          exact ⟨x, _, ⟨hfits.1, heq⟩, xs, (ih (hshort x _ heq)).2 ⟨hfits.2, rfl⟩, rfl⟩

theorem readAll_eq_some_iff (l : Layout put) (hput : ∀ a, put a ≠ []) {bs : Bytes} {xs : List α} :
    l.readAll bs = some xs ↔ (∀ x ∈ xs, l.Fits x) ∧ bs = xs.flatMap put :=
  l.takeAll_eq_some_iff hput (Nat.le_refl _)

end Layout

/-- What may follow an opcode. -/
inductive Feed
  | value
  | values
  /-- The number of the value that is computed. -/
  | assigned
  | type
  | block
  | blocks
  | long
  | word
  | text
  deriving DecidableEq, Repr

/-- What is read for a feed. -/
inductive Datum
  | value (n : Int)
  | values (ns : List Int)
  | assigned (n : Int)
  | type (t : TypeShape)
  | block (n : Int)
  | blocks (ns : List Int)
  | long (n : Int)
  | word (n : Int)
  | text (bs : Bytes)

namespace Datum

def put : Datum → Bytes
  | value n | assigned n | block n | word n => signedBytes 4 n
  | values ns | blocks ns => Layout.putCounted (signedBytes 4) ns
  | type t => t.put
  | long n => signedBytes 8 n
  | text bs => Layout.putBlob bs

end Datum

namespace Feed

def layout : Feed → Layout Datum.put
  | value => (Layout.signed 4).tagged .value fun _ => rfl
  | values => (Layout.signed 4).counted.tagged .values fun _ => rfl
  | assigned => (Layout.signed 4).tagged .assigned fun _ => rfl
  | type => TypeShape.layout.tagged .type fun _ => rfl
  | block => (Layout.signed 4).tagged .block fun _ => rfl
  | blocks => (Layout.signed 4).counted.tagged .blocks fun _ => rfl
  | long => (Layout.signed 8).tagged .long fun _ => rfl
  | word => (Layout.signed 4).tagged .word fun _ => rfl
  | text => Layout.blob.tagged .text fun _ => rfl

/-- One feed after the other. -/
def inRow : List Feed → Layout fun ds : List Datum => ds.flatMap Datum.put
  | [] =>
    { take := fun bs => some ([], bs)
      Fits := fun ds => ds = []
      take_eq_some_iff := fun bs ds rest => by
        simp only [Option.some.injEq, Prod.mk.injEq]
        constructor
        · rintro ⟨rfl, rfl⟩
          simp
        · rintro ⟨rfl, rfl⟩
          simp }
  | f :: fs => (f.layout.pair (inRow fs)).tagged (fun x => x.1 :: x.2) fun _ => rfl

/-- What follows each opcode. -/
def table : List (Int × List Feed) :=
  ([1, 2, 3, 4, 5, 6, 7, 8, 9, 10, 12, 13, 14, 16, 100].map fun op => (op, [value, value, assigned])) ++
    ([11, 15, 17, 101].map fun op => (op, [value, assigned])) ++
    [(150, [block]), (151, [value, block, block]), (152, [value, value, value, assigned]),
      (153, [type, value, values, assigned]), (170, [word, values, assigned]),
      (171, [value, word, values, assigned]), (1000, [long, assigned]), (1005, [long, assigned])] ++
    ([1001, 1002, 1003, 1004, 1007, 3000, 3002].map fun op => (op, [word, assigned])) ++
    ([1010, 1011, 1012, 1013, 1014, 1015].map fun op => (op, [value, type, assigned])) ++
    ([1006, 1050, 9998, 9999].map fun op => (op, [type, assigned])) ++
    [(2000, [value]), (2001, []), (2002, []), (3001, [text, assigned]),
      (9997, [type, values, blocks, assigned]), (10000, [value]), (10001, []), (10002, [])]

end Feed

/-- An instruction as it is read: the opcode and what follows it. -/
structure Record where
  opcode : Int
  data : List Datum

namespace Record

def put (r : Record) : Bytes := signedBytes 4 r.opcode ++ r.data.flatMap Datum.put

theorem put_ne_nil (r : Record) : r.put ≠ [] := by
  intro h
  have hlen := congrArg List.length h
  simp [put] at hlen

/-- An opcode and what the table says of it. -/
def layout : Layout put where
  take bs := do
    let (op, bs) ← (Layout.signed 4).take bs
    let feeds ← Feed.table.lookup op
    let (data, bs) ← (Feed.inRow feeds).take bs
    return (⟨op, data⟩, bs)
  Fits r := fitsSigned 4 r.opcode = true ∧
    ∃ feeds, Feed.table.lookup r.opcode = some feeds ∧ (Feed.inRow feeds).Fits r.data
  take_eq_some_iff bs r rest := by
    obtain ⟨op, data⟩ := r
    simp only [Option.bind_eq_bind, Option.bind_eq_some_iff, Prod.exists, Option.pure_def,
      Option.some.injEq, Prod.mk.injEq, Layout.take_eq_some_iff, put]
    constructor
    · rintro ⟨op, mid, ⟨hop, rfl⟩, feeds, hfeeds, data, rest, ⟨hdata, rfl⟩, ⟨⟨rfl, rfl⟩, rfl⟩⟩
      exact ⟨⟨hop, feeds, hfeeds, hdata⟩, by rw [List.append_assoc]⟩
    · rintro ⟨⟨hop, feeds, hfeeds, hdata⟩, rfl⟩
      exact ⟨op, _, ⟨hop, List.append_assoc ..⟩, feeds, hfeeds, data, rest, ⟨hdata, rfl⟩, rfl, rfl⟩

end Record

/-- The instructions that fill a buffer. -/
def readBlock (bs : Bytes) : Option (List Record) := Record.layout.readAll bs

theorem readBlock_eq_some_iff {bs : Bytes} {rs : List Record} :
    readBlock bs = some rs ↔ (∀ r ∈ rs, Record.layout.Fits r) ∧ bs = rs.flatMap Record.put :=
  Record.layout.readAll_eq_some_iff Record.put_ne_nil

def Operand.number (o : Operand) : Int := o.toInt?.getD 0

namespace Instr

/-- An instruction as a reader is to see it. -/
def record : Instr → Record
  | binary op left right r => ⟨op.opcode, [.value left.number, .value right.number, .assigned r]⟩
  | unary op value r => ⟨op.opcode, [.value value.number, .assigned r]⟩
  | store value address r => ⟨100, [.value value.number, .value address.number, .assigned r]⟩
  | load address r => ⟨101, [.value address.number, .assigned r]⟩
  | branch target => ⟨150, [.block target]⟩
  | condBranch condition yes no => ⟨151, [.value condition.number, .block yes, .block no]⟩
  | member base first second r =>
    ⟨152, [.value base.number, .value first.number, .value second.number, .assigned r]⟩
  | element type base indices r =>
    ⟨153, [.type type.shape, .value base.number, .values (indices.map Operand.number), .assigned r]⟩
  | call func args r => ⟨170, [.word func, .values (args.map Operand.number), .assigned r]⟩
  | callPtr ptr convention args r =>
    ⟨171, [.value ptr.number, .word convention.number, .values (args.map Operand.number), .assigned r]⟩
  | int64 n r => ⟨1000, [.long n.number, .assigned r]⟩
  | smallInt sort n r => ⟨sort.opcode, [.word n.number, .assigned r]⟩
  | float32 x r => ⟨1004, [.word (intOfBytes ((x.map (·.singleBytes)).getD [])), .assigned r]⟩
  | float64 x r => ⟨1005, [.long (intOfBytes ((x.map (·.bytes)).getD [])), .assigned r]⟩
  | null type r => ⟨1006, [.type type.shape, .assigned r]⟩
  | cast sort value type r => ⟨sort.opcode, [.value value.number, .type type.shape, .assigned r]⟩
  | alloca type r => ⟨1050, [.type type.shape, .assigned r]⟩
  | ret value => ⟨2000, [.value value.number]⟩
  | retVoid => ⟨2001, []⟩
  | retNull => ⟨2002, []⟩
  | globalVar id r => ⟨3000, [.word id, .assigned r]⟩
  | globalText s r => ⟨3001, [.text (nameBytes (s.getD "")), .assigned r]⟩
  | funcPtr id r => ⟨3002, [.word id, .assigned r]⟩
  | phi type values blocks r =>
    ⟨9997, [.type type.shape, .values (values.map Operand.number), .blocks (blocks.map Nat.cast), .assigned r]⟩
  | sizeOf type r => ⟨9998, [.type type.shape, .assigned r]⟩
  | sizeOfElement type r => ⟨9999, [.type type.shape, .assigned r]⟩
  | printType value => ⟨10000, [.value value.number]⟩
  | debugOp => ⟨10001, []⟩
  | debugOp2 => ⟨10002, []⟩

/-- The text of an instruction that has one. -/
def text? : Instr → Option String
  | globalText s _ => s
  | _ => none

end Instr

namespace Feed

open Field

/-- What is written as these fields is read as this datum. -/
class Feeds (f : outParam Feed) (fields : List Field) (d : Datum) : Prop where
  reads : ∀ bs, Writes fields bs → f.layout.Fits d ∧ bs = d.put

/-- What is written as these fields is read as this row of data. -/
class FeedsRow (feeds : outParam (List Feed)) (fields : List Field) (ds : List Datum) : Prop where
  reads : ∀ bs, Writes fields bs → (inRow feeds).Fits ds ∧ bs = ds.flatMap Datum.put

section Rows

variable {f : Feed} {feeds : List Feed} {fs gs : List Field} {d : Datum} {ds : List Datum}

instance : FeedsRow [] [] [] := ⟨fun _ h => ⟨rfl, writes_nil_iff.1 h⟩⟩

instance [hf : Feeds f fs d] [hfeeds : FeedsRow feeds gs ds] : FeedsRow (f :: feeds) (fs ++ gs) (d :: ds) := by
  refine ⟨fun bs h => ?_⟩
  obtain ⟨xs, ys, hxs, hys, rfl⟩ := writes_append_iff.1 h
  obtain ⟨hd, rfl⟩ := hf.reads xs hxs
  obtain ⟨hds, rfl⟩ := hfeeds.reads ys hys
  exact ⟨⟨(d, ds), ⟨hd, hds⟩, rfl⟩, rfl⟩

instance (x : Field) [Feeds f [x] d] [FeedsRow feeds gs ds] : FeedsRow (f :: feeds) (x :: gs) (d :: ds) :=
  inferInstanceAs (FeedsRow (f :: feeds) ([x] ++ gs) (d :: ds))

instance (x : Field) [Feeds f (x :: fs) d] [FeedsRow feeds gs ds] : FeedsRow (f :: feeds) (x :: (fs ++ gs)) (d :: ds) :=
  inferInstanceAs (FeedsRow (f :: feeds) ((x :: fs) ++ gs) (d :: ds))

end Rows

variable {bs : Bytes} {o : Operand}

theorem writes_singleton_iff {f : Field} : Writes [f] bs ↔ f.bytes = .ok bs := by
  simp [writes_cons_iff, writes_nil_iff]

theorem integer_eq_ok {width : Nat} (h : integer width o = .ok bs) :
    fitsSigned width o.number = true ∧ bs = signedBytes width o.number := by
  rw [integer] at h
  rw [Operand.number]
  cases ho : o.toInt? with
  | none =>
    rw [ho] at h
    cases h
  | some n =>
    rw [ho] at h
    dsimp only at h
    split at h
    next hn =>
      cases h
      exact ⟨hn, rfl⟩
    next => cases h

instance : Feeds value [.word o] (.value o.number) := ⟨fun _ h =>
  have ⟨hfits, hbs⟩ := integer_eq_ok (writes_singleton_iff.1 h)
  ⟨⟨_, hfits, rfl⟩, hbs⟩⟩

instance : Feeds word [.word o] (.word o.number) := ⟨fun _ h =>
  have ⟨hfits, hbs⟩ := integer_eq_ok (writes_singleton_iff.1 h)
  ⟨⟨_, hfits, rfl⟩, hbs⟩⟩

instance (n : Int) : Feeds word [.word (.id n)] (.word n) := inferInstanceAs (Feeds word _ (.word (Operand.id n).number))

instance (n : Nat) : Feeds assigned [.count n] (.assigned n) := ⟨fun _ h =>
  have ⟨hfits, hbs⟩ := bytes_word_eq_ok_iff.1 (writes_singleton_iff.1 h)
  ⟨⟨_, hfits, rfl⟩, hbs⟩⟩

instance (n : Nat) : Feeds block [.count n] (.block n) := ⟨fun _ h =>
  have ⟨hfits, hbs⟩ := bytes_word_eq_ok_iff.1 (writes_singleton_iff.1 h)
  ⟨⟨_, hfits, rfl⟩, hbs⟩⟩

instance : Feeds long [.long o] (.long o.number) := ⟨fun _ h =>
  have ⟨hfits, hbs⟩ := integer_eq_ok (writes_singleton_iff.1 h)
  ⟨⟨_, hfits, rfl⟩, hbs⟩⟩

instance (t : MachineType) : Feeds type t.fields (.type t.shape) := ⟨fun _ h =>
  have ⟨hfits, hbs⟩ := t.writes_fields h
  ⟨⟨_, hfits, rfl⟩, hbs⟩⟩

theorem reads_bytes {n : Nat} (h : bs.length = n) :
    (Layout.signed n).Fits (intOfBytes bs) ∧ bs = signedBytes n (intOfBytes bs) := by
  subst h
  exact ⟨fitsSigned_intOfBytes bs, (signedBytes_intOfBytes bs).symm⟩

instance (x : Option Binary64) : Feeds word [.single x] (.word (intOfBytes ((x.map (·.singleBytes)).getD []))) := by
  refine ⟨fun bs h => ?_⟩
  rw [writes_singleton_iff] at h
  cases x with
  | none => cases h
  | some x =>
    cases h
    obtain ⟨hfits, hbs⟩ := reads_bytes (show x.singleBytes.length = 4 from length_littleEndian ..)
    exact ⟨⟨_, hfits, rfl⟩, hbs⟩

instance (x : Option Binary64) : Feeds long [.double x] (.long (intOfBytes ((x.map (·.bytes)).getD []))) := by
  refine ⟨fun bs h => ?_⟩
  rw [writes_singleton_iff] at h
  cases x with
  | none => cases h
  | some x =>
    cases h
    obtain ⟨hfits, hbs⟩ := reads_bytes (show x.bytes.length = 8 from length_littleEndian ..)
    exact ⟨⟨_, hfits, rfl⟩, hbs⟩

theorem writes_counted {γ : Type} {field : γ → Field} {number : γ → Int} {xs : List γ}
    (hfield : ∀ x bs, (field x).bytes = .ok bs → fitsSigned 4 (number x) = true ∧ bs = signedBytes 4 (number x))
    (h : Writes (.count xs.length :: xs.map field) bs) : (Layout.signed 4).counted.Fits (xs.map number) ∧
      bs = Layout.putCounted (signedBytes 4) (xs.map number) := by
  obtain ⟨_, _, hcount, hrest, rfl⟩ := writes_cons_iff.1 h
  obtain ⟨hlen, rfl⟩ := bytes_word_eq_ok_iff.1 hcount
  rw [List.map_eq_flatMap] at hrest
  obtain ⟨hfits, rfl⟩ := writes_flatMap (fun x _ bs h => hfield x bs (writes_singleton_iff.1 h)) hrest
  refine ⟨⟨by rw [List.length_map]; exact hlen, List.forall_mem_map.2 hfits⟩, ?_⟩
  rw [Layout.putCounted, List.length_map, List.flatMap_map]

instance (os : List Operand) : Feeds values (.count os.length :: os.map .word) (.values (os.map Operand.number)) :=
  ⟨fun _ h =>
    have ⟨hfits, hbs⟩ := writes_counted (fun o _ (h : (Field.word o).bytes = _) => integer_eq_ok h) h
    ⟨⟨_, hfits, rfl⟩, hbs⟩⟩

instance (ns : List Nat) : Feeds blocks (.count ns.length :: ns.map .count) (.blocks (ns.map Nat.cast)) := ⟨fun _ h =>
  have ⟨hfits, hbs⟩ := writes_counted (fun _ _ h => bytes_word_eq_ok_iff.1 h) h
  ⟨⟨_, hfits, rfl⟩, hbs⟩⟩

end Feed

namespace Instr

open Field Feed

theorem reads_of_row {op : Nat} {feeds : List Feed} {fs : List Field} {ds : List Datum}
    [hrow : FeedsRow feeds fs ds] (hop : Feed.table.lookup (op : Int) = some feeds) {bs : Bytes}
    (h : Writes (.count op :: fs) bs) : Record.layout.Fits ⟨op, ds⟩ ∧ bs = Record.put ⟨op, ds⟩ := by
  obtain ⟨_, rest, hcount, hrest, rfl⟩ := writes_cons_iff.1 h
  obtain ⟨hfits, rfl⟩ := bytes_word_eq_ok_iff.1 hcount
  obtain ⟨hds, rfl⟩ := hrow.reads rest hrest
  exact ⟨⟨hfits, feeds, hop, hds⟩, rfl⟩

/-- An instruction without a text is read as it was written. -/
theorem writes_record (i : Instr) (hi : i.text? = none) {bs : Bytes} (h : Writes i.fields bs) :
    Record.layout.Fits i.record ∧ bs = i.record.put := by
  cases i <;> simp only [fields, List.cons_append, List.append_assoc] at h
  case binary op _ _ _ => exact reads_of_row (by cases op <;> decide) h
  case unary op _ _ => exact reads_of_row (by cases op <;> decide) h
  case smallInt sort _ _ => exact reads_of_row (by cases sort <;> decide) h
  case cast sort _ _ _ => exact reads_of_row (by cases sort <;> decide) h
  case globalText s r =>
    obtain rfl : s = none := hi
    obtain ⟨_, _, -, hrest, -⟩ := writes_cons_iff.1 h
    obtain ⟨_, _, hrefused, -⟩ := writes_cons_iff.1 hrest
    cases hrefused
  all_goals exact reads_of_row (by decide) h

theorem writes_globalText {s : String} {r : Nat} {bs : Bytes} (h : Writes (globalText (some s) r).fields bs) :
    fitsSigned 4 s.length = true ∧ fitsSigned 4 r = true ∧
      bs = signedBytes 4 (3001 : Nat) ++ (Field.textBytes s ++ signedBytes 4 r) := by
  obtain ⟨_, _, hcount, hafter, rfl⟩ := writes_cons_iff.1 h
  obtain ⟨_, _, htext, hnumber, rfl⟩ := writes_cons_iff.1 hafter
  obtain ⟨hlen, rfl⟩ := bytes_text_eq_ok_iff.1 htext
  obtain ⟨-, rfl⟩ := bytes_word_eq_ok_iff.1 hcount
  rw [writes_singleton_iff] at hnumber
  obtain ⟨hr, rfl⟩ := bytes_word_eq_ok_iff.1 hnumber
  exact ⟨hlen, hr, rfl⟩

theorem put_globalText (s : String) (r : Nat) : (globalText (some s) r).record.put =
    signedBytes 4 (3001 : Nat) ++ (Layout.putBlob (nameBytes s) ++ signedBytes 4 r) := by
  simp [record, Record.put, Datum.put]

/-- The instruction has no text that is longer in bytes than in characters. -/
def IsPlain (i : Instr) : Prop := ∀ s, i.text? = some s → IsPlainName s

instance : DecidablePred IsPlain := fun i =>
  match h : i.text? with
  | none => .isTrue (by simp [IsPlain, h])
  | some s => decidable_of_iff (IsPlainName s) (by simp [IsPlain, h])

/-- An instruction is read as it was written unless it has a text that is longer in bytes than in
characters; in any case it is as long as what would be read. -/
theorem bytes_record {i : Instr} (hi : (i.write false).2 = none) : i.bytes.length = i.record.put.length ∧
      (Record.layout.Fits i.record ∧ i.bytes = i.record.put ↔ i.IsPlain) := by
  have hwrites : Writes i.fields i.bytes := Prod.ext rfl hi
  cases htext : i.text? with
  | none =>
    have hrecord := i.writes_record htext hwrites
    exact ⟨congrArg _ hrecord.2, iff_of_true hrecord (by simp [IsPlain, htext])⟩
  | some s =>
    obtain ⟨r, rfl⟩ : ∃ r, i = globalText (some s) r := by
      cases i <;> simp_all [text?]
    obtain ⟨hlen, hr, hbytes⟩ := writes_globalText hwrites
    rw [hbytes, put_globalText]
    refine ⟨by simp [length_textBytes], ⟨fun ⟨hfits, heq⟩ => ?_, fun hplain => ?_⟩⟩
    · obtain ⟨-, feeds, hfeeds, hrow⟩ := hfits
      cases hfeeds
      obtain ⟨⟨_, _⟩, ⟨⟨bs, hblob, rfl⟩, -⟩, hdata⟩ := hrow
      cases hdata
      have htexts := List.append_inj (List.append_cancel_left heq) (length_textBytes s)
      rintro _ ⟨⟩
      exact isPlainName_of_textBytes_eq hlen ((Layout.blob_fits_iff _).1 hblob) htexts.1
    · have hs : IsPlainName s := hplain s rfl
      have hop : fitsSigned 4 3001 = true := by decide
      refine ⟨⟨hop, [.text, .assigned], rfl, (_, _), ⟨⟨_, ?_, rfl⟩, ?_⟩, rfl⟩, ?_⟩
      · rw [Layout.blob_fits_iff, Option.getD_some, length_nameBytes, hs]
        exact hlen
      · exact ⟨(_, _), ⟨⟨_, hr, rfl⟩, rfl⟩, rfl⟩
      · rw [textBytes_eq_putBlob hs]

end Instr

end Lowering
