import Lowering.MachineType
import Mathlib.Logic.Equiv.Defs

/-!
Layouts of data in a buffer of bytes. A layout puts a value, takes it back off the front of a buffer,
and carries the law that it takes exactly what was put.
-/
namespace Lowering

theorem littleEndian_natOfBytes (bs : Bytes) : littleEndian bs.length (natOfBytes bs) = bs := by
  induction bs with
  | nil => rfl
  | cons b rest ih =>
    have hb : b.toNat < 256 := b.toNat_lt
    have hlow : UInt8.ofNat (b.toNat + 256 * natOfBytes rest) = b := by
      apply UInt8.toNat.inj
      rw [UInt8.toNat_ofNat']
      omega
    have hhigh : (b.toNat + 256 * natOfBytes rest) / 256 = natOfBytes rest := by omega
    simp only [List.length_cons, littleEndian, natOfBytes, hlow, hhigh, ih]

theorem natOfBytes_lt (bs : Bytes) : natOfBytes bs < byteRange bs.length := by
  induction bs with
  | nil => decide
  | cons b rest ih =>
    have hb : b.toNat < 256 := b.toNat_lt
    simp only [natOfBytes, List.length_cons, byteRange]
    omega

theorem intOfBytes_signedBytes {width : Nat} {n : Int} (h : fitsSigned width n = true) :
    intOfBytes (signedBytes width n) = n := by
  simp only [fitsSigned, Bool.and_eq_true, decide_eq_true_eq] at h
  have hpos : 0 ≤ n % byteRange width := Int.emod_nonneg _ (by omega)
  have hlt : n % byteRange width < byteRange width := Int.emod_lt_of_pos _ (by omega)
  have hnat : (n % byteRange width).toNat < byteRange width := by omega
  simp only [intOfBytes, signedBytes, natOfBytes_littleEndian _ _ hnat, length_littleEndian]
  by_cases hn : n < 0
  · have hmod : n % byteRange width = n + byteRange width := by
      rw [← Int.add_emod_right, Int.emod_eq_of_lt (by omega) (by omega)]
    omega
  · have hmod : n % byteRange width = n := Int.emod_eq_of_lt (by omega) (by omega)
    omega

theorem signedBytes_intOfBytes (bs : Bytes) : signedBytes bs.length (intOfBytes bs) = bs := by
  have hlt := natOfBytes_lt bs
  have hmod : (intOfBytes bs % byteRange bs.length).toNat = natOfBytes bs := by
    unfold intOfBytes
    dsimp only
    split
    · rw [Int.emod_eq_of_lt (by omega) (by omega)]
      omega
    · rw [Int.sub_emod_right, Int.emod_eq_of_lt (by omega) (by omega)]
      omega
  rw [signedBytes, hmod, littleEndian_natOfBytes]

theorem fitsSigned_intOfBytes (bs : Bytes) : fitsSigned bs.length (intOfBytes bs) = true := by
  have hlt := natOfBytes_lt bs
  unfold intOfBytes
  simp only [fitsSigned, Bool.and_eq_true, decide_eq_true_eq]
  split <;> omega

theorem signedBytes_inj {width : Nat} {m n : Int} (hm : fitsSigned width m = true)
    (hn : fitsSigned width n = true) (h : signedBytes width m = signedBytes width n) : m = n := by
  rw [← intOfBytes_signedBytes hm, h, intOfBytes_signedBytes hn]

/-- A way to read back what `put` writes: it takes `a` off a buffer exactly if `a` fits and the buffer
starts with what is put for `a`. -/
structure Layout {α : Type} (put : α → Bytes) where
  take : Bytes → Option (α × Bytes)
  Fits : α → Prop
  take_eq_some_iff : ∀ bs a rest, take bs = some (a, rest) ↔ Fits a ∧ bs = put a ++ rest

namespace Layout

variable {α β : Type} {put : α → Bytes} {putB : β → Bytes}

theorem take_put (l : Layout put) (a : α) (h : l.Fits a) (rest : Bytes) : l.take (put a ++ rest) = some (a, rest) :=
  (l.take_eq_some_iff _ _ _).2 ⟨h, rfl⟩

/-- A two's-complement field. -/
def signed (width : Nat) : Layout (signedBytes width) where
  take := takeSigned width
  Fits n := fitsSigned width n = true
  take_eq_some_iff bs n rest := by
    unfold takeSigned
    constructor
    · intro h
      split at h
      next hle =>
        obtain ⟨rfl, rfl⟩ := h
        have hlen : (bs.take width).length = width := by simp [hle]
        have hfits := fitsSigned_intOfBytes (bs.take width)
        have hbytes := signedBytes_intOfBytes (bs.take width)
        rw [hlen] at hfits hbytes
        exact ⟨hfits, by rw [hbytes, List.take_append_drop]⟩
      next => cases h
    · rintro ⟨hfits, rfl⟩
      have hlen := length_signedBytes width n
      rw [if_pos (by simp), List.take_left' hlen, List.drop_left' hlen,
        intOfBytes_signedBytes hfits]

/-- One value after the other. -/
def pair (l : Layout put) (m : Layout putB) :
    Layout fun x : α × β => put x.1 ++ putB x.2 where
  take bs := do
    let (a, bs) ← l.take bs
    let (b, bs) ← m.take bs
    return ((a, b), bs)
  Fits x := l.Fits x.1 ∧ m.Fits x.2
  take_eq_some_iff bs x rest := by
    obtain ⟨a, b⟩ := x
    simp only [Option.bind_eq_bind, Option.bind_eq_some_iff, Prod.exists, Option.pure_def,
      Option.some.injEq, Prod.mk.injEq, l.take_eq_some_iff, m.take_eq_some_iff]
    constructor
    · rintro ⟨a, mid, ⟨ha, rfl⟩, b, rest, ⟨hb, rfl⟩, ⟨rfl, rfl⟩, rfl⟩
      exact ⟨⟨ha, hb⟩, by simp⟩
    · rintro ⟨⟨ha, hb⟩, rfl⟩
      exact ⟨a, putB b ++ rest, ⟨ha, by simp⟩, b, rest, ⟨hb, rfl⟩, ⟨rfl, rfl⟩, rfl⟩

/-- The same bytes under another name for the value. -/
def map (l : Layout put) (e : α ≃ β) : Layout fun b => put (e.symm b) where
  take bs := (l.take bs).map fun x => (e x.1, x.2)
  Fits b := l.Fits (e.symm b)
  take_eq_some_iff bs b rest := by
    simp only [Option.map_eq_some_iff, Prod.exists, Prod.mk.injEq, ← l.take_eq_some_iff]
    constructor
    · rintro ⟨a, bs, h, rfl, rfl⟩
      rwa [e.symm_apply_apply]
    · intro h
      exact ⟨e.symm b, rest, h, e.apply_symm_apply b, rfl⟩

/-- Takes `n` values in a row. -/
def takeMany (take : Bytes → Option (α × Bytes)) : Nat → Bytes → Option (List α × Bytes)
  | 0, bs => some ([], bs)
  | n + 1, bs => do
    let (a, bs) ← take bs
    let (more, bs) ← takeMany take n bs
    return (a :: more, bs)

theorem takeMany_eq_some_iff (l : Layout put) (n : Nat) (bs : Bytes) (xs : List α) (rest : Bytes) :
    takeMany l.take n bs = some (xs, rest) ↔ xs.length = n ∧ (∀ x ∈ xs, l.Fits x) ∧ bs = xs.flatMap put ++ rest := by
  induction n generalizing bs xs rest with
  | zero =>
    simp only [takeMany, Option.some.injEq, Prod.mk.injEq, List.length_eq_zero_iff]
    constructor
    · rintro ⟨rfl, rfl⟩
      simp
    · rintro ⟨rfl, -, rfl⟩
      simp
  | succ n ih =>
    simp only [takeMany, Option.bind_eq_bind, Option.bind_eq_some_iff, Prod.exists, Option.pure_def,
      Option.some.injEq, Prod.mk.injEq, l.take_eq_some_iff, ih]
    constructor
    · rintro ⟨a, mid, ⟨ha, rfl⟩, more, rest, ⟨rfl, hmore, rfl⟩, rfl, rfl⟩
      exact ⟨rfl, List.forall_mem_cons.2 ⟨ha, hmore⟩, by simp⟩
    · rintro ⟨hlen, hfits, rfl⟩
      obtain ⟨a, more, rfl⟩ := List.exists_cons_of_length_eq_add_one hlen
      rw [List.forall_mem_cons] at hfits
      exact ⟨a, more.flatMap put ++ rest, ⟨hfits.1, by simp⟩, more, rest,
        ⟨by simpa using hlen, hfits.2, rfl⟩, rfl, rfl⟩

/-- A word that holds how many, and then so many values. -/
def putCounted (put : α → Bytes) (xs : List α) : Bytes :=
  signedBytes 4 xs.length ++ xs.flatMap put

def counted (l : Layout put) : Layout (putCounted put) where
  take bs := do
    let (n, bs) ← (signed 4).take bs
    if n < 0 then none else takeMany l.take n.toNat bs
  Fits xs := fitsSigned 4 xs.length = true ∧ ∀ x ∈ xs, l.Fits x
  take_eq_some_iff bs xs rest := by
    simp only [Option.bind_eq_bind, Option.bind_eq_some_iff, Prod.exists, putCounted,
      (signed 4).take_eq_some_iff]
    constructor
    · rintro ⟨n, mid, ⟨hfits, rfl⟩, h⟩
      split at h
      next => cases h
      next hpos =>
        obtain ⟨hlen, hxs, rfl⟩ := (takeMany_eq_some_iff l _ _ _ _).1 h
        have hcount : (xs.length : Int) = n := by omega
        rw [hcount]
        exact ⟨⟨hfits, hxs⟩, by simp⟩
    · rintro ⟨⟨hlen, hxs⟩, rfl⟩
      refine ⟨xs.length, xs.flatMap put ++ rest, ⟨hlen, by simp⟩, ?_⟩
      rw [if_neg (by omega)]
      exact (takeMany_eq_some_iff l _ _ _ _).2 ⟨by simp, hxs, rfl⟩

theorem counted_fits_iff (l : Layout put) (xs : List α) :
    l.counted.Fits xs ↔ fitsSigned 4 xs.length = true ∧ ∀ x ∈ xs, l.Fits x :=
  Iff.rfl

def byte : Layout fun b : UInt8 => [b] where
  take
    | [] => none
    | b :: rest => some (b, rest)
  Fits _ := True
  take_eq_some_iff bs b rest := by
    cases bs <;> simp

/-- Bytes after their count. -/
def putBlob (bs : Bytes) : Bytes := putCounted (fun b => [b]) bs

def blob : Layout putBlob := byte.counted

theorem putBlob_eq (bs : Bytes) : putBlob bs = signedBytes 4 bs.length ++ bs := by
  simp [putBlob, putCounted]

theorem blob_fits_iff (bs : Bytes) : blob.Fits bs ↔ fitsSigned 4 bs.length = true := by
  simp [blob, counted, byte]

end Layout
end Lowering
