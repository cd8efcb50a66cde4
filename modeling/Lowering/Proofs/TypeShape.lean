import Lowering.Proofs.Layout
import Mathlib.Data.List.Flatten

/-!
What a stream tells of a type, and how a reader takes it back: the layer of the type and, for
functions and arrays, the types inside, to any depth.
-/
namespace Lowering

inductive TypeShape
  | layer (kind pointers structId : Int)
  | function (pointers structId : Int) (result : TypeShape) (params : List TypeShape)
  | array (pointers structId : Int) (element : TypeShape) (size : Int)

namespace TypeShape

def functionKind : Int := Primitive.func.code
def arrayKind : Int := Primitive.array.code

def putLayer (kind pointers structId : Int) : Bytes :=
  signedBytes 4 kind ++ (signedBytes 4 pointers ++ signedBytes 4 structId)

mutual

def put : TypeShape → Bytes
  | layer kind pointers structId => putLayer kind pointers structId
  | function pointers structId result params =>
    putLayer functionKind pointers structId ++
      (result.put ++ (signedBytes 4 params.length ++ putAll params))
  | array pointers structId element size =>
    putLayer arrayKind pointers structId ++ (element.put ++ signedBytes 4 size)

def putAll : List TypeShape → Bytes
  | [] => []
  | t :: rest => t.put ++ putAll rest

end

theorem putAll_eq (ts : List TypeShape) : putAll ts = ts.flatMap put := by
  induction ts with
  | nil => rfl
  | cons t rest ih => simp [putAll, ih]

theorem put_function (pointers structId : Int) (result : TypeShape) (params : List TypeShape) :
    put (function pointers structId result params) =
      putLayer functionKind pointers structId ++ (result.put ++ Layout.putCounted put params) := by
  rw [put, putAll_eq, Layout.putCounted]

variable {t : TypeShape} {pointers structId : Int}

theorem length_put_le_of_mem {ts : List TypeShape} (h : t ∈ ts) : (put t).length ≤ (ts.flatMap put).length := by
  simpa using ((List.singleton_sublist.2 h).flatMap put).length_le

@[simp] theorem length_putLayer (kind pointers structId : Int) : (putLayer kind pointers structId).length = 12 := by
  simp [putLayer]

def words : Layout fun w : Int × Int × Int => putLayer w.1 w.2.1 w.2.2 :=
  (Layout.signed 4).pair ((Layout.signed 4).pair (Layout.signed 4))

/-- Takes the rest of a type whose layer has been read; `inner` reads the types inside. -/
def takeInside (inner : Layout put) (kind pointers structId : Int) (bs : Bytes) :
    Option (TypeShape × Bytes) :=
  if kind = functionKind then do
    let ((result, params), bs) ← (inner.pair inner.counted).take bs
    return (function pointers structId result params, bs)
  else if kind = arrayKind then do
    let ((element, size), bs) ← (inner.pair (.signed 4)).take bs
    return (array pointers structId element size, bs)
  else some (layer kind pointers structId, bs)

/-- Which types can be read where `inner` reads the types inside. -/
def FitsOver (inner : Layout put) : TypeShape → Prop
  | layer kind pointers structId =>
    words.Fits (kind, pointers, structId) ∧ kind ≠ functionKind ∧ kind ≠ arrayKind
  | function pointers structId result params =>
    words.Fits (functionKind, pointers, structId) ∧ inner.Fits result ∧ inner.counted.Fits params
  | array pointers structId element size =>
    words.Fits (arrayKind, pointers, structId) ∧ inner.Fits element ∧ (Layout.signed 4).Fits size

theorem takeInside_sound {inner : Layout put} {kind : Int} {bs rest : Bytes}
    (hw : words.Fits (kind, pointers, structId)) (h : takeInside inner kind pointers structId bs = some (t, rest)) :
    FitsOver inner t ∧ putLayer kind pointers structId ++ bs = put t ++ rest := by
  unfold takeInside at h
  split at h
  next hk =>
    subst hk
    simp only [Option.bind_eq_bind, Option.bind_eq_some_iff, Prod.exists, Option.pure_def,
      Option.some.injEq, Prod.mk.injEq, Layout.take_eq_some_iff] at h
    obtain ⟨result, params, mid, ⟨⟨hr, hp⟩, rfl⟩, rfl, rfl⟩ := h
    exact ⟨⟨hw, hr, hp⟩, by simp [put_function]⟩
  next hf =>
    split at h
    next hk =>
      subst hk
      simp only [Option.bind_eq_bind, Option.bind_eq_some_iff, Prod.exists, Option.pure_def,
        Option.some.injEq, Prod.mk.injEq, Layout.take_eq_some_iff] at h
      obtain ⟨element, size, mid, ⟨⟨he, hs⟩, rfl⟩, rfl, rfl⟩ := h
      exact ⟨⟨hw, he, hs⟩, by simp [put]⟩
    next ha =>
      obtain ⟨rfl, rfl⟩ := h
      exact ⟨⟨hw, hf, ha⟩, by simp [put]⟩

theorem takeInside_complete {inner : Layout put} (h : FitsOver inner t)
    (rest : Bytes) : ∃ kind pointers structId inside, (words.Fits (kind, pointers, structId) ∧
        put t ++ rest = putLayer kind pointers structId ++ inside) ∧
      takeInside inner kind pointers structId inside = some (t, rest) := by
  cases t with
  | layer kind pointers structId =>
    obtain ⟨hw, hf, ha⟩ := h
    exact ⟨kind, pointers, structId, rest, ⟨hw, by rw [put]⟩,
      by rw [takeInside, if_neg hf, if_neg ha]⟩
  | function pointers structId result params =>
    obtain ⟨hw, hr, hp⟩ := h
    have hin : (inner.pair inner.counted).take
        (put result ++ Layout.putCounted put params ++ rest) = some ((result, params), rest) :=
      (inner.pair inner.counted).take_put (result, params) ⟨hr, hp⟩ rest
    exact ⟨functionKind, pointers, structId, _, ⟨hw, by rw [put_function, List.append_assoc]⟩,
      by rw [takeInside, if_pos rfl, hin]; rfl⟩
  | array pointers structId element size =>
    obtain ⟨hw, he, hs⟩ := h
    have hin : (inner.pair (.signed 4)).take (put element ++ signedBytes 4 size ++ rest) =
        some ((element, size), rest) :=
      (inner.pair (.signed 4)).take_put (element, size) ⟨he, hs⟩ rest
    exact ⟨arrayKind, pointers, structId, _, ⟨hw, by rw [put, List.append_assoc]⟩,
      by rw [takeInside, if_neg (by decide), if_pos rfl, hin]; rfl⟩

/-- Reads types of at most so many layers. -/
def within : Nat → Layout put
  | 0 =>
    { take := fun _ => none
      Fits := fun _ => False
      take_eq_some_iff := by simp }
  | n + 1 =>
    { take := fun bs => do
        let ((kind, pointers, structId), bs) ← words.take bs
        takeInside (within n) kind pointers structId bs
      Fits := FitsOver (within n)
      take_eq_some_iff := by
        intro bs t rest
        simp only [Option.bind_eq_bind, Option.bind_eq_some_iff, Prod.exists,
          Layout.take_eq_some_iff]
        constructor
        · rintro ⟨kind, pointers, structId, inside, ⟨hw, rfl⟩, h⟩
          exact takeInside_sound hw h
        · rintro ⟨h, rfl⟩
          exact takeInside_complete h rest }

theorem within_fits {n m : Nat} (h : (within n).Fits t) (hm : (put t).length ≤ m) : (within m).Fits t := by
  induction n generalizing m t with
  | zero => exact h.elim
  | succ n ih =>
    cases m with
    | zero => cases t <;> simp [put] at hm
    | succ m =>
      cases t with
      | layer => exact h
      | function pointers structId result params =>
        obtain ⟨hw, hr, hlen, hp⟩ := h
        simp only [put_function, List.length_append, length_putLayer, Layout.putCounted,
          length_signedBytes] at hm
        refine ⟨hw, ih hr (by omega), hlen, fun t ht => ih (hp t ht) ?_⟩
        have hle := length_put_le_of_mem ht
        omega
      | array pointers structId element size =>
        obtain ⟨hw, he, hs⟩ := h
        simp only [put, List.length_append, length_putLayer] at hm
        exact ⟨hw, ih he (by omega), hs⟩

/-- Types of any depth. -/
def layout : Layout put where
  take bs := (within bs.length).take bs
  Fits t := ∃ n, (within n).Fits t
  take_eq_some_iff bs t rest := by
    rw [Layout.take_eq_some_iff]
    constructor
    · rintro ⟨h, hbs⟩
      exact ⟨⟨_, h⟩, hbs⟩
    · rintro ⟨⟨n, h⟩, rfl⟩
      exact ⟨within_fits h (by simp), rfl⟩

theorem layout_fits_layer {kind : Int} (hw : words.Fits (kind, pointers, structId))
    (hf : kind ≠ functionKind) (ha : kind ≠ arrayKind) : layout.Fits (layer kind pointers structId) :=
  ⟨1, hw, hf, ha⟩

theorem layout_fits_function {result : TypeShape}
    {params : List TypeShape} (hw : words.Fits (functionKind, pointers, structId))
    (hr : layout.Fits result) (hp : layout.counted.Fits params) :
    layout.Fits (function pointers structId result params) := by
  obtain ⟨nr, hr⟩ := hr
  obtain ⟨hlen, hp⟩ := hp
  refine ⟨(put result).length + (params.flatMap put).length + 1, hw,
    within_fits hr (by omega), hlen, fun t ht => ?_⟩
  obtain ⟨nt, hfits⟩ := hp t ht
  have hle := length_put_le_of_mem ht
  exact within_fits hfits (by omega)

theorem layout_fits_array {element : TypeShape} {size : Int}
    (hw : words.Fits (arrayKind, pointers, structId)) (he : layout.Fits element)
    (hs : (Layout.signed 4).Fits size) : layout.Fits (array pointers structId element size) := by
  obtain ⟨n, he⟩ := he
  exact ⟨n + 1, hw, he, hs⟩

end TypeShape
end Lowering
