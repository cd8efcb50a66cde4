import Lowering.Emit.Method

/-!
Pieces of the unpacking of an iterable into several places.
-/
namespace Lowering.Emit

def restToList (after : BlockRef) (iterator : Term) : Emit Term := do
  let more ← createBlock (some "Unpack rest of iterator")
  let append ← createBlock (some "Append List")
  let zero ← int64 0
  let list ← newList zero
  branch more
  setBlock more
  let next ← callMethod "__next__" iterator.value iterator.type .empty .empty
  let nothing ← null (← objectPtr)
  let isNull ← eq next.value nothing
  condBranch isNull after append
  setBlock append
  let item ← box next.value next.type
  listAppend list item.type item.value
  branch more
  return ⟨some .python, list⟩

def listWithoutLast (count : Operand) (list : Term) (length : Operand) : Emit Term := do
  let size ← sub length (← assign (.int64 count))
  let lower ← box (← int64 0) (some .integer)
  let upper ← box size (some .integer)
  let step ← box (← int64 1) (some .integer)
  let slice ← newSlice lower.value upper.value step.value
  callMethod "__getitem__" list.value list.type [slice] [some ValueType.python]

def itemFromEnd (list : Term) (length : Operand) (back : Int) : Emit Term := do
  let back ← int64 back
  let index ← sub length back
  callMethod "__getitem__" list.value list.type [index] [some ValueType.integer]

end Lowering.Emit
