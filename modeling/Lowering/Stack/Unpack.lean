import Lowering.Stack.Frame

/-!
Unpacking of a value into several operands, the first of which ends on top.
-/
namespace Lowering.Stack

open Emit

/-- The first items of an iterator, each taken in a block of its own. -/
def firstItems (iterator : Term) (count : Nat) (isAll : Bool) (rest : BlockRef) :
    Emit (List Term) :=
  if count = 0 then return []
  else do
    let mut items : Array Term := #[]
    let mut test ← createBlock (some "Test Next")
    for i in List.range count do
      branch test
      setBlock test
      items := items.push (← callMethod "__next__" iterator.value iterator.type .empty .empty)
      if i + 1 ≠ count then
        test ← createBlock (some "Test Next")
        branch test
      else if isAll then branch rest
    return items.toList

/-- A list of the items that an iterator still has, without the last ones, and these. With `-1` for
their number the iterator is left alone. -/
def lastItems (iterator : Term) (after : Operand) (rest : BlockRef) : Emit (List Term) :=
  if after == .id (-1) then return []
  else do
    let found ← createBlock (some "Args After")
    let list ← restToList found iterator
    setBlock found
    let length ← listLength list.value
    let middle ← listWithoutLast after list length
    let mut items : Array Term := #[middle]
    let count := after.toInt?.getD 0
    for k in List.range count.toNat do
      items := items.push (← itemFromEnd list length (count - k))
    branch rest
    return items.toList

/-- Takes items from an iterator: the first ones, and unless `after` is `-1` a list of those in the
middle and the last ones. -/
def unpackIterable (value : Term) (before : Int) (after : Operand) : Emit Unit := do
  let rest ← createBlock (some "After Unpack")
  let iterator ← callMethod "__iter__" value.value value.type .empty .empty
  let first ← firstItems iterator before.toNat (after == .id (-1)) rest
  let last ← lastItems iterator after rest
  setBlock rest
  for item in (first ++ last).reverse do
    push item

def unpackSized (value : Term) (op : Opcode) : Emit Unit := do
  let unpack ← createBlock (some "Unpack")
  let rest ← createBlock (some "After Unpack")
  let t ← known value.type
  if t.isTuple then discard (tupleLength value.value)
  else if t.isList then discard (listLength value.value)
  setBlock unpack
  let count ← argument op
  for i in (List.range count.toNat).reverse do
    let index ← int64 i
    let indexType := ValueType.integer.addHint (.constant .integer (.int i))
    let item ← callMethod "__getitem__" value.value value.type [index] [some indexType]
    let t ← known item.type
    unless t.isIncremented do retain item.type item.value
    push item
  branch rest
  setBlock rest

end Lowering.Stack
