import TensorConcat.Device.Queue
import TensorConcat.Number.LittleEndian
import TensorConcat.Tensor.Basic

/-!
# Input descriptors

A launch is told of each input by a record of fixed size: where its first element
is, where it starts along the joined axis, its extent there, and how many elements
it has. `describeBatch` writes the records of one batch and says where the next
batch starts; a list of inputs gets the same records however it is cut.
-/

namespace TensorConcat

/-- A place in device memory. -/
structure Pointer where
  storage : Nat
  byte : Nat
deriving Repr, DecidableEq

/-- The record of one input. Its address is a place in memory for a launch, and a
plain word where records are looked at as bytes. -/
structure Descriptor (α : Type) where
  input : α
  offset : UInt32
  dimSize : UInt32
  elements : UInt32
deriving Repr, DecidableEq

namespace Descriptor

instance : Record (Descriptor Pointer) := ⟨⟨⟨0, 0⟩, 0, 0, 0⟩, 24⟩
instance : Record (Descriptor UInt64) := ⟨⟨0, 0, 0, 0⟩, 24⟩

/-- The bytes of a record: the address, the three words, and four bytes of padding. -/
def encode (d : Descriptor UInt64) : List UInt8 :=
  Number.LittleEndian.encode 8 d.input.toNat ++ Number.LittleEndian.encode 4 d.offset.toNat ++
    Number.LittleEndian.encode 4 d.dimSize.toNat ++ Number.LittleEndian.encode 4 d.elements.toNat ++
    [0, 0, 0, 0]

theorem length_encode (d : Descriptor UInt64) : d.encode.length = Record.size (Descriptor UInt64) := by
  simp [encode, Record.size]

end Descriptor

def Tensor.pointer (t : Tensor) : Pointer := ⟨t.storage, t.start⟩

def indexWord (n : Nat) : Except Failure UInt32 :=
  if n < 0x100000000 then .ok (UInt32.ofNat n) else .error (.backend (.execution (.index n)))

def nextOffset (offset dimSize : UInt32) : Except Failure UInt32 :=
  if offset.toNat + dimSize.toNat < 0x100000000 then .ok (offset + dimSize)
  else .error (.backend (.execution .offset))

/-- The records of a batch whose first input starts at `offset`, and the offset
after its last one. -/
def describeBatch (axis : Nat) (offset : UInt32) :
    List Tensor → Except Failure (List (Descriptor Pointer) × UInt32)
  | [] => .ok ([], offset)
  | t :: rest => do
    let dimSize ← indexWord (← t.axis axis).extent
    let elements ← indexWord t.numel
    let next ← nextOffset offset dimSize
    let (records, last) ← describeBatch axis next rest
    return (⟨t.pointer, offset, dimSize, elements⟩ :: records, last)

end TensorConcat
