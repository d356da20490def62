import TensorConcat.Tensor.Aliasing
import TensorConcat.Tensor.Resize

/-!
# Sizes in machine words

Extents, strides, offsets and counts of bytes are natural numbers in this library. A machine keeps
them in words, and in a build that does not check its sums and products a word loses what it cannot
hold. Here is what such a build computes where the library computes exactly, step by step as it
does. The two agree as long as the exact results are words, which is asked for wherever it matters.
-/

namespace TensorConcat

/-- What a word keeps of a number. -/
def wrap (n : Nat) : Nat := n % (wordMax + 1)

/-- The product of the extents, taken from the first one on. -/
def volumeInWords (dims : List Nat) : Nat := dims.foldl (fun n d => wrap (n * d)) 1

def sumInWords (ns : List Nat) : Nat := ns.foldl (fun total n => wrap (total + n)) 0

def tilesInWords (block : Nat) : List Axis → Bool
  | [] => true
  | a :: outer => a.stride == block && tilesInWords (wrap (block * a.extent)) outer

def Axis.reachInWords (axes : List Axis) : Nat :=
  sumInWords (axes.map fun a => wrap ((a.extent - 1) * a.stride))

namespace Tensor

def numelInWords (t : Tensor) : Nat := volumeInWords t.dims

def startInWords (t : Tensor) : Nat := wrap (t.offset * t.elementSize)

def isDenseInWords (t : Tensor) : Bool := t.numelInWords == 0 || tilesInWords 1 t.steppingAxes

def maxOffsetInWords (t : Tensor) : Nat :=
  if t.numelInWords = 0 then 0 else Axis.reachInWords t.axes

def byteRangeInWords (t : Tensor) : Nat × Nat :=
  if t.numelInWords = 0 then (t.startInWords, t.startInWords)
  else
    (t.startInWords,
      wrap (t.startInWords + wrap (wrap (t.maxOffsetInWords + 1) * t.elementSize)))

def internalOverlapInWords (t : Tensor) : InternalOverlap :=
  if t.isDenseInWords then .no
  else if t.axes.any fun a => 1 < a.extent && a.stride == 0 then .yes
  else .tooHard

def overlapInWords (a b : Tensor) : Overlap :=
  if a.numelInWords = 0 ∨ b.numelInWords = 0 then .no
  else if !a.isDenseInWords || !b.isDenseInWords then .tooHard
  else if a.storage ≠ b.storage then .no
  else if a.byteRangeInWords = b.byteRangeInWords then .full
  else if a.byteRangeInWords.1 < b.byteRangeInWords.2 ∧
      b.byteRangeInWords.1 < a.byteRangeInWords.2 then .partially
  else .no

/-- Bytes of storage for a shape, as resizing asks for them. -/
def bytesForInWords (t : Tensor) (dims : List Nat) : Nat :=
  wrap (wrap (t.offset + volumeInWords dims) * t.elementSize)

def narrowInWords (t : Tensor) (axis start length : Nat) : Except ViewError Tensor :=
  match t.axes[axis]? with
  | none => .error (.narrowAxis axis t.rank)
  | some a =>
    let stop := wrap (start + length)
    if a.extent < stop then .error (.narrowRange start stop a.extent axis)
    else
      .ok { t with
        offset := if length = 0 then t.offset else wrap (t.offset + wrap (start * a.stride))
        axes := t.axes.set axis { a with extent := length } }

end Tensor

end TensorConcat
