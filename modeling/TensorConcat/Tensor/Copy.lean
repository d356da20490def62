import TensorConcat.Layout.Odometer
import TensorConcat.Scalar
import TensorConcat.Tensor.View

/-!
# Copying between views

A copy writes every element of one view over the element at the same coordinate
of another, converting it where the types differ. Two row-major views of one type
are moved as a block, read whole before anything is written; all others go
element by element in row-major order, each element being read when its turn
comes. `toBytes` reads a view out in row-major order and `fill` is its inverse.
-/

namespace TensorConcat.Tensor

variable [FloatCasts]

def loadElement (t : Tensor) (h : Heap) (position : Nat) : List UInt8 :=
  h.load t.storage ((t.offset + position) * t.elementSize) t.elementSize

def storeElement (t : Tensor) (position : Nat) (bytes : List UInt8) (h : Heap) : Heap :=
  h.store t.storage ((t.offset + position) * t.elementSize) bytes

/-- The bytes of each element, in row-major order. -/
def elements (t : Tensor) (h : Heap) : List (List UInt8) :=
  (Odometer.walk t.dims t.strides t.strides
    (fun position _ read => read.push (t.loadElement h position)) #[]).toList

/-- All bytes of the elements, in row-major order. -/
def toBytes (t : Tensor) (h : Heap) : List UInt8 :=
  if t.isContiguous then h.load t.storage t.start (t.numel * t.elementSize)
  else (t.elements h).flatten

/-- The elements converted to another type, in row-major order. -/
def bytesAs (t : Tensor) (dtype : DType) (h : Heap) : List UInt8 :=
  (t.elements h).flatMap (convertElement t.dtype dtype)

def copyElements (target source : Tensor) (h : Heap) : Heap :=
  Odometer.walk target.dims target.strides source.strides
    (fun left right h =>
      target.storeElement left
        (convertElement source.dtype target.dtype (source.loadElement h right)) h) h

def copyBlock (target source : Tensor) (h : Heap) : Heap :=
  h.store target.storage target.start
    (h.load source.storage source.start (target.numel * target.elementSize))

/-- The copy of views that are known to have the same extents. -/
def copyMatching (target source : Tensor) (h : Heap) : Heap :=
  if target.numel = 0 then h
  else if target.dtype = source.dtype && target.isContiguous && source.isContiguous then
    copyBlock target source h
  else copyElements target source h

def checkCopy (target source : Tensor) : Except ViewError Unit :=
  if target.dims ≠ source.dims then .error (.copyShape target.dims source.dims) else .ok ()

def copy (target source : Tensor) (h : Heap) : Except ViewError Heap := do
  target.checkCopy source
  return copyMatching target source h

/-- Writes row-major bytes over the elements of the view. -/
def fill (t : Tensor) (bytes : Array UInt8) (h : Heap) : Heap :=
  Odometer.walk t.dims t.strides (MemoryFormat.contiguous.strides t.dims)
    (fun position index h =>
      t.storeElement position
        (bytes.extract (index * t.elementSize) ((index + 1) * t.elementSize)).toList h) h

/-- The same values laid out densely in a format; the tensor itself if it already is. -/
def toFormat (t : Tensor) (f : MemoryFormat) (h : Heap) : Except Failure (Tensor × Heap) :=
  if t.isContiguousIn f then .ok (t, h)
  else do
    let (out, h) ← zeros t.dims t.dtype f h
    return (out, copyMatching out t h)

def contiguous (t : Tensor) (h : Heap) : Except Failure (Tensor × Heap) :=
  t.toFormat .contiguous h

/-- Reading out makes a row-major copy first, which has to fit into a storage. A view
that repeats elements may be too large for that. -/
def readOut (t : Tensor) (h : Heap) : Except Failure (List UInt8) :=
  if storageLimit < t.numel * t.elementSize then .error (.fault .storageTooLarge)
  else .ok (t.toBytes h)

/-- The bytes of a tensor that must hold the given type. -/
def readAs (t : Tensor) (dtype : DType) (h : Heap) : Except Failure (List UInt8) :=
  if t.dtype = dtype then t.readOut h else .error (.view (.readType dtype t.dtype))

def readBools (t : Tensor) (h : Heap) : Except Failure (List Bool) :=
  if t.dtype = .bool then (t.readOut h).map (·.map (· != 0))
  else .error (.view (.readBools t.dtype))

end TensorConcat.Tensor
