import TensorConcat.Layout.Axis

/-!
# Memory formats

A dense tensor stores its elements without gaps, one axis innermost, the next
around it, and so on. `arrange` lists logical axes from outermost to innermost
in memory and `restore` undoes it; strides and the test for density are
recursions over the arranged list. Rows-last order leaves the list as it is;
channels-last order moves axis one to the end, from rank three on.

Products of extents stop at the largest 64-bit word, and extents of zero count
as one in strides, so every shape has strides.
-/

namespace TensorConcat

inductive MemoryFormat
  | contiguous
  | channelsLast
deriving Repr, DecidableEq

/-- The largest word; strides stop there. -/
def wordMax : Nat := 0xFFFFFFFFFFFFFFFF

def saturatingMul (a b : Nat) : Nat := min (a * b) wordMax

/-- Elements that a block of the extents takes, from the innermost outwards. -/
def span : List Nat → Nat
  | [] => 1
  | d :: ds => saturatingMul (span ds) (max d 1)

/-- Strides of extents listed from outermost to innermost. -/
def denseStrides : List Nat → List Nat
  | [] => []
  | _ :: ds => span ds :: denseStrides ds

/-- The number of elements of axes listed from outermost to innermost, when they
are packed: each axis steps over just the block inside of it. An axis of extent
one takes no step, so its stride is not looked at. -/
def packedSpan : List Axis → Option Nat
  | [] => some 1
  | a :: inner =>
    match packedSpan inner with
    | none => none
    | some block =>
      if a.extent = 1 then some block
      else if a.stride = block then some (saturatingMul block a.extent)
      else none

/-- Whether axes listed from outermost to innermost lie without gaps; without any
element there is nothing to lie anywhere. -/
def isPacked (axes : List Axis) : Bool :=
  axes.any (·.extent == 0) || (packedSpan axes).isSome

namespace MemoryFormat

/-- From logical order to memory order, outermost first. -/
def arrange {α : Type} : MemoryFormat → List α → List α
  | .channelsLast, n :: c :: d :: rest => n :: d :: (rest ++ [c])
  | _, xs => xs

/-- From memory order back to logical order. -/
def restore {α : Type} : MemoryFormat → List α → List α
  | .channelsLast, n :: d :: e :: rest =>
    n :: (e :: rest).getLast (by simp) :: d :: (e :: rest).dropLast
  | _, xs => xs

/-- Logical axes from outermost to innermost in memory. -/
def order (f : MemoryFormat) (rank : Nat) : List Nat := f.arrange (List.range rank)

/-- Strides of a dense tensor of these extents. -/
def strides (f : MemoryFormat) (dims : List Nat) : List Nat :=
  f.restore (denseStrides (f.arrange dims))

def axes (f : MemoryFormat) (dims : List Nat) : List Axis := Axis.pair dims (f.strides dims)

/-- Whether the axes lie densely in this format. -/
def holds (f : MemoryFormat) (axes : List Axis) : Bool := isPacked (f.arrange axes)

def name : MemoryFormat → String
  | .contiguous => "contiguous"
  | .channelsLast => "channels_last"

/-- The spelling used in log lines. -/
def title : MemoryFormat → String
  | .contiguous => "Contiguous"
  | .channelsLast => "ChannelsLast"

@[simp] theorem restore_arrange {α : Type} (f : MemoryFormat) (xs : List α) :
    f.restore (f.arrange xs) = xs := by
  cases f with
  | contiguous => rfl
  | channelsLast =>
    match xs with
    | [] => rfl
    | [a] => rfl
    | [a, b] => rfl
    | [a, b, c] => rfl
    | n :: c :: d :: e :: rest =>
      simp only [arrange, restore, List.cons_append, List.cons.injEq, true_and]
      simp only [← List.cons_append, List.getLast_concat, List.dropLast_concat, and_self]

theorem arrange_perm {α : Type} (f : MemoryFormat) (xs : List α) : (f.arrange xs).Perm xs := by
  cases f with
  | contiguous => exact .refl _
  | channelsLast =>
    match xs with
    | [] | [_] | [_, _] => exact .refl _
    | n :: c :: d :: rest =>
      refine .cons n ?_
      exact List.perm_append_singleton c (d :: rest)

theorem arrange_map {α β : Type} (f : MemoryFormat) (g : α → β) (xs : List α) :
    f.arrange (xs.map g) = (f.arrange xs).map g := by
  cases f with
  | contiguous => rfl
  | channelsLast =>
    match xs with
    | [] | [_] | [_, _] => rfl
    | n :: c :: d :: rest => simp [arrange]

end MemoryFormat

@[simp] theorem length_denseStrides (ds : List Nat) : (denseStrides ds).length = ds.length := by
  induction ds with
  | nil => rfl
  | cons d ds ih => simp [denseStrides, ih]

end TensorConcat
