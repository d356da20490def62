import TensorConcat.Layout.Axis

/-!
# Walking two views together

An odometer visits every coordinate of a list of extents in row-major order and
keeps the position it has in each of two views up to date: turning a wheel adds
its two strides, and a wheel that comes round takes off what it has added
before the next one turns. No multiplication by the index is needed, and the
positions never run below zero.

Between the two a position may be larger than that of any coordinate, by as much
as the stride of an axis that is only as long as one element. The sums are exact
here. In words that wrap round, what is taken off brings such a sum back, so the
positions that are called with are the same; a build that stops at the first sum
that is no word stops there, and is not what is described.
-/

namespace TensorConcat

/-- One axis of an odometer: where it stands and what a turn adds to each position. -/
structure Wheel where
  extent : Nat
  left : Nat
  right : Nat
  turn : Nat
deriving Repr, DecidableEq

/-- Wheels from the innermost outwards, with the two positions they stand at. -/
structure Odometer where
  wheels : List Wheel
  left : Nat
  right : Nat
deriving Repr, DecidableEq

namespace Odometer

/-- All wheels at zero. -/
def start (extents left right : List Nat) : Odometer :=
  ⟨(List.zipWith (fun d (s : Nat × Nat) => ⟨d, s.1, s.2, 0⟩) extents (left.zip right)).reverse,
    0, 0⟩

/-- Turns the first wheel, and each next one as long as wheels come round. -/
def turn : List Wheel → Nat → Nat → Odometer
  | [], left, right => ⟨[], left, right⟩
  | w :: outer, left, right =>
    let left := left + w.left
    let right := right + w.right
    if w.turn + 1 < w.extent then
      ⟨{ w with turn := w.turn + 1 } :: outer, left, right⟩
    else
      let rest := turn outer (left - w.left * w.extent) (right - w.right * w.extent)
      { rest with wheels := { w with turn := 0 } :: rest.wheels }

def advance (o : Odometer) : Odometer := turn o.wheels o.left o.right

/-- Calls `f` with the two positions at each of `n` steps. -/
def run {σ : Type} (f : Nat → Nat → σ → σ) : Nat → Odometer → σ → σ
  | 0, _, s => s
  | n + 1, o, s => run f n o.advance (f o.left o.right s)

/-- Calls `f` once per coordinate of the extents, in row-major order, with the
positions the coordinate has under both lists of strides. -/
def walk {σ : Type} (extents left right : List Nat) (f : Nat → Nat → σ → σ) (s : σ) : σ :=
  run f (volume extents) (start extents left right) s

end Odometer

end TensorConcat
