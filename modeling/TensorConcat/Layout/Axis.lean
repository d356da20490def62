/-!
# Axes, extents and coordinates

An axis of a view is an extent and the distance, in elements, between
neighbours along it. A coordinate names one index per axis; `position` is the
element it addresses and `coordinates` lists all of them in row-major order,
last axis fastest. A list of extents without any extent has one coordinate, the
empty one.
-/

namespace TensorConcat

structure Axis where
  extent : Nat
  stride : Nat
deriving Repr, DecidableEq

/-- Number of coordinates below the extents. -/
def volume : List Nat → Nat
  | [] => 1
  | d :: ds => d * volume ds

/-- All coordinates below the extents, the last index fastest. -/
def coordinates : List Nat → List (List Nat)
  | [] => [[]]
  | d :: ds => (List.range d).flatMap fun i => (coordinates ds).map (i :: ·)

/-- Whether a coordinate has one index below each extent. -/
def Within : List Nat → List Nat → Prop
  | [], [] => True
  | d :: ds, i :: is => i < d ∧ Within ds is
  | _, _ => False

namespace Axis

def extents (axes : List Axis) : List Nat := axes.map (·.extent)

def strides (axes : List Axis) : List Nat := axes.map (·.stride)

/-- Axes with the given extents and strides, paired from the first on. -/
def pair (extents strides : List Nat) : List Axis := List.zipWith Axis.mk extents strides

/-- The element a coordinate addresses, counted from the first one of the view. -/
def position : List Axis → List Nat → Nat
  | a :: axes, i :: is => i * a.stride + position axes is
  | _, _ => 0

/-- The largest position of any coordinate of a view that has one. -/
def reach (axes : List Axis) : Nat := axes.foldr (fun a rest => (a.extent - 1) * a.stride + rest) 0

@[simp] theorem extents_nil : extents [] = [] := rfl

@[simp] theorem extents_cons (a : Axis) (axes : List Axis) :
    extents (a :: axes) = a.extent :: extents axes := rfl

@[simp] theorem strides_cons (a : Axis) (axes : List Axis) :
    strides (a :: axes) = a.stride :: strides axes := rfl

theorem extents_pair {es ss : List Nat} (h : es.length = ss.length) :
    extents (pair es ss) = es := by
  induction es generalizing ss with
  | nil => rfl
  | cons e es ih =>
    cases ss with
    | nil => simp at h
    | cons s ss => simpa [pair, extents] using ih (by simpa using h)

theorem strides_pair {es ss : List Nat} (h : es.length = ss.length) :
    strides (pair es ss) = ss := by
  induction es generalizing ss with
  | nil =>
    cases ss with
    | nil => rfl
    | cons s ss => simp at h
  | cons e es ih =>
    cases ss with
    | nil => simp at h
    | cons s ss => simpa [pair, strides] using ih (by simpa using h)

end Axis

@[simp] theorem length_coordinates (ds : List Nat) : (coordinates ds).length = volume ds := by
  induction ds with
  | nil => rfl
  | cons d ds ih =>
    simp [coordinates, volume, List.length_flatMap, ih, List.map_const']

theorem mem_coordinates {ds c : List Nat} : c ∈ coordinates ds ↔ Within ds c := by
  induction ds generalizing c with
  | nil => cases c <;> simp [coordinates, Within]
  | cons d ds ih =>
    cases c with
    | nil => simp [coordinates, Within]
    | cons i is =>
      simp only [coordinates, List.mem_flatMap, List.mem_range, List.mem_map, List.cons.injEq,
        Within, ← ih]
      constructor
      · intro hcase
        rcases hcase with ⟨j, hj, c, hc, rfl, rfl⟩
        exact ⟨hj, hc⟩
      · intro ⟨hi, hc⟩
        exact ⟨i, hi, is, hc, rfl, rfl⟩

end TensorConcat
