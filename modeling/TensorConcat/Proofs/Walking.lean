import TensorConcat.Layout.Odometer
import TensorConcat.Proofs.Coordinates

/-!
# The odometer visits the coordinates

Turning the wheels counts in mixed radix, innermost wheel first, and the two
positions are the sums of what the wheels have added. So the `n`-th state of an
odometer is known outright, and a walk is a fold over the coordinates in
row-major order with the positions they have under both lists of strides.

A wheel that comes round takes off what it has added. The walk is also written
down with these differences checked: `walk?` has no result once a position would
fall below zero, at the turn after the last visit as well. It has the result of
the walk whatever the strides.
-/

namespace TensorConcat.Odometer

/-- The wheels, innermost first, when their turns spell the number `n`. -/
def wheelsAt : List Wheel → Nat → List Wheel
  | [], _ => []
  | w :: outer, n => { w with turn := n % w.extent } :: wheelsAt outer (n / w.extent)

/-- What the wheels have added to a position, `step` being what one turn adds. -/
def added (step : Wheel → Nat) : List Wheel → Nat → Nat
  | [], _ => 0
  | w :: outer, n => n % w.extent * step w + added step outer (n / w.extent)

/-- The number of states of the wheels. -/
def states : List Wheel → Nat
  | [] => 1
  | w :: outer => w.extent * states outer

theorem succ_div_mod {n d : Nat} (h : n % d + 1 < d) : (n + 1) / d = n / d ∧ (n + 1) % d = n % d + 1 := by
  have hd : 0 < d := by omega
  have hsplit := Nat.div_add_mod n d
  have hn : n + 1 = d * (n / d) + (n % d + 1) := by omega
  constructor
  · rw [hn, Nat.mul_add_div hd, Nat.div_eq_of_lt h, Nat.add_zero]
  · rw [hn, Nat.mul_add_mod, Nat.mod_eq_of_lt h]

theorem succ_div_mod_wrap {n d : Nat} (hd : 0 < d) (h : ¬n % d + 1 < d) :
    (n + 1) / d = n / d + 1 ∧ (n + 1) % d = 0 ∧ n % d + 1 = d := by
  have hlt := Nat.mod_lt n hd
  have hsplit := Nat.div_add_mod n d
  have hn : n + 1 = d * (n / d + 1) := by
    rw [Nat.mul_add, Nat.mul_one]
    omega
  refine ⟨?_, ?_, by omega⟩
  · rw [hn, Nat.mul_div_cancel_left _ hd]
  · rw [hn, Nat.mul_mod_right]

/-- A difference, which there is only if it is not below zero. -/
def subtract? (a b : Nat) : Option Nat := if b ≤ a then some (a - b) else none

/-- A turn in which no position falls below zero. -/
def turn? : List Wheel → Nat → Nat → Option Odometer
  | [], left, right => some ⟨[], left, right⟩
  | w :: outer, left, right =>
    if w.turn + 1 < w.extent then
      some ⟨{ w with turn := w.turn + 1 } :: outer, left + w.left, right + w.right⟩
    else do
      let left ← subtract? (left + w.left) (w.left * w.extent)
      let right ← subtract? (right + w.right) (w.right * w.extent)
      let rest ← turn? outer left right
      return { rest with wheels := { w with turn := 0 } :: rest.wheels }

def run? {σ : Type} (f : Nat → Nat → σ → σ) : Nat → Odometer → σ → Option σ
  | 0, _, s => some s
  | n + 1, o, s => do run? f n (← turn? o.wheels o.left o.right) (f o.left o.right s)

/-- A walk in which no position falls below zero. -/
def walk? {σ : Type} (extents left right : List Nat) (f : Nat → Nat → σ → σ) (s : σ) : Option σ :=
  run? f (volume extents) (start extents left right) s

theorem subtract?_add (a b : Nat) : subtract? (a + b) b = some a := by
  rw [subtract?, if_pos (Nat.le_add_left b a), Nat.add_sub_cancel]

theorem eq_sub_of_subtract? {a b c : Nat} (h : subtract? a b = some c) : a - b = c := by
  unfold subtract? at h
  split at h
  · exact Option.some.inj h
  · exact absurd h (by simp)

theorem turn_eq_of_turn? {ws : List Wheel} {left right : Nat} {o : Odometer}
    (h : turn? ws left right = some o) : turn ws left right = o := by
  induction ws generalizing left right o with
  | nil => exact Option.some.inj h
  | cons w outer ih =>
    simp only [turn?] at h
    simp only [turn]
    split at h
    · rename_i hroom
      rw [if_pos hroom]
      exact Option.some.inj h
    · rename_i hround
      obtain ⟨left', hleft, h⟩ := Option.bind_eq_some_iff.mp h
      obtain ⟨right', hright, h⟩ := Option.bind_eq_some_iff.mp h
      obtain ⟨rest, hrest, h⟩ := Option.bind_eq_some_iff.mp h
      rw [if_neg hround, eq_sub_of_subtract? hleft, eq_sub_of_subtract? hright, ih hrest]
      exact Option.some.inj h

theorem run_eq_of_run? {σ : Type} {f : Nat → Nat → σ → σ} {count : Nat} {o : Odometer} {s t : σ}
    (h : run? f count o s = some t) : run f count o s = t := by
  induction count generalizing o s with
  | zero => exact Option.some.inj h
  | succ count ih =>
    obtain ⟨next, hnext, h⟩ := Option.bind_eq_some_iff.mp h
    rw [run, advance, turn_eq_of_turn? hnext]
    exact ih h

/-- One turn counts one up; after the last state come the wheels at zero. A wheel that comes round
has added as much as it takes off, so what is left is what the wheels outside of it have added. -/
theorem turn?_wheelsAt {ws : List Wheel} {n : Nat} (h : n < states ws) :
    turn? (wheelsAt ws n) (added (·.left) ws n) (added (·.right) ws n) =
      some ⟨wheelsAt ws (n + 1), added (·.left) ws (n + 1), added (·.right) ws (n + 1)⟩ := by
  induction ws generalizing n with
  | nil => rfl
  | cons w outer ih =>
    have hd : 0 < w.extent := Nat.pos_of_mul_pos_right (Nat.zero_lt_of_lt h)
    simp only [wheelsAt, added, turn?]
    by_cases hroom : n % w.extent + 1 < w.extent
    · obtain ⟨hdiv, hmod⟩ := succ_div_mod hroom
      rw [if_pos hroom, hdiv, hmod]
      simp only [Option.some.injEq, Odometer.mk.injEq, true_and, Nat.add_mul, Nat.one_mul]
      omega
    · obtain ⟨hdiv, hmod, hfull⟩ := succ_div_mod_wrap hd hroom
      have hround (stride rest : Nat) :
          n % w.extent * stride + rest + stride = rest + stride * w.extent := by
        rw [Nat.add_right_comm, ← Nat.succ_mul, Nat.succ_eq_add_one, hfull, Nat.mul_comm,
          Nat.add_comm]
      have houter : n / w.extent < states outer := Nat.div_lt_of_lt_mul h
      rw [if_neg hroom, hround, hround, subtract?_add, subtract?_add, hdiv, hmod, Nat.zero_mul,
        Nat.zero_mul, Nat.zero_add, Nat.zero_add, Option.bind_eq_bind, Option.bind_some,
        Option.bind_eq_bind, Option.bind_some, ih houter]
      rfl

theorem run?_wheelsAt {σ : Type} (f : Nat → Nat → σ → σ) {ws : List Wheel} {count n : Nat}
    (h : n + count ≤ states ws) (s : σ) :
    run? f count ⟨wheelsAt ws n, added (·.left) ws n, added (·.right) ws n⟩ s =
      some ((List.range' n count).foldl
        (fun s k => f (added (·.left) ws k) (added (·.right) ws k) s) s) := by
  induction count generalizing n s with
  | zero => rfl
  | succ count ih =>
    rw [run?, turn?_wheelsAt (by omega), Option.bind_eq_bind, Option.bind_some, ih (by omega),
      List.range'_succ, List.foldl_cons]

theorem added_append (step : Wheel → Nat) (ws : List Wheel) (w : Wheel) (n : Nat) :
    added step (ws ++ [w]) n =
      added step ws n + n / states ws % w.extent * step w := by
  induction ws generalizing n with
  | nil => simp [added, states]
  | cons v ws ih => simp only [List.cons_append, added, ih, states, Nat.div_div_eq_div_mul, Nat.add_assoc]

theorem added_mod (step : Wheel → Nat) (ws : List Wheel) (n : Nat) :
    added step ws (n % states ws) = added step ws n := by
  induction ws generalizing n with
  | nil => rfl
  | cons w ws ih =>
    simp only [added, states]
    rw [Nat.mod_mul_right_mod, Nat.mod_mul_right_div_self, ih]

/-- The wheel of an axis with its strides in both views. -/
def wheel (d : Nat) (s : Nat × Nat) : Wheel := ⟨d, s.1, s.2, 0⟩

theorem states_append (ws : List Wheel) (w : Wheel) :
    states (ws ++ [w]) = states ws * w.extent := by
  induction ws with
  | nil => simp [states]
  | cons v ws ih => simp [states, ih, Nat.mul_assoc]

theorem states_wheels {ds : List Nat} {ss : List (Nat × Nat)} (h : ds.length = ss.length) :
    states (List.zipWith wheel ds ss).reverse = volume ds := by
  induction ds generalizing ss with
  | nil => rfl
  | cons d ds ih => cases ss with
    | nil => simp at h
    | cons s ss =>
      rw [List.zipWith_cons_cons, List.reverse_cons, states_append, ih (by simpa using h),
        volume_cons, Nat.mul_comm]
      rfl

/-- The wheels of a list of axes add up to the position of the coordinate they spell. -/
theorem added_wheels (step : Wheel → Nat) (stride : Nat × Nat → Nat)
    (hstep : ∀ d s, step (wheel d s) = stride s) {ds : List Nat} {ss : List (Nat × Nat)}
    (h : ds.length = ss.length) {n : Nat} (hn : n < volume ds) :
    added step (List.zipWith wheel ds ss).reverse n =
      Axis.position (Axis.pair ds (ss.map stride)) (digits ds n) := by
  induction ds generalizing ss n with
  | nil => rfl
  | cons d ds ih => cases ss with
    | nil => simp at h
    | cons s ss =>
      have hlen : ds.length = ss.length := by simpa using h
      have hpos : 0 < volume ds := Nat.pos_of_mul_pos_left (Nat.zero_lt_of_lt hn)
      have hdigit : n / volume ds < d := (Nat.div_lt_iff_lt_mul hpos).mpr hn
      have hrest := ih hlen (Nat.mod_lt n hpos)
      simp only [Axis.pair] at hrest
      rw [List.zipWith_cons_cons, List.reverse_cons, added_append, states_wheels hlen, hstep,
        ← added_mod, states_wheels hlen, hrest]
      simp only [Axis.pair, List.map_cons, List.zipWith_cons_cons, digits, Axis.position]
      rw [show (wheel d s).extent = d from rfl, Nat.mod_eq_of_lt hdigit, Nat.add_comm]

theorem wheelsAt_zero {ws : List Wheel} (h : ∀ w ∈ ws, w.turn = 0) : wheelsAt ws 0 = ws := by
  induction ws with
  | nil => rfl
  | cons w ws ih =>
    have hw := h w (by simp)
    simp only [wheelsAt, Nat.zero_mod, Nat.zero_div, List.cons.injEq]
    exact ⟨by rw [← hw], ih fun v hv => h v (by simp [hv])⟩

theorem turn_of_mem_wheels {ds : List Nat} {ss : List (Nat × Nat)} {w : Wheel}
    (h : w ∈ (List.zipWith wheel ds ss).reverse) : w.turn = 0 := by
  obtain ⟨i, hi, rfl⟩ := List.mem_iff_getElem.mp (List.mem_reverse.mp h)
  simp [wheel]

theorem added_zero (step : Wheel → Nat) (ws : List Wheel) : added step ws 0 = 0 := by
  induction ws with
  | nil => rfl
  | cons w ws ih => simp [added, ih]

section Walk
variable {σ : Type} {ds ls rs : List Nat} (hl : ds.length = ls.length) (hr : ds.length = rs.length)
include hl hr

theorem walk?_eq_foldl (f : Nat → Nat → σ → σ) (s : σ) :
    walk? ds ls rs f s =
      some ((coordinates ds).foldl
        (fun s c => f (Axis.position (Axis.pair ds ls) c) (Axis.position (Axis.pair ds rs) c) s)
        s) := by
  have hz : ds.length = (ls.zip rs).length := by rw [List.length_zip]; omega
  let ws := (List.zipWith wheel ds (ls.zip rs)).reverse
  have hstates : states ws = volume ds := states_wheels hz
  have hstart : start ds ls rs = ⟨wheelsAt ws 0, added (·.left) ws 0, added (·.right) ws 0⟩ := by
    rw [wheelsAt_zero fun w => turn_of_mem_wheels, added_zero, added_zero]
    rfl
  have hleft : (ls.zip rs).map Prod.fst = ls := List.map_fst_zip (by omega)
  have hright : (ls.zip rs).map Prod.snd = rs := List.map_snd_zip (by omega)
  rw [walk?, hstart, run?_wheelsAt f (by omega), ← List.range_eq_range',
    coordinates_eq_map_digits, List.foldl_map]
  congr 1
  apply List.foldl_ext _ _ _
  intro s n hn
  have hn := List.mem_range.mp hn
  rw [added_wheels _ Prod.fst (fun _ _ => rfl) hz hn, added_wheels _ Prod.snd (fun _ _ => rfl) hz hn,
    hleft, hright]

/-- A walk calls its function once for each coordinate, in row-major order, with the
positions of the coordinate under both lists of strides. -/
theorem walk_eq_foldl (f : Nat → Nat → σ → σ) (s : σ) :
    walk ds ls rs f s =
      (coordinates ds).foldl
        (fun s c => f (Axis.position (Axis.pair ds ls) c) (Axis.position (Axis.pair ds rs) c) s)
        s := run_eq_of_run? (walk?_eq_foldl hl hr f s)

end Walk

/-- The position of a coordinate under a list of strides. -/
def dot (c strides : List Nat) : Nat := (List.zipWith (· * ·) c strides).sum

theorem position_pair {ds ss : List Nat} (h : ds.length = ss.length) (c : List Nat) :
    Axis.position (Axis.pair ds ss) c = dot c ss := by
  induction ds generalizing ss c with
  | nil =>
    rw [List.eq_nil_of_length_eq_zero h.symm]
    simp [Axis.pair, Axis.position, dot]
  | cons d ds ih => cases ss with
    | nil => simp at h
    | cons s ss => cases c with
      | nil => simp [Axis.pair, Axis.position, dot]
      | cons i is =>
        have hrest := ih (Nat.succ.inj h) is
        simp only [Axis.pair, dot] at hrest
        simp only [Axis.pair, dot, List.zipWith_cons_cons, List.sum_cons, Axis.position, hrest]

end TensorConcat.Odometer
