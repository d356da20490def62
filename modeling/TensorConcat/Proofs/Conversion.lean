import Mathlib.Data.List.Basic
import TensorConcat.Scalar

/-!
# Converting in steps

Truth values and integers have a range, and the common type of two of them has the ranges of
both. A value that is converted to a type that holds it is still there when it is read again, so
going through such a type makes no difference to where a value ends up. With floating types there
is no such rule: an integer that meets a narrow one on the way is rounded twice.
-/

namespace TensorConcat

open Number

namespace DType

/-- The least integer of a type that is not floating. -/
def least : DType → Int
  | .bool | .u8 => 0
  | d => -(Nat.pow 256 d.size / 2 : Nat)

/-- The greatest integer of a type that is not floating. -/
def greatest : DType → Int
  | .bool => 1
  | .u8 => 255
  | d => (Nat.pow 256 d.size / 2 : Nat) - 1

/-- The integer lies in the range of the type. -/
def Holds (d : DType) (n : Int) : Prop := d.least ≤ n ∧ n ≤ d.greatest

instance (d : DType) (n : Int) : Decidable (d.Holds n) := inferInstanceAs (Decidable (_ ∧ _))

/-- Whether values of one type may be taken for values of the other, as the types are when the
second is what both meet at. -/
def Below (s d : DType) : Prop := promote s d = d

variable {s d e : DType} {ds es : List DType}

theorem Below.refl (d : DType) : Below d d := promote_self d

theorem Below.trans (first : Below s d) (second : Below d e) : Below s e := by
  unfold Below at first second ⊢
  rw [← second, ← promote_assoc, first]

theorem Below.antisymm (first : Below s d) (second : Below d s) : s = d := by
  unfold Below at first second
  rw [← second, promote_comm, first]

theorem below_promote_left (s d : DType) : Below s (promote s d) := by
  rw [Below, ← promote_assoc, promote_self]

theorem below_promote_right (s d : DType) : Below d (promote s d) := by
  rw [promote_comm]
  exact below_promote_left d s

/-- Of types that are not floating, the higher one has the larger range and no fewer bytes. -/
theorem Below.range (below : Below s d) (fixed : d.category ≠ .floating) :
    d.least ≤ s.least ∧ s.greatest ≤ d.greatest ∧ s.size ≤ d.size := by
  revert below fixed
  unfold Below
  cases s <;> cases d <;> decide

/-- A type that is not floating and has another one below it is integral. -/
theorem Below.integral (below : Below s d) (fixed : d.category ≠ .floating) (ne : s ≠ d) :
    d.category = .integral := by
  revert below fixed ne
  unfold Below
  cases s <;> cases d <;> decide

theorem Below.fixed (below : Below s d) (fixed : d.category ≠ .floating) :
    s.category ≠ .floating := by
  revert below fixed
  unfold Below
  cases s <;> cases d <;> decide

theorem promote_fixed (hs : s.category ≠ .floating) (hd : d.category ≠ .floating) :
    (promote s d).category ≠ .floating := by
  revert hs hd
  cases s <;> cases d <;> decide

instance : Std.Associative promote := ⟨promote_assoc⟩

/-- Two lists meet at what their common types meet at. -/
theorem common?_append (hd : common? ds = some d) (he : common? es = some e) :
    common? (ds ++ es) = some (promote d e) := by
  cases ds with
  | nil => exact absurd hd (by simp [common?])
  | cons a as =>
    cases es with
    | nil => exact absurd he (by simp [common?])
    | cons b bs =>
      rw [← Option.some.inj hd, ← Option.some.inj he, List.cons_append, common?, List.foldl_append,
        List.foldl_cons, List.foldl_assoc]

/-- Every type of a list is below the one at which the list meets. -/
theorem below_common (hd : common? ds = some d) (hs : s ∈ ds) : Below s d := by
  induction ds generalizing d with
  | nil => exact absurd hs (by simp)
  | cons a as ih =>
    cases as with
    | nil =>
      rw [← Option.some.inj hd, List.mem_singleton.mp hs]
      exact .refl _
    | cons b bs =>
      have hrest : common? (b :: bs) = some (bs.foldl promote b) := rfl
      have hmeet : d = promote a (bs.foldl promote b) := by
        rw [← Option.some.inj hd, List.foldl_cons, List.foldl_assoc]
      rw [hmeet]
      rcases List.mem_cons.mp hs with rfl | hs
      · exact below_promote_left _ _
      · exact (ih hrest hs).trans (below_promote_right _ _)

theorem common?_fixed (hd : common? ds = some d) (fixed : ∀ s ∈ ds, s.category ≠ .floating) :
    d.category ≠ .floating := by
  cases ds with
  | nil => exact absurd hd (by simp [common?])
  | cons a as =>
    rw [← Option.some.inj hd]
    refine List.foldlRecOn (motive := fun b => b.category ≠ .floating) as promote ?_ ?_
    · exact fixed a List.mem_cons_self
    · exact fun b hb s hs => promote_fixed hb (fixed s (List.mem_cons_of_mem a hs))

end DType

namespace Scalar
variable {s d e : DType}

theorem decode_lowBytes (width : Nat) (n : Int) :
    (LittleEndian.decode (lowBytes width n) : Int) = n % (Nat.pow 256 width : Nat) := by
  have hpos : 0 < Nat.pow 256 width := Nat.pow_pos (by decide)
  have hnonneg := Int.emod_nonneg n (b := (Nat.pow 256 width : Nat)) (by omega)
  have hlt := Int.emod_lt_of_pos n (b := (Nat.pow 256 width : Nat)) (by omega)
  rw [lowBytes, LittleEndian.decode_encode, Nat.mod_eq_of_lt (by omega), Int.toNat_of_nonneg hnonneg]

/-- The low bytes of an integer hold the one of its residues that is nearest to zero. -/
theorem signed_lowBytes (width : Nat) (n : Int) :
    signed width (LittleEndian.decode (lowBytes width n)) = Int.bmod n (Nat.pow 256 width) := by
  rw [signed, decode_lowBytes, Int.emod_bmod]

theorem signed_range {width : Nat} (pos : 0 < width) (n : Nat) :
    -(Nat.pow 256 width / 2 : Nat) ≤ signed width n ∧
      signed width n ≤ (Nat.pow 256 width / 2 : Nat) - 1 := by
  have hpos : 0 < Nat.pow 256 width := Nat.pow_pos (by decide)
  have heven : Nat.pow 256 width % 2 = 0 := by
    rw [← Nat.succ_pred_eq_of_pos pos, Nat.pow_eq, Nat.pow_succ]
    omega
  have hlower := Int.le_bmod (x := n) hpos
  have hupper := Int.bmod_lt (x := n) hpos
  unfold signed
  omega

variable [FloatCasts]

/-- What is read from the bytes of a type lies in its range. -/
theorem holds_read (fixed : d.category ≠ .floating) {bytes : List UInt8}
    (hlength : bytes.length = d.size) : d.Holds (read d bytes).asInt := by
  have hlt := LittleEndian.decode_lt bytes
  rw [hlength] at hlt
  cases d with
  | bool =>
    rw [read, asInt]
    split
    · decide
    · decide
  | u8 =>
    have hbyte : LittleEndian.decode bytes < 256 := hlt
    change 0 ≤ (LittleEndian.decode bytes : Int) ∧ (LittleEndian.decode bytes : Int) ≤ 255
    omega
  | i8 | i16 | i32 | i64 => exact signed_range (DType.size_pos _) _
  | _ => exact absurd rfl fixed

/-- A value that is written in a type that holds it is read again. -/
theorem asInt_read_write (integral : d.category = .integral) {v : Scalar}
    (holds : d.Holds v.asInt) : (read d (v.write d)).asInt = v.asInt := by
  rcases holds with ⟨hlower, hupper⟩
  cases d with
  | u8 =>
    change (LittleEndian.decode (lowBytes 1 v.asInt) : Int) = v.asInt
    rw [decode_lowBytes]
    exact Int.emod_eq_of_lt hlower (Int.lt_add_one_of_le hupper)
  | i8 | i16 | i32 | i64 =>
    refine (signed_lowBytes _ v.asInt).trans ?_
    simp only [DType.least, DType.greatest, DType.size] at hlower hupper ⊢
    exact Int.bmod_eq_of_le (by omega) (by omega)
  | _ => exact absurd integral (by decide)

/-- A value that is converted to a type above its own is the same integer there. -/
theorem asInt_convertElement (below : s.Below d) (fixed : d.category ≠ .floating)
    {bytes : List UInt8} (hlength : bytes.length = s.size) :
    (read d (convertElement s d bytes)).asInt = (read s bytes).asInt := by
  by_cases same : s = d
  · rw [same, convertElement_self]
  have hrange := below.range fixed
  have hread := holds_read (below.fixed fixed) hlength
  rw [convertElement, if_neg same]
  exact asInt_read_write (below.integral fixed same)
    ⟨Int.le_trans hrange.1 hread.1, Int.le_trans hread.2 hrange.2.1⟩

end Scalar

variable {s d e : DType} [FloatCasts]

theorem write_congr (integral : e.category = .integral) {v w : Scalar} (same : v.asInt = w.asInt) :
    v.write e = w.write e := by
  cases e with
  | u8 | i8 | i16 | i32 | i64 => simp only [Scalar.write, same]
  | _ => exact absurd integral (by decide)

/-- Going through a type on the way up makes no difference. -/
theorem convertElement_through (first : s.Below d) (second : d.Below e)
    (fixed : e.category ≠ .floating) {bytes : List UInt8} (hlength : bytes.length = s.size) :
    convertElement d e (convertElement s d bytes) = convertElement s e bytes := by
  by_cases hsd : s = d
  · rw [hsd, convertElement_self]
  by_cases hde : d = e
  · rw [hde, convertElement_self]
  have hse : s ≠ e := by
    rintro rfl
    exact hsd (first.antisymm second)
  have hvalue := Scalar.asInt_convertElement first (second.fixed fixed) hlength
  calc convertElement d e (convertElement s d bytes)
      = (Scalar.read d (convertElement s d bytes)).write e := if_neg hde
    _ = (Scalar.read s bytes).write e := write_congr (second.integral fixed hde) hvalue
    _ = convertElement s e bytes := (if_neg hse).symm

end TensorConcat
