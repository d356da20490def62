import TensorConcat.Proofs.Copying
import TensorConcat.Proofs.Density
import TensorConcat.Tensor.Aliasing

/-!
# What the overlap tests say of the bytes

The elements of a dense view occupy every byte of its range and no other, so of two dense views the
ranges tell how the bytes lie: a range has a first byte and a last one, and two ranges of one
storage meet just when each begins before the other ends. Each answer of the test is described by
what it says of the bytes. Two views fit the description of one answer, which is the one that the
test gives.

Within one view, density excludes that two coordinates share an element, and an axis of several
elements that stands still makes them share one.
-/

namespace TensorConcat

namespace Tensor
variable {t a b : Tensor}

/-- Byte `i` of storage `s` lies between the ends of the view. -/
def InByteRange (t : Tensor) (s i : Nat) : Prop :=
  s = t.storage ∧ t.byteRange.1 ≤ i ∧ i < t.byteRange.2

/-- Every element lies in the byte range. -/
theorem Addresses.in_byteRange {t : Tensor} {s i : Nat} (h : t.Addresses s i) :
    t.InByteRange s i := by
  obtain ⟨c, hc, hs, hlo, hhi⟩ := h
  have hne : ¬t.numel = 0 := fun hzero => not_within_of_numel_eq_zero hzero hc
  have hreach : Axis.position t.axes c ≤ t.maxOffset := by
    rw [maxOffset, if_neg hne]
    exact Axis.position_le_reach hc
  have hrow := Nat.mul_le_mul_right t.elementSize
    (show t.offset + Axis.position t.axes c + 1 ≤ t.offset + (t.maxOffset + 1) by omega)
  have hstart := Nat.mul_le_mul_right t.elementSize
    (Nat.le_add_right t.offset (Axis.position t.axes c))
  rw [InByteRange, byteRange, if_neg hne]
  dsimp only [start]
  rw [Nat.add_mul t.offset] at hrow
  exact ⟨hs, by omega, by omega⟩

theorem InByteRange.numel_pos {s i : Nat} (inRange : t.InByteRange s i) : 0 < t.numel := by
  apply Nat.pos_of_ne_zero
  intro hzero
  rw [InByteRange, byteRange, if_pos hzero] at inRange
  omega

/-- The bytes that the elements of a view occupy, each by its storage and its place there. -/
def footprint (t : Tensor) : Set (Nat × Nat) := {p | t.Addresses p.1 p.2}

/-- A view that has elements and is dense. -/
structure Solid (t : Tensor) : Prop where
  pos : 0 < t.numel
  dense : t.isDense = true

theorem footprint_of_empty (empty : t.numel = 0) : t.footprint = ∅ := by
  rw [Set.eq_empty_iff_forall_notMem]
  intro p hp
  obtain ⟨c, hc, -⟩ := hp
  exact not_within_of_numel_eq_zero empty hc

namespace Solid

theorem byteRange_eq (solid : t.Solid) :
    t.byteRange = (t.start, t.start + t.numel * t.elementSize) := by
  rw [byteRange, if_neg solid.pos.ne', maxOffset_of_isDense solid.pos solid.dense]

theorem byteRange_lt (solid : t.Solid) : t.byteRange.1 < t.byteRange.2 := by
  rw [solid.byteRange_eq]
  exact Nat.lt_add_of_pos_right (Nat.mul_pos solid.pos t.elementSize_pos)

/-- The elements occupy the whole byte range. -/
theorem mem_footprint (solid : t.Solid) {p : Nat × Nat} :
    p ∈ t.footprint ↔ p.1 = t.storage ∧ t.byteRange.1 ≤ p.2 ∧ p.2 < t.byteRange.2 := by
  constructor
  · intro occupied
    exact Addresses.in_byteRange occupied
  · intro inRange
    rw [solid.byteRange_eq, start, ← Nat.add_mul] at inRange
    have hfirst : t.offset ≤ p.2 / t.elementSize :=
      (Nat.le_div_iff_mul_le t.elementSize_pos).mpr inRange.2.1
    have hlast : p.2 / t.elementSize < t.offset + t.numel :=
      (Nat.div_lt_iff_lt_mul t.elementSize_pos).mpr inRange.2.2
    have hposition : p.2 / t.elementSize - t.offset < t.numel := by omega
    obtain ⟨c, hc, hreached⟩ := (bijOn_position solid.pos solid.dense).surjOn hposition
    refine ⟨c, hc, occupies_iff.mpr ⟨inRange.1, ?_⟩⟩
    rw [hreached]
    omega

/-- Bytes among those of another view have their first and their last one there. -/
theorem range_le_of_subset (ha : a.Solid) (hb : b.Solid) (sub : a.footprint ⊆ b.footprint) :
    a.storage = b.storage ∧ b.byteRange.1 ≤ a.byteRange.1 ∧ a.byteRange.2 ≤ b.byteRange.2 := by
  have hlt := ha.byteRange_lt
  have hfirst : (a.storage, a.byteRange.1) ∈ a.footprint :=
    ha.mem_footprint.mpr ⟨rfl, Nat.le_refl _, hlt⟩
  have hlast : (a.storage, a.byteRange.2 - 1) ∈ a.footprint :=
    ha.mem_footprint.mpr ⟨rfl, by dsimp only; omega, by dsimp only; omega⟩
  have hfirst := hb.mem_footprint.mp (sub hfirst)
  have hlast := hb.mem_footprint.mp (sub hlast)
  dsimp only at hfirst hlast
  exact ⟨hfirst.1, hfirst.2.1, by omega⟩

theorem footprint_eq_iff (ha : a.Solid) (hb : b.Solid) :
    a.footprint = b.footprint ↔ a.storage = b.storage ∧ a.byteRange = b.byteRange := by
  constructor
  · intro same
    have hab := ha.range_le_of_subset hb same.subset
    have hba := hb.range_le_of_subset ha same.superset
    exact ⟨hab.1, Prod.ext (Nat.le_antisymm hba.2.1 hab.2.1) (Nat.le_antisymm hab.2.2 hba.2.2)⟩
  · intro same
    ext p
    rw [ha.mem_footprint, hb.mem_footprint, same.1, same.2]

theorem meets_iff (ha : a.Solid) (hb : b.Solid) :
    (a.footprint ∩ b.footprint).Nonempty ↔ a.storage = b.storage ∧
      a.byteRange.1 < b.byteRange.2 ∧ b.byteRange.1 < a.byteRange.2 := by
  constructor
  · intro meets
    obtain ⟨p, hpa, hpb⟩ := meets
    rw [ha.mem_footprint] at hpa
    rw [hb.mem_footprint] at hpb
    exact ⟨hpa.1.symm.trans hpb.1, by omega, by omega⟩
  · intro meets
    have hlta := ha.byteRange_lt
    have hltb := hb.byteRange_lt
    -- The range that begins later begins in the other one.
    refine ⟨(a.storage, max a.byteRange.1 b.byteRange.1), ?_, ?_⟩
    · exact ha.mem_footprint.mpr ⟨rfl, by dsimp only; omega, by dsimp only; omega⟩
    · exact hb.mem_footprint.mpr ⟨meets.1, by dsimp only; omega, by dsimp only; omega⟩

end Solid

end Tensor

namespace Overlap

/-- What an answer says of two views and of the bytes that their elements occupy. -/
def Describes (a b : Tensor) : Overlap → Prop
  | .full => a.Solid ∧ b.Solid ∧ a.footprint = b.footprint
  | .partially =>
    a.Solid ∧ b.Solid ∧ (a.footprint ∩ b.footprint).Nonempty ∧ a.footprint ≠ b.footprint
  | .tooHard => 0 < a.numel ∧ 0 < b.numel ∧ (a.isDense = false ∨ b.isDense = false)
  | .no =>
    (a.numel = 0 ∨ b.numel = 0) ∨ a.Solid ∧ b.Solid ∧ Disjoint a.footprint b.footprint

variable {a b : Tensor} {o : Overlap}

theorem Describes.symm (described : Describes a b o) : Describes b a o := by
  cases o with
  | full => exact ⟨described.2.1, described.1, described.2.2.symm⟩
  | partially =>
    refine ⟨described.2.1, described.1, ?_, described.2.2.2.symm⟩
    rw [Set.inter_comm]
    exact described.2.2.1
  | no =>
    cases described with
    | inl hempty => exact .inl hempty.symm
    | inr hboth => exact .inr ⟨hboth.2.1, hboth.1, hboth.2.2.symm⟩
  | tooHard => exact ⟨described.2.1, described.1, described.2.2.symm⟩

theorem exists_describes (a b : Tensor) : ∃ o, Describes a b o := by
  by_cases hempty : a.numel = 0 ∨ b.numel = 0
  · exact ⟨.no, .inl hempty⟩
  have ha : 0 < a.numel := Nat.pos_of_ne_zero fun hzero => hempty (.inl hzero)
  have hb : 0 < b.numel := Nat.pos_of_ne_zero fun hzero => hempty (.inr hzero)
  cases hda : a.isDense with
  | false => exact ⟨.tooHard, ha, hb, .inl hda⟩
  | true =>
    cases hdb : b.isDense with
    | false => exact ⟨.tooHard, ha, hb, .inr hdb⟩
    | true =>
      by_cases hsame : a.footprint = b.footprint
      · exact ⟨.full, ⟨ha, hda⟩, ⟨hb, hdb⟩, hsame⟩
      by_cases hmeet : (a.footprint ∩ b.footprint).Nonempty
      · exact ⟨.partially, ⟨ha, hda⟩, ⟨hb, hdb⟩, hmeet, hsame⟩
      · rw [Set.not_nonempty_iff_eq_empty, ← Set.disjoint_iff_inter_eq_empty] at hmeet
        exact ⟨.no, .inr ⟨⟨ha, hda⟩, ⟨hb, hdb⟩, hmeet⟩⟩

/-- Of dense views with elements, the test compares storages and ranges. -/
theorem overlap_of_solid (ha : a.Solid) (hb : b.Solid) :
    a.overlap b =
      if a.storage ≠ b.storage then .no
      else if a.byteRange = b.byteRange then .full
      else if a.byteRange.1 < b.byteRange.2 ∧ b.byteRange.1 < a.byteRange.2 then .partially
      else .no := by
  have hpositive : ¬(a.numel = 0 ∨ b.numel = 0) := not_or.mpr ⟨ha.pos.ne', hb.pos.ne'⟩
  rw [Tensor.overlap, if_neg hpositive, ha.dense, hb.dense]
  rfl

theorem overlap_of_describes (described : Describes a b o) : a.overlap b = o := by
  cases o with
  | full =>
    obtain ⟨ha, hb, hsame⟩ := described
    have hranges := (ha.footprint_eq_iff hb).mp hsame
    rw [overlap_of_solid ha hb, if_neg (not_not.mpr hranges.1), if_pos hranges.2]
  | partially =>
    obtain ⟨ha, hb, hmeet, hdiffer⟩ := described
    have hranges := (ha.meets_iff hb).mp hmeet
    have hunequal : ¬a.byteRange = b.byteRange := fun hrange =>
      hdiffer ((ha.footprint_eq_iff hb).mpr ⟨hranges.1, hrange⟩)
    rw [overlap_of_solid ha hb, if_neg (not_not.mpr hranges.1), if_neg hunequal, if_pos hranges.2]
  | tooHard =>
    obtain ⟨ha, hb, hgapped⟩ := described
    have hpositive : ¬(a.numel = 0 ∨ b.numel = 0) := not_or.mpr ⟨ha.ne', hb.ne'⟩
    rw [Tensor.overlap, if_neg hpositive, if_pos (by simpa using hgapped)]
  | no =>
    cases described with
    | inl hempty => exact if_pos hempty
    | inr hboth =>
      obtain ⟨ha, hb, hdisjoint⟩ := hboth
      have hmeet := (ha.meets_iff hb).not.mp (Set.not_nonempty_iff_eq_empty.mpr hdisjoint.inter_eq)
      have hlta := ha.byteRange_lt
      rw [overlap_of_solid ha hb]
      by_cases hstorage : a.storage = b.storage
      · have hunequal : ¬a.byteRange = b.byteRange := fun hrange =>
          hmeet ⟨hstorage, hrange ▸ hlta, hrange ▸ hlta⟩
        rw [if_neg (not_not.mpr hstorage), if_neg hunequal, if_neg fun h => hmeet ⟨hstorage, h⟩]
      · rw [if_pos hstorage]

/-- The test gives the answer that describes the views. -/
theorem overlap_eq_iff : a.overlap b = o ↔ Describes a b o := by
  constructor
  · intro answered
    obtain ⟨p, hp⟩ := exists_describes a b
    rw [overlap_of_describes hp] at answered
    exact answered ▸ hp
  · exact overlap_of_describes

theorem overlap_comm (a b : Tensor) : a.overlap b = b.overlap a :=
  overlap_eq_iff.mpr (overlap_eq_iff.mp rfl).symm

theorem Describes.disjoint (described : Describes a b .no) : Disjoint a.footprint b.footprint := by
  cases described with
  | inl hempty =>
    cases hempty with
    | inl ha =>
      rw [Tensor.footprint_of_empty ha]
      exact Set.empty_disjoint _
    | inr hb =>
      rw [Tensor.footprint_of_empty hb]
      exact Set.disjoint_empty _
  | inr hboth => exact hboth.2.2

end Overlap

/-- Moving along an axis that stands still leads to the same element. -/
theorem Axis.exists_repeated {axes : List Axis} {a : Axis} (pos : 0 < volume (extents axes))
    (ha : a ∈ axes) (several : 1 < a.extent) (still : a.stride = 0) :
    ∃ c e, Within (extents axes) c ∧ Within (extents axes) e ∧ c ≠ e ∧
      position axes c = position axes e := by
  induction axes with
  | nil => exact absurd ha (by simp)
  | cons b axes ih =>
    rw [extents_cons, volume_cons] at pos
    have hfirst : 0 < b.extent := Nat.pos_of_mul_pos_right pos
    have hrest : 0 < volume (extents axes) := Nat.pos_of_mul_pos_left pos
    cases List.mem_cons.mp ha with
    | inl heq =>
      obtain ⟨z, hz, -⟩ := exists_position_eq_zero hrest
      rw [heq] at several still
      exact ⟨0 :: z, 1 :: z, ⟨hfirst, hz⟩, ⟨several, hz⟩, by simp, by simp [position, still]⟩
    | inr hmem =>
      obtain ⟨c, e, hc, he, hne, hsame⟩ := ih hrest hmem
      exact ⟨0 :: c, 0 :: e, ⟨hfirst, hc⟩, ⟨hfirst, he⟩, by simpa using hne, by
        simp [position, hsame]⟩

namespace Tensor
variable {t : Tensor}

theorem distinct_of_isDense (dense : t.isDense = true) : t.Distinct := by
  intro c e hc he same
  exact (bijOn_position hc.volume_pos dense).injOn hc he same

theorem distinct_of_internalOverlap_no (h : t.internalOverlap = .no) : t.Distinct := by
  unfold internalOverlap at h
  split at h
  · rename_i dense
    exact distinct_of_isDense dense
  · split at h <;> exact absurd h (by simp)

theorem repeated_of_internalOverlap_yes (h : t.internalOverlap = .yes) :
    ∃ c e, Within t.dims c ∧ Within t.dims e ∧ c ≠ e ∧
      Axis.position t.axes c = Axis.position t.axes e := by
  unfold internalOverlap at h
  split at h
  · exact absurd h (by simp)
  · rename_i gapped
    split at h
    · rename_i stands
      -- Without elements the view would be dense.
      have hpos : 0 < t.numel := by
        rw [isDense, Bool.or_eq_true, not_or, beq_iff_eq] at gapped
        exact Nat.pos_of_ne_zero gapped.1
      obtain ⟨a, ha, hstill⟩ := List.any_eq_true.mp stands
      rw [Bool.and_eq_true, decide_eq_true_eq, beq_iff_eq] at hstill
      exact Axis.exists_repeated hpos ha hstill.1 hstill.2
    · exact absurd h (by simp)

end Tensor

/-- The overlap tests are exact on dense views and never wrong. Of views in their storages, with
counts of elements and of bytes that are words: each answer on two of them holds in either order
and says how the bytes of their elements lie, an answer on a single one says whether two coordinates
share an element, and words give the same answers. -/
theorem overlap_classifies {a b : Tensor} {h : Heap} (ha : a.InWords h) (hb : b.InWords h) :
    a.overlap b = b.overlap a ∧
    (a.overlap b = .full ↔ a.Solid ∧ b.Solid ∧ a.footprint = b.footprint) ∧
    (a.overlap b = .partially ↔
      a.Solid ∧ b.Solid ∧ (a.footprint ∩ b.footprint).Nonempty ∧ a.footprint ≠ b.footprint) ∧
    (a.overlap b = .tooHard ↔
      0 < a.numel ∧ 0 < b.numel ∧ (a.isDense = false ∨ b.isDense = false)) ∧
    (a.overlap b = .no → Disjoint a.footprint b.footprint) ∧
    (a.internalOverlap = .no → a.Distinct) ∧
    (a.internalOverlap = .yes → ∃ c e, Within a.dims c ∧ Within a.dims e ∧ c ≠ e ∧
      Axis.position a.axes c = Axis.position a.axes e) ∧
    a.overlapInWords b = a.overlap b ∧ a.internalOverlapInWords = a.internalOverlap := by
  refine ⟨Overlap.overlap_comm a b, Overlap.overlap_eq_iff, Overlap.overlap_eq_iff,
    Overlap.overlap_eq_iff, ?_, Tensor.distinct_of_internalOverlap_no,
    Tensor.repeated_of_internalOverlap_yes, ha.sized.overlapInWords_eq hb.sized,
    Tensor.internalOverlapInWords_of_le ha.count⟩
  intro answered
  exact (Overlap.overlap_eq_iff.mp answered).disjoint

/-- Twelve elements of two bytes. -/
def rowsHeap : Heap := ⟨#[Array.replicate 24 0]⟩

/-- Two rows of three elements. -/
def rowsAt (offset : Nat) : Tensor := ⟨0, offset, [⟨2, 3⟩, ⟨3, 1⟩], .i16⟩

/-- The first two rows, column by column. -/
def columns : Tensor := ⟨0, 0, [⟨3, 1⟩, ⟨2, 3⟩], .i16⟩

/-- The first row twice. -/
def repeatedRow : Tensor := ⟨0, 0, [⟨2, 0⟩, ⟨3, 1⟩], .i16⟩

theorem overlap_classifies_rows :
    ((rowsAt 0).InWords rowsHeap ∧ (rowsAt 3).InWords rowsHeap ∧ (rowsAt 6).InWords rowsHeap ∧
      columns.InWords rowsHeap ∧ repeatedRow.InWords rowsHeap) ∧
    ((rowsAt 0).Solid ∧ columns.Solid ∧ (rowsAt 0).footprint = columns.footprint) ∧
    (((rowsAt 0).footprint ∩ (rowsAt 3).footprint).Nonempty ∧
      (rowsAt 0).footprint ≠ (rowsAt 3).footprint) ∧
    Disjoint (rowsAt 0).footprint (rowsAt 6).footprint ∧ (rowsAt 0).Distinct ∧
    (rowsAt 0).overlap repeatedRow = .tooHard ∧
    (∃ c e, Within [2, 3] c ∧ Within [2, 3] e ∧ c ≠ e ∧
      Axis.position repeatedRow.axes c = Axis.position repeatedRow.axes e) ∧
    (rowsAt 0).overlapInWords (rowsAt 6) = .no := by
  have hwords (offset : Nat) (room : offset ≤ 6) : (rowsAt offset).InWords rowsHeap := by
    have hstorage : rowsHeap.capacity 0 ≤ wordMax := by decide
    have hcount : volume [2, 3] ≤ wordMax := by decide
    refine ⟨Tensor.inside_iff.mpr fun _ => ?_, hstorage, hcount⟩
    change (offset + 5 + 1) * 2 ≤ 24
    omega
  have hcolumns : columns.InWords rowsHeap :=
    ⟨Tensor.inside_iff.mpr fun _ => by decide, by decide, by decide⟩
  have hrow : repeatedRow.InWords rowsHeap :=
    ⟨Tensor.inside_iff.mpr fun _ => by decide, by decide, by decide⟩
  have hfirst := hwords 0 (by decide)
  have hsecond := hwords 3 (by decide)
  have hthird := hwords 6 (by decide)
  have hfull : (rowsAt 0).overlap columns = .full := by cbv
  have hpartial : (rowsAt 0).overlap (rowsAt 3) = .partially := by cbv
  have hno : (rowsAt 0).overlap (rowsAt 6) = .no := by cbv
  have hgapped : repeatedRow.isDense = false := by cbv
  have honce : (rowsAt 0).internalOverlap = .no := by cbv
  have htwice : repeatedRow.internalOverlap = .yes := by cbv
  obtain ⟨-, hsame, -⟩ := overlap_classifies hfirst hcolumns
  obtain ⟨-, -, hmeet, -⟩ := overlap_classifies hfirst hsecond
  obtain ⟨-, -, -, -, hapart, hdistinct, -, hcomputed, -⟩ := overlap_classifies hfirst hthird
  obtain ⟨-, -, -, hhard, -⟩ := overlap_classifies hfirst hrow
  obtain ⟨-, -, -, -, -, -, hrepeated, -⟩ := overlap_classifies hrow hrow
  exact ⟨⟨hfirst, hsecond, hthird, hcolumns, hrow⟩, hsame.mp hfull, (hmeet.mp hpartial).2.2,
    hapart hno, hdistinct honce, hhard.mpr ⟨by decide, by decide, .inr hgapped⟩, hrepeated htwice,
    hcomputed.trans hno⟩

end TensorConcat
