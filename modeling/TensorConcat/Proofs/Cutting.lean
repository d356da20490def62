import TensorConcat.Proofs.Batching

/-!
# Descriptors do not depend on the cut

The inputs of a launch are described batch by batch, and each batch begins at the offset that the
one before it has left. Describing one batch after the other is describing them in one go, so
however a list is cut, it gets the same records or is turned down for the same reason. The records
are those of the sums of extents, and there are none just when an extent, a number of elements or
one of these sums is not a word.
-/

namespace TensorConcat

open Number

/-- Describes batches one after the other. -/
def describeBatches (axis : Nat) (offset : UInt32) :
    List (List Tensor) → Except Failure (List (List (Descriptor Pointer)) × UInt32)
  | [] => .ok ([], offset)
  | batch :: rest => do
    let (records, next) ← describeBatch axis offset batch
    let (later, last) ← describeBatches axis next rest
    return (records :: later, last)

/-- Records of several batches, put together. -/
def rejoined (p : List (List (Descriptor Pointer)) × UInt32) : List (Descriptor Pointer) × UInt32 :=
  (p.1.flatten, p.2)

/-- What the record of each input says: where the input is, what the inputs before it take along the
axis, its extent there, and its number of elements. -/
structure Describes (axis : Nat) (inputs : List Tensor) (records : List (Descriptor Pointer)) :
    Prop where
  length : records.length = inputs.length
  each : ∀ (k : Nat) (t : Tensor), inputs[k]? = some t → ∃ d, records[k]? = some d ∧
    d.input = t.pointer ∧ d.offset.toNat = totalExtent axis (inputs.take k) ∧
    d.dimSize.toNat = t.extentAt axis ∧ d.elements.toNat = t.numel

/-- Some number of a record, or the offset after it, is no word. -/
def Overflows (axis : Nat) (inputs : List Tensor) : Prop :=
  ∃ (k : Nat) (t : Tensor), inputs[k]? = some t ∧
    (2 ^ 32 ≤ t.extentAt axis ∨ 2 ^ 32 ≤ t.numel ∨
      2 ^ 32 ≤ totalExtent axis (inputs.take (k + 1)))

theorem describeBatch_append (axis : Nat) (offset : UInt32) (ts us : List Tensor) :
    describeBatch axis offset (ts ++ us) = (do
      let (records, next) ← describeBatch axis offset ts
      let (later, last) ← describeBatch axis next us
      return (records ++ later, last)) := by
  induction ts generalizing offset with
  | nil => exact (bind_pure (describeBatch axis offset us)).symm
  | cons t ts ih =>
    simp only [List.cons_append, describeBatch, ih, bind_assoc, pure_bind]

/-- Batches are described as the whole list is. -/
theorem map_describeBatches (axis : Nat) (offset : UInt32) (batches : List (List Tensor)) :
    rejoined <$> describeBatches axis offset batches =
      describeBatch axis offset batches.flatten := by
  induction batches generalizing offset with
  | nil => rfl
  | cons batch rest ih =>
    rw [List.flatten_cons, describeBatch_append]
    simp only [describeBatches, ← ih, map_bind, map_pure, bind_map_left]
    rfl

theorem lengths_describeBatches {axis : Nat} {offset last : UInt32}
    {batches : List (List Tensor)}
    {staged : List (List (Descriptor Pointer))}
    (described : describeBatches axis offset batches = .ok (staged, last)) :
    staged.map List.length = batches.map List.length := by
  induction batches generalizing offset staged last with
  | nil =>
    obtain ⟨rfl, -⟩ := Prod.mk.inj (Except.ok.inj described)
    rfl
  | cons batch rest ih =>
    obtain ⟨⟨records, next⟩, hrecords, described⟩ := checked_bind.mp described
    obtain ⟨⟨later, last'⟩, hlater, described⟩ := checked_bind.mp described
    obtain ⟨rfl, -⟩ := Prod.mk.inj (Except.ok.inj described)
    rw [List.map_cons, List.map_cons, length_describeBatch hrecords, ih hlater]

/-- A number that is no word is turned down. -/
theorem indexWord_cases (n : Nat) :
    (∃ cause, indexWord n = .error (.backend (.execution cause))) ∨
      n < 2 ^ 32 ∧ indexWord n = .ok (UInt32.ofNat n) := by
  unfold indexWord
  split
  · rename_i hword
    exact .inr ⟨hword, rfl⟩
  · exact .inl ⟨_, rfl⟩

/-- An offset that is no word is turned down. -/
theorem nextOffset_cases (offset size : UInt32) :
    (∃ cause, nextOffset offset size = .error (.backend (.execution cause))) ∨
      (offset + size).toNat = offset.toNat + size.toNat ∧
        nextOffset offset size = .ok (offset + size) := by
  unfold nextOffset
  split
  · rename_i hword
    exact .inr ⟨by rw [UInt32.toNat_add, Nat.mod_eq_of_lt hword], rfl⟩
  · exact .inl ⟨_, rfl⟩

section Overflow
variable {axis : Nat} {inputs : List Tensor}

theorem not_overflows_iff : ¬Overflows axis inputs ↔
    (∀ t ∈ inputs, t.numel < 2 ^ 32) ∧ totalExtent axis inputs < 2 ^ 32 := by
  constructor
  · intro fits
    refine ⟨fun t ht => ?_, ?_⟩
    · obtain ⟨k, hk⟩ := List.mem_iff_getElem?.mp ht
      exact Nat.not_le.mp fun large => fits ⟨k, t, hk, .inr (.inl large)⟩
    · rcases List.eq_nil_or_concat inputs with rfl | ⟨before, t, rfl⟩
      · exact Nat.two_pow_pos 32
      · refine Nat.not_le.mp fun large => fits ⟨before.length, t, by simp, .inr (.inr ?_)⟩
        rwa [List.take_of_length_le (by simp)]
  · rintro ⟨small, total⟩ ⟨k, t, hk, overflow⟩
    have hnumel := small t (List.mem_of_getElem? hk)
    have hend := @totalExtent_take_add_le axis k inputs t hk
    rw [totalExtent_take_succ hk] at overflow
    omega

/-- Parts that do not fit are turned down, for an extent, a number of elements or an offset. -/
theorem describeBatch_overflow {offset : UInt32} (haxis : ∀ t ∈ inputs, axis < t.dims.length)
    (overflow : ¬((∀ t ∈ inputs, t.numel < 2 ^ 32) ∧
      offset.toNat + totalExtent axis inputs < 2 ^ 32)) :
    ∃ cause, describeBatch axis offset inputs = .error (.backend (.execution cause)) := by
  induction inputs generalizing offset with
  | nil => exact absurd ⟨by simp, offset.toNat_lt⟩ overflow
  | cons t ts ih =>
    obtain ⟨a, ha, hextent⟩ := Tensor.axis_eq (haxis t (by simp))
    rw [totalExtent_cons, ← hextent, List.forall_mem_cons] at overflow
    rw [describeBatch, ha]
    rcases indexWord_cases a.extent with ⟨cause, hsize⟩ | ⟨hdim, hsize⟩
    · refine ⟨cause, ?_⟩
      simp only [hsize, bind, Except.bind]
    rcases indexWord_cases t.numel with ⟨cause, hcount⟩ | ⟨hnumel, hcount⟩
    · refine ⟨cause, ?_⟩
      simp only [hsize, hcount, bind, Except.bind]
    rcases nextOffset_cases offset (UInt32.ofNat a.extent) with ⟨cause, hnext⟩ | ⟨hsum, hnext⟩
    · refine ⟨cause, ?_⟩
      simp only [hsize, hcount, hnext, bind, Except.bind]
    -- The head fits, so it is the rest that does not.
    rw [toNat_ofNat_of_lt hdim] at hsum
    obtain ⟨cause, hrest⟩ := @ih (offset + UInt32.ofNat a.extent) (fun u hu => haxis u (by simp [hu]))
      fun fits => overflow ⟨⟨hnumel, fits.1⟩, by have := fits.2; omega⟩
    refine ⟨cause, ?_⟩
    simp only [hsize, hcount, hnext, hrest, bind, Except.bind]

theorem describes_placed (fits : ¬Overflows axis inputs) :
    Describes axis inputs ((placed axis 0 inputs).map (recordOf axis)) := by
  obtain ⟨small, total⟩ := not_overflows_iff.mp fits
  refine ⟨by rw [List.length_map, length_placed], fun k t hk => ?_⟩
  have hend := @totalExtent_take_add_le axis k inputs t hk
  have hoffset : totalExtent axis (inputs.take k) < 2 ^ 32 := by omega
  have hextent : t.extentAt axis < 2 ^ 32 := by omega
  have hrecord : ((placed axis 0 inputs).map (recordOf axis))[k]? =
      some (recordOf axis (totalExtent axis (inputs.take k), t)) := by
    rw [List.getElem?_map, getElem?_placed, hk, Nat.zero_add]
    rfl
  exact ⟨_, hrecord, rfl, toNat_ofNat_of_lt hoffset, toNat_ofNat_of_lt hextent,
    toNat_ofNat_of_lt (small t (List.mem_of_getElem? hk))⟩

end Overflow

section Batches
variable {axis : Nat} {batches : List (List Tensor)}
  (joined : ∀ t ∈ batches.flatten, axis < t.dims.length)
include joined

theorem describeBatches_eq (fits : ¬Overflows axis batches.flatten) :
    ∃ staged last, describeBatches axis 0 batches = .ok (staged, last) ∧
      staged.flatten = (placed axis 0 batches.flatten).map (recordOf axis) := by
  obtain ⟨small, total⟩ := not_overflows_iff.mp fits
  have hlist := @describeBatch_eq axis 0 batches.flatten joined small (by rwa [Nat.zero_add])
  have hwhole := (map_describeBatches axis 0 batches).trans hlist
  obtain ⟨⟨staged, last⟩, hstaged, hrecords⟩ := checked_map.mp hwhole
  exact ⟨staged, last, hstaged, congrArg Prod.fst hrecords⟩

theorem describeBatches_overflow (overflow : Overflows axis batches.flatten) :
    ∃ cause, describeBatches axis 0 batches = .error (.backend (.execution cause)) := by
  have hlarge := mt not_overflows_iff.mpr (not_not.mpr overflow)
  obtain ⟨cause, hlist⟩ :=
    @describeBatch_overflow axis batches.flatten 0 joined (by rwa [UInt32.toNat_zero, Nat.zero_add])
  exact ⟨cause, checked_map_error.mp ((map_describeBatches axis 0 batches).trans hlist)⟩

end Batches

/-- Rows of two elements, in a storage of their own. -/
def rowsOfTwo (rows : Nat) : Tensor := ⟨rows, 0, [⟨rows, 2⟩, ⟨2, 1⟩], .i32⟩

/-- Half as many rows as there are words, of no element. -/
def hollowRows : Tensor := ⟨0, 0, [⟨0x80000000, 0⟩, ⟨0, 1⟩], .u8⟩

end TensorConcat
