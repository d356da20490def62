import TensorConcat.Concat.Descriptor
import TensorConcat.Proofs.Batching
import TensorConcat.Proofs.Interleaving

/-!
# Staging buffers as bytes

A staging buffer is a block of bytes that holds one record after the other. It starts out as zeros,
staging writes the bytes of a list over its front, and a record is read by taking its bytes out and
decoding them. Records that survive being written as bytes, a list of which keeps to its own part of
the block, are therefore read as they have been staged.
-/

namespace TensorConcat

open Number

/-- Records that are written as a fixed number of bytes, of which the zero record has only zeros. -/
class PlainRecord (α : Type) extends Record α where
  encode : α → List UInt8
  decode : List UInt8 → α
  length_encode (a : α) : (encode a).length = size
  decode_encode (a : α) : decode (encode a) = a
  encode_zero : encode zero = List.replicate size 0

namespace Number.LittleEndian

theorem ofNat_decode_uint64 (w : UInt64) : UInt64.ofNat (decode (encode 8 w.toNat)) = w := by
  rw [decode_encode, Nat.mod_eq_of_lt w.toNat_lt, UInt64.ofNat_toNat]

theorem ofNat_decode_uint32 (w : UInt32) : UInt32.ofNat (decode (encode 4 w.toNat)) = w := by
  rw [decode_encode, Nat.mod_eq_of_lt w.toNat_lt, UInt32.ofNat_toNat]

end Number.LittleEndian

instance : PlainRecord UInt64 where
  encode w := LittleEndian.encode 8 w.toNat
  decode bytes := .ofNat (LittleEndian.decode bytes)
  length_encode _ := LittleEndian.length_encode ..
  decode_encode := LittleEndian.ofNat_decode_uint64
  encode_zero := rfl

/-- The padding at the end of a descriptor is not looked at. -/
def Descriptor.decode (bytes : List UInt8) : Descriptor UInt64 where
  input := .ofNat (LittleEndian.decode (bytes.take 8))
  offset := .ofNat (LittleEndian.decode ((bytes.drop 8).take 4))
  dimSize := .ofNat (LittleEndian.decode ((bytes.drop 12).take 4))
  elements := .ofNat (LittleEndian.decode ((bytes.drop 16).take 4))

theorem Descriptor.decode_encode (d : Descriptor UInt64) : decode d.encode = d := by
  have hinput : d.encode.take 8 = LittleEndian.encode 8 d.input.toNat := rfl
  have hoffset : (d.encode.drop 8).take 4 = LittleEndian.encode 4 d.offset.toNat := rfl
  have hdimSize : (d.encode.drop 12).take 4 = LittleEndian.encode 4 d.dimSize.toNat := rfl
  have helements : (d.encode.drop 16).take 4 = LittleEndian.encode 4 d.elements.toNat := rfl
  rw [decode, hinput, hoffset, hdimSize, helements, LittleEndian.ofNat_decode_uint64,
    LittleEndian.ofNat_decode_uint32, LittleEndian.ofNat_decode_uint32,
    LittleEndian.ofNat_decode_uint32]

instance : PlainRecord (Descriptor UInt64) where
  encode := Descriptor.encode
  decode := Descriptor.decode
  length_encode := Descriptor.length_encode
  decode_encode := Descriptor.decode_encode
  encode_zero := rfl

namespace StagingBuffer
variable {α : Type}

section Records
variable [Record α] {b : StagingBuffer α} {items : List α}

theorem record_empty (capacity n : Nat) :
    (⟨capacity, #[]⟩ : StagingBuffer α).record n = Record.zero := by
  simp [record]

/-- A staged list replaces the records at the front. -/
theorem record_put (b : StagingBuffer α) (items : List α) (n : Nat) :
    (b.put items).record n = items[n]?.getD (b.record n) := by
  unfold record put
  rw [Array.getD_eq_getD_getElem?, Array.getElem?_append]
  by_cases hn : n < items.length
  · rw [if_pos (by simpa using hn)]
    simp [hn]
  · rw [if_neg (by simpa using hn), List.getElem?_eq_none (by omega), Option.getD_none,
      Array.getElem?_extract, List.size_toArray, Nat.min_self]
    by_cases hold : n < b.staged.size
    · rw [if_pos (by omega), Nat.add_sub_cancel' (by omega), Array.getD_eq_getD_getElem?]
    · rw [if_neg (by omega), Array.getD_eq_getD_getElem?, Array.getElem?_eq_none (by omega)]

theorem map_record_put (room : items.length ≤ b.capacity) :
    (List.range items.length).map (b.put items).record = items := by
  have hslice := slice_put room
  have hroom : ¬(b.put items).capacity < items.length := Nat.not_lt.mpr room
  rw [slice, if_neg hroom] at hslice
  exact Except.ok.inj hslice

end Records

section Bytes
variable [PlainRecord α] {b : StagingBuffer α} {items : List α} {n : Nat}

/-- The bytes of the block, record after record. -/
def image (b : StagingBuffer α) : List UInt8 :=
  ((List.range b.capacity).map b.record).flatMap PlainRecord.encode

/-- A block with bytes written over its front. -/
def overwrite (bytes block : List UInt8) : List UInt8 := bytes ++ block.drop bytes.length

theorem length_flatMap_encode (items : List α) :
    (items.flatMap PlainRecord.encode).length = items.length * Record.size α := by
  induction items with
  | nil => simp
  | cons a items ih =>
    rw [List.flatMap_cons, List.length_append, ih, PlainRecord.length_encode, List.length_cons,
      Nat.succ_mul, Nat.add_comm]

theorem image_empty (capacity : Nat) :
    (⟨capacity, #[]⟩ : StagingBuffer α).image =
      List.replicate (capacity * Record.size α) 0 := by
  have hrecords : (List.range capacity).map (⟨capacity, #[]⟩ : StagingBuffer α).record =
      List.replicate capacity Record.zero := by
    rw [List.eq_replicate_iff, List.length_map, List.length_range, List.forall_mem_map]
    exact ⟨rfl, fun n _ => record_empty capacity n⟩
  rw [image, hrecords, List.flatMap_replicate, PlainRecord.encode_zero,
    List.flatten_replicate_replicate]

/-- The bytes before a record, and those from it on. -/
theorem image_add {front rest : Nat} (h : b.capacity = front + rest) :
    b.image = ((List.range front).map b.record).flatMap PlainRecord.encode ++
      ((List.range rest).map fun i => b.record (front + i)).flatMap PlainRecord.encode := by
  rw [image, h, List.range_add, List.map_append, List.flatMap_append, List.map_map]
  rfl

/-- Staging writes the bytes of the list over the front of the block. -/
theorem image_put (room : items.length ≤ b.capacity) :
    (b.put items).image = overwrite (items.flatMap PlainRecord.encode) b.image := by
  obtain ⟨rest, hrest⟩ := Nat.exists_eq_add_of_le room
  have hcapacity : (b.put items).capacity = items.length + rest := hrest
  have hlength : (((List.range items.length).map b.record).flatMap PlainRecord.encode).length =
      (items.flatMap PlainRecord.encode).length := by
    rw [length_flatMap_encode, length_flatMap_encode, List.length_map, List.length_range]
  have hback (i : Nat) : (b.put items).record (items.length + i) = b.record (items.length + i) := by
    rw [record_put, List.getElem?_eq_none (Nat.le_add_right ..), Option.getD_none]
  rw [image_add hcapacity, map_record_put room, overwrite, image_add hrest, List.drop_left' hlength]
  simp only [hback]

/-- The bytes of one record. -/
theorem take_drop_image (hn : n < b.capacity) :
    (b.image.drop (n * Record.size α)).take (Record.size α) = PlainRecord.encode (b.record n) := by
  have hlt : n < ((List.range b.capacity).map b.record).length := by
    rwa [List.length_map, List.length_range]
  have hpiece := extract_flatMap (fun a _ => PlainRecord.length_encode a) hlt
  rwa [Array.toList_extract, List.extract_eq_take_drop, Nat.succ_mul, Nat.add_sub_cancel_left,
    List.getElem_map, List.getElem_range] at hpiece

theorem decode_image (hn : n < b.capacity) :
    PlainRecord.decode ((b.image.drop (n * Record.size α)).take (Record.size α)) = b.record n := by
  rw [take_drop_image hn, PlainRecord.decode_encode]

end Bytes

end StagingBuffer

end TensorConcat
