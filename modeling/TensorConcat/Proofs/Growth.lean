import TensorConcat.Proofs.Separation

/-!
# What resizing keeps

A resized output keeps its storage, or gets a larger one that begins with the bytes of the
old one. Either way no storage changes that was there before, so a view that was known
reads what it has read before.
-/

namespace TensorConcat

namespace Heap
variable {h k l : Heap}

/-- Every storage of the first heap is in the second one, with the same bytes. -/
structure Extends (h k : Heap) : Prop where
  count : h.storages.size ≤ k.storages.size
  bytes : ∀ s < h.storages.size, k.bytes s = h.bytes s

theorem Extends.refl (h : Heap) : h.Extends h := ⟨Nat.le_refl _, fun _ _ => rfl⟩

theorem Extends.trans (first : h.Extends k) (second : k.Extends l) : h.Extends l where
  count := first.count.trans second.count
  bytes s hs := by rw [second.bytes s (hs.trans_le first.count), first.bytes s hs]

theorem Extends.capacity (grown : h.Extends k) {s : Nat} (hs : s < h.storages.size) :
    k.capacity s = h.capacity s := congrArg Array.size (grown.bytes s hs)

theorem Extends.byte (grown : h.Extends k) {s : Nat} (hs : s < h.storages.size) (i : Nat) :
    k.byte s i = h.byte s i := by rw [Heap.byte, grown.bytes s hs, Heap.byte]

theorem Extends.push (h : Heap) (block : Array UInt8) : h.Extends (h.push block).2 where
  count := by simp [Heap.push]
  bytes s hs := by rw [bytes_push, if_neg (Nat.ne_of_lt hs)]

/-- A new storage with room for the old bytes begins with them and goes on with zeros. -/
theorem allocate_spec {old : Array UInt8} {count s : Nat} (room : old.size ≤ count)
    (hok : h.allocate old count = .ok (s, k)) :
    s = h.storages.size ∧ k.storages.size = h.storages.size + 1 ∧ h.Extends k ∧
      ∀ i, k.byte s i = old.getD i 0 := by
  unfold allocate at hok
  split at hok
  · have hpush := Except.ok.inj hok
    have hs : h.storages.size = s := congrArg Prod.fst hpush
    have hk : (h.push (putBytes (Array.replicate count 0) 0 old.toList)).2 = k :=
      congrArg Prod.snd hpush
    subst hs hk
    refine ⟨rfl, by simp [Heap.push], .push _ _, fun i => ?_⟩
    rw [Heap.byte, bytes_push, if_pos rfl, Array.getD_eq_getD_getElem?, getElem?_putBytes,
      Array.getD_eq_getD_getElem?]
    by_cases hi : i < old.size
    · rw [if_pos ⟨Nat.zero_le _, by simpa using hi, by simpa using hi.trans_le room⟩]
      simp
    · rw [if_neg (by simp [hi]), Array.getElem?_eq_none (Nat.not_lt.mp hi), Array.getElem?_replicate]
      split
      · rfl
      · rfl
  · exact absurd hok (by simp)

/-- Changing elements of a view on a later storage keeps the earlier ones. -/
theorem Extends.changedAt {t : Tensor} {P : Nat → Prop} (grown : h.Extends k)
    (changed : t.ChangedAt P k l) (later : h.storages.size ≤ t.storage) : h.Extends l where
  count := grown.count.trans (Nat.le_of_eq changed.count.symm)
  bytes s hs := by
    rw [← grown.bytes s hs]
    have hcapacity := changed.capacity s
    apply Array.ext hcapacity
    intro i hl hk
    have hbyte := changed.byte s i fun p _ ho => by
      have hstorage := ho.1
      omega
    simpa [Heap.byte, Array.getElem?_eq_getElem hl, Array.getElem?_eq_getElem hk] using hbyte

end Heap

namespace Tensor

/-- A view that was known reads what it has read before. -/
theorem loadElement_extends {t : Tensor} {h k : Heap} (grown : h.Extends k)
    (known : t.storage < h.storages.size) (p : Nat) : t.loadElement k p = t.loadElement h p :=
  loadElement_congr fun i _ => grown.byte known i

/-- A shape that takes a new storage, larger than any storage can be. More bytes than a word can
count are too many as well; in words they would pass for fewer. -/
def Outgrows (out : Tensor) (dims : List Nat) (h : Heap) : Prop :=
  h.capacity out.storage < out.bytesFor dims ∧ storageLimit < out.bytesFor dims

section Resize
variable {out t : Tensor} {dims : List Nat} {f : MemoryFormat} {h k : Heap}

/-- Resizing to a shape fails only at the allocation. -/
theorem resize_outgrows (nonempty : dims ≠ []) (outgrows : out.Outgrows dims h) (f : MemoryFormat) :
    out.resize dims f h = .error (.fault .storageTooLarge) := by
  have hshape : checkShape dims = .ok () := if_neg (by simpa using nonempty)
  unfold resize
  rw [hshape, if_pos outgrows.1, Heap.allocate, if_neg (Nat.not_le.mpr outgrows.2)]
  rfl

/-- Any other shape can be given to the view. -/
theorem exists_resize (nonempty : dims ≠ []) (holds : ¬out.Outgrows dims h) (f : MemoryFormat) :
    ∃ t k, out.resize dims f h = .ok (t, k) := by
  cases hresize : out.resize dims f h with
  | ok r => exact ⟨r.1, r.2, rfl⟩
  | error e =>
    have herror := resize_error nonempty hresize
    exact absurd ⟨herror.2.1, herror.2.2⟩ holds

theorem not_outgrows (nonempty : dims ≠ []) (hok : out.resize dims f h = .ok (t, k)) :
    ¬out.Outgrows dims h := by
  intro outgrows
  rw [resize_outgrows nonempty outgrows f] at hok
  exact absurd hok (by simp)

/-- A view keeps its storage, or a larger one is allocated for it. -/
theorem resize_cases (hok : out.resize dims f h = .ok (t, k)) :
    t.storage = out.storage ∧ k = h ∨ h.capacity out.storage < out.bytesFor dims ∧
      h.allocate (h.bytes out.storage) (out.bytesFor dims) = .ok (t.storage, k) := by
  unfold resize at hok
  rcases checked_bind.mp hok with ⟨⟨⟩, -, hok⟩
  by_cases hroom : h.capacity out.storage < out.bytesFor dims
  · rw [if_pos hroom] at hok
    rcases checked_bind.mp hok with ⟨⟨s, larger⟩, hallocate, hok⟩
    rcases Except.ok.inj hok with ⟨⟩
    exact .inr ⟨hroom, hallocate⟩
  · rw [if_neg hroom] at hok
    rcases Except.ok.inj hok with ⟨⟩
    exact .inl ⟨rfl, rfl⟩

/-- A resized view stays where it is, or moves to a new storage with the old bytes. -/
theorem resize_place (hok : out.resize dims f h = .ok (t, k)) :
    t.storage = out.storage ∧ k = h ∨
      t.storage = h.storages.size ∧ k.storages.size = h.storages.size + 1 ∧
        h.capacity out.storage < out.bytesFor dims ∧
        ∀ i, k.byte t.storage i = h.byte out.storage i := by
  rcases resize_cases hok with hkept | ⟨hroom, hallocate⟩
  · exact .inl hkept
  · have hspec := Heap.allocate_spec (Nat.le_of_lt hroom) hallocate
    exact .inr ⟨hspec.1, hspec.2.1, hroom, hspec.2.2.2⟩

theorem resize_extends (hok : out.resize dims f h = .ok (t, k)) : h.Extends k := by
  rcases resize_cases hok with ⟨-, rfl⟩ | ⟨hroom, hallocate⟩
  · exact .refl _
  · exact (Heap.allocate_spec (Nat.le_of_lt hroom) hallocate).2.2.1

end Resize

end Tensor

end TensorConcat
