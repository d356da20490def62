import TensorConcat.Failure

/-!
# Storages

Memory is a list of storages, blocks of bytes of a fixed size. A storage is known
by its number, numbers are never used again, and any number of views may look at
one storage. Reading beyond a storage gives zeros and writing beyond it does
nothing; the views of this library stay inside.

The main statements say which bytes a write changes and that allocation changes
none.
-/

namespace TensorConcat

structure Heap where
  storages : Array (Array UInt8) := #[]
deriving Repr, DecidableEq

/-- Replaces bytes from a position on. -/
def putBytes (block : Array UInt8) (start : Nat) : List UInt8 → Array UInt8
  | [] => block
  | b :: bs => putBytes (block.setIfInBounds start b) (start + 1) bs

namespace Heap

def bytes (h : Heap) (storage : Nat) : Array UInt8 := h.storages.getD storage #[]

/-- Size of a storage in bytes. -/
def capacity (h : Heap) (storage : Nat) : Nat := (h.bytes storage).size

def byte (h : Heap) (storage index : Nat) : UInt8 := (h.bytes storage).getD index 0

def load (h : Heap) (storage start count : Nat) : List UInt8 :=
  (List.range count).map fun i => h.byte storage (start + i)

def store (h : Heap) (storage start : Nat) (bytes : List UInt8) : Heap :=
  ⟨h.storages.modify storage (putBytes · start bytes)⟩

/-- A new storage with the given bytes. -/
def push (h : Heap) (bytes : Array UInt8) : Nat × Heap :=
  (h.storages.size, ⟨h.storages.push bytes⟩)

/-- A new storage of `count` bytes, which begins with `old` and goes on with zeros. -/
def allocate (h : Heap) (old : Array UInt8) (count : Nat) : Except Failure (Nat × Heap) :=
  if count ≤ storageLimit then
    .ok (h.push (putBytes (Array.replicate count 0) 0 old.toList))
  else .error (.fault .storageTooLarge)

end Heap

@[simp] theorem size_putBytes (block : Array UInt8) (start : Nat) (bs : List UInt8) :
    (putBytes block start bs).size = block.size := by
  induction bs generalizing block start with
  | nil => rfl
  | cons b bs ih => simp [putBytes, ih]

/-- A byte of a block after a write: the written one inside the written part that
the block covers, the old one elsewhere. -/
theorem getElem?_putBytes (block : Array UInt8) (start i : Nat) (bs : List UInt8) :
    (putBytes block start bs)[i]? =
      if start ≤ i ∧ i < start + bs.length ∧ i < block.size then bs[i - start]? else block[i]? := by
  induction bs generalizing block start with
  | nil =>
    have : ¬(start ≤ i ∧ i < start + ([] : List UInt8).length ∧ i < block.size) := by
      simp only [List.length_nil]
      omega
    rw [if_neg this]
    rfl
  | cons b bs ih =>
    simp only [putBytes, ih, Array.size_setIfInBounds, List.length_cons]
    rcases Nat.lt_trichotomy i start with h | h | h
    · have h₁ : ¬(start + 1 ≤ i ∧ i < start + 1 + bs.length ∧ i < block.size) := by omega
      have h₂ : ¬(start ≤ i ∧ i < start + (bs.length + 1) ∧ i < block.size) := by omega
      rw [if_neg h₁, if_neg h₂, Array.getElem?_setIfInBounds_ne (by omega)]
    · subst h
      have h₁ : ¬(i + 1 ≤ i ∧ i < i + 1 + bs.length ∧ i < block.size) := by omega
      rw [if_neg h₁]
      by_cases hs : i < block.size
      · rw [if_pos (by omega), Array.getElem?_setIfInBounds_self_of_lt hs]
        simp
      · rw [if_neg (by omega), Array.getElem?_eq_none (by simpa using hs),
          Array.getElem?_eq_none (by omega)]
    · by_cases hr : start + 1 ≤ i ∧ i < start + 1 + bs.length ∧ i < block.size
      · rw [if_pos hr, if_pos (by omega)]
        have : i - start = (i - (start + 1)) + 1 := by omega
        rw [this, List.getElem?_cons_succ]
      · rw [if_neg hr, if_neg (by omega), Array.getElem?_setIfInBounds_ne (by omega)]

namespace Heap

theorem bytes_store (h : Heap) (storage start other : Nat) (bs : List UInt8) :
    (h.store storage start bs).bytes other =
      if other = storage then putBytes (h.bytes other) start bs else h.bytes other := by
  unfold store bytes
  simp only [Array.getD_eq_getD_getElem?, Array.getElem?_modify]
  by_cases same : other = storage
  · subst same
    rw [if_pos rfl, if_pos rfl]
    cases h.storages[other]? with
    | none =>
      apply Array.ext (by simp)
      intro i hi
      simp at hi
    | some block => rfl
  · rw [if_neg (fun e => same e.symm), if_neg same]

@[simp] theorem capacity_store (h : Heap) (storage start other : Nat) (bs : List UInt8) :
    (h.store storage start bs).capacity other = h.capacity other := by
  unfold capacity
  rw [bytes_store]
  split <;> simp

theorem byte_store (h : Heap) (storage start other i : Nat) (bs : List UInt8) :
    (h.store storage start bs).byte other i =
      if other = storage ∧ start ≤ i ∧ i < start + bs.length ∧ i < h.capacity storage then
        bs.getD (i - start) 0
      else h.byte other i := by
  unfold byte
  rw [bytes_store]
  by_cases same : other = storage
  · subst same
    simp only [if_true, true_and, Array.getD_eq_getD_getElem?, getElem?_putBytes, capacity]
    split
    · rw [List.getD_eq_getElem?_getD]
    · rfl
  · simp [same]

@[simp] theorem length_load (h : Heap) (storage start count : Nat) :
    (h.load storage start count).length = count := by simp [load]

@[simp] theorem storages_size_store (h : Heap) (storage start : Nat) (bs : List UInt8) :
    (h.store storage start bs).storages.size = h.storages.size := by simp [store]

theorem bytes_push (h : Heap) (bs : Array UInt8) (other : Nat) :
    (h.push bs).2.bytes other = if other = h.storages.size then bs else h.bytes other := by
  unfold push bytes
  simp only [Array.getD_eq_getD_getElem?, Array.getElem?_push]
  split <;> simp

end Heap

end TensorConcat
