import TensorConcat.Concat.Launch
import TensorConcat.Proofs.GridStride
import TensorConcat.Proofs.IndexMapping
import TensorConcat.Proofs.Running
import TensorConcat.Proofs.Transferring

/-!
# What a launch copies

The kernel computes where an element goes and moves it. Here the two are taken apart:
`Launch.moves` does the arithmetic of an item, every single operation of it checked,
and yields the moves the item makes; the kernel makes just these. When the records of
a launch describe parts that match the output, no operation leaves the range of words,
and the moves of all items together are the transfers of the parts.
-/

namespace TensorConcat

open Number

namespace Number

/-- The difference, unless it is negative. -/
def subWord (a b : UInt32) : Except Fault UInt32 :=
  if b ≤ a then .ok (a - b) else .error .indexOverflow

end Number

namespace OutputLayout

/-- `peel` with every operation checked. -/
def peelChecked (l : OutputLayout) (dimSize : UInt32) (joined : Nat) (linear : UInt32) :
    List Nat → Except Fault (UInt32 × UInt32)
  | [] => .ok (0, linear)
  | axis :: inner => do
    let (offset, linear) ← l.peelChecked dimSize joined linear inner
    let extent := l.extentAt dimSize joined axis
    let next ← divWord linear extent
    let step ← mulWord (← subWord linear (← mulWord extent next)) (l.strideAt axis)
    return (← addWord offset step, next)

/-- `offsetOf` with every operation checked. -/
def offsetOfChecked (l : OutputLayout) (dimSize : UInt32) (joined : Nat) (linear : UInt32) :
    Except Fault UInt32 :=
  match l.order with
  | [] => .error .axisOutOfRange
  | outermost :: inner => do
    let (offset, left) ← l.peelChecked dimSize joined linear inner
    addWord offset (← mulWord left (l.strideAt outermost))

/-- The rest of a division is taken without leaving the range of words. -/
theorem subWord_mulWord {linear extent next : UInt32} (h : divWord linear extent = .ok next) :
    mulWord extent next = .ok (extent * next) ∧
      subWord linear (extent * next) = .ok (linear - extent * next) := by
  unfold divWord at h
  split at h
  · exact absurd h (by simp)
  · obtain rfl : linear / extent = next := by simpa using h
    have hle : extent.toNat * (linear / extent).toNat ≤ linear.toNat := by
      rw [UInt32.toNat_div]
      exact Nat.mul_div_le ..
    have hfits := hle.trans_lt linear.toNat_lt
    have hmul : (extent * (linear / extent)).toNat = extent.toNat * (linear / extent).toNat := by
      rw [UInt32.toNat_mul, Nat.mod_eq_of_lt hfits]
    have hword : UInt32.ofNat (extent.toNat * (linear / extent).toNat) = extent * (linear / extent) := by
      rw [← UInt32.toNat_inj, hmul, toNat_ofNat_of_lt hfits]
    have hsub : extent * (linear / extent) ≤ linear := by
      rw [UInt32.le_iff_toNat_le, hmul]
      exact hle
    rw [mulWord, word_eq hfits, hword]
    exact ⟨rfl, if_pos hsub⟩

theorem peelChecked_eq (l : OutputLayout) (dimSize : UInt32) (joined : Nat) (linear : UInt32)
    (axes : List Nat) : l.peelChecked dimSize joined linear axes = l.peel dimSize joined linear axes := by
  induction axes with
  | nil => rfl
  | cons axis inner ih =>
    rw [peelChecked, peel, ih]
    cases l.peel dimSize joined linear inner with
    | error e => rfl
    | ok r =>
      obtain ⟨offset, left⟩ := r
      simp only [bind, Except.bind]
      cases hdiv : divWord left (l.extentAt dimSize joined axis) with
      | error e => rfl
      | ok next =>
        obtain ⟨hmul, hsub⟩ := subWord_mulWord hdiv
        simp only [hmul, hsub]

theorem offsetOfChecked_eq (l : OutputLayout) (dimSize : UInt32) (joined : Nat) (linear : UInt32) :
    l.offsetOfChecked dimSize joined linear = l.offsetOf dimSize joined linear := by
  unfold offsetOfChecked offsetOf
  cases l.order with
  | nil => rfl
  | cons outermost inner => simp only [peelChecked_eq]

end OutputLayout

/-- One element of a given width on its way from one place in memory to another. -/
structure Move where
  target : Pointer
  source : Pointer
deriving Repr, DecidableEq

namespace Move

/-- Byte `i` of storage `s` is read by a move of a given width. -/
def Reads (mv : Move) (width s i : Nat) : Prop :=
  s = mv.source.storage ∧ mv.source.byte ≤ i ∧ i < mv.source.byte + width

def Writes (mv : Move) (width s i : Nat) : Prop :=
  s = mv.target.storage ∧ mv.target.byte ≤ i ∧ i < mv.target.byte + width

end Move

/-- Makes moves one after the other. -/
def Heap.replay (width : Nat) (moves : List Move) (h : Heap) : Heap :=
  moves.foldl (fun h mv => h.move width mv.target mv.source) h

theorem Heap.replay_append (width : Nat) (ms ns : List Move) (h : Heap) :
    h.replay width (ms ++ ns) = (h.replay width ms).replay width ns := List.foldl_append ..

namespace Launch

def moveOf (l : Launch) (d : Descriptor Pointer) (base linear : UInt32) : Except Fault Move := do
  let target ← addWord base (← l.layout.offsetOfChecked d.dimSize l.joined linear)
  return ⟨l.output.element l.width target.toNat, d.input.element l.width linear.toNat⟩

/-- The moves of one item, found with checked arithmetic. -/
def moves (l : Launch) (item : WorkItem) : Except Fault (List Move) :=
  match l.descriptors[item.group.y.toNat]? with
  | none => .error .axisOutOfRange
  | some d => do
    let first ← addWord (← mulWord item.group.x item.localRange.x) item.localId.x
    if d.elements ≤ first then return []
    let base ← mulWord d.offset (l.layout.strideAt l.joined)
    let stride ← mulWord item.groupRange.x item.localRange.x
    (visits d.elements stride first).mapM (l.moveOf d base)

theorem mulWord_exact {a b w : UInt32} (h : mulWord a b = .ok w) : a * b = w := by
  unfold mulWord word at h
  split at h
  · rename_i hfits
    rw [← Except.ok.inj h, ← UInt32.toNat_inj, UInt32.toNat_mul, toNat_ofNat_of_lt hfits,
      Nat.mod_eq_of_lt hfits]
  · exact absurd h (by simp)

theorem addWord_exact {a b w : UInt32} (h : addWord a b = .ok w) : a + b = w := by
  unfold addWord word at h
  split at h
  · rename_i hfits
    rw [← Except.ok.inj h, ← UInt32.toNat_inj, UInt32.toNat_add, toNat_ofNat_of_lt hfits,
      Nat.mod_eq_of_lt hfits]
  · exact absurd h (by simp)

theorem copyElement_eq {l : Launch} {d : Descriptor Pointer} {base linear : UInt32} {mv : Move}
    (h : l.moveOf d base linear = .ok mv) (k : Heap) :
    l.copyElement d base linear k = .ok (k.move l.width mv.target mv.source) := by
  simp only [moveOf, OutputLayout.offsetOfChecked_eq] at h
  obtain ⟨offset, hoffset, h⟩ := checked_bind.mp h
  obtain ⟨target, htarget, h⟩ := checked_bind.mp h
  obtain rfl := Except.ok.inj h
  simp only [copyElement, hoffset, htarget, bind, Except.bind]
  rfl

theorem foldlM_copyElement {l : Launch} {d : Descriptor Pointer} {base : UInt32}
    {words : List UInt32} {ms : List Move} (h : words.mapM (l.moveOf d base) = .ok ms) (k : Heap) :
    words.foldlM (fun k linear => l.copyElement d base linear k) k = .ok (k.replay l.width ms) := by
  induction words generalizing ms k with
  | nil =>
    obtain rfl := Except.ok.inj h
    rfl
  | cons w ws ih =>
    rw [List.mapM_cons] at h
    obtain ⟨mv, hmv, h⟩ := checked_bind.mp h
    obtain ⟨rest, hrest, h⟩ := checked_bind.mp h
    obtain rfl := Except.ok.inj h
    rw [List.foldlM_cons, copyElement_eq hmv]
    exact ih hrest _

/-- When no checked operation fails, the kernel makes the moves of its item. -/
theorem kernel_eq {l : Launch} {item : WorkItem} {ms : List Move} (h : l.moves item = .ok ms)
    (k : Heap) : l.kernel item k = .ok (k.replay l.width ms) := by
  unfold moves at h
  unfold kernel
  cases hd : l.descriptors[item.group.y.toNat]? with
  | none =>
    rw [hd] at h
    exact absurd h (by simp)
  | some d =>
    rw [hd] at h
    obtain ⟨product, hproduct, h⟩ := checked_bind.mp h
    obtain ⟨first, hfirst, h⟩ := checked_bind.mp h
    rw [← mulWord_exact hproduct] at hfirst
    have hfirst := addWord_exact hfirst
    simp only [hfirst]
    by_cases hle : d.elements ≤ first
    · rw [if_pos hle] at h ⊢
      obtain rfl := Except.ok.inj h
      rfl
    · rw [if_neg hle] at h ⊢
      obtain ⟨base, hbase, h⟩ := checked_bind.mp h
      obtain ⟨stride, hstride, h⟩ := checked_bind.mp h
      rw [← mulWord_exact hstride] at h
      rw [hbase]
      exact foldlM_copyElement h k

/-- A launch makes the moves of its items, item after item. -/
theorem runItems_eq {l : Launch} {r : Range2} {mss : List (List Move)}
    (h : List.Forall₂ (fun item ms => l.moves item = .ok ms) r.items mss) (k : Heap) :
    r.runItems l.kernel k = .ok (k.replay l.width mss.flatten) := by
  rw [Range2.runItems_eq_foldlM]
  generalize r.items = items at h
  induction h generalizing k with
  | nil => rfl
  | cons hms _ ih =>
    rw [List.foldlM_cons, kernel_eq hms, List.flatten_cons, Heap.replay_append]
    exact ih _

/-- What an item does in a launch over a batch: none of its operations leaves the range of
words, the kernel makes just its moves, and each of them reads the input of the item's row
and writes the output. -/
structure ItemSafe (l : Launch) (out : Tensor) (batch : List Tensor) (item : WorkItem)
    (ms : List Move) : Prop where
  computed : l.moves item = .ok ms
  made : ∀ k, l.kernel item k = .ok (k.replay l.width ms)
  reads : ∀ mv ∈ ms, ∃ u, batch[item.group.y.toNat]? = some u ∧
    ∀ s i, mv.Reads l.width s i → u.Addresses s i
  writes : ∀ mv ∈ ms, ∀ s i, mv.Writes l.width s i → out.Addresses s i

end Launch

end TensorConcat
