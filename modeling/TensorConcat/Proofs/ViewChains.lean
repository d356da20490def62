import TensorConcat.Proofs.Containment
import TensorConcat.Proofs.SizesInWords

/-!
# Chains of views

A view of a view of a tensor is a view of the tensor. Each step has a way back for coordinates:
cutting an axis down is undone by adding the start, reordering the axes by putting the indices
back in the places that they had. What a chain of steps shows at a coordinate is what the tensor
at its beginning has at the coordinate led back through all the steps, the last one first.

The relation between a view and what it is a view of is reflexive and transitive, so it is
enough to have it for one step; a chain follows by induction over the list of its steps.

No step takes a view further into its storage, so the positions of all views of a chain are words
if those of the tensor at its beginning are. Steps whose ranges end within a word then lead to the
same views in words.
-/

namespace TensorConcat

namespace Tensor
variable {t u v : Tensor} {h : Heap} {axis start length : Nat} {order : List Nat}

/-- Where an element lies: the storage, and the number of its first byte there. -/
def elementAt (t : Tensor) (c : List Nat) : Nat × Nat :=
  (t.storage, (t.offset + Axis.position t.axes c) * t.elementSize)

/-- Each element of the one tensor is an element of the other, where the way back leads to;
no two of them are the same one. -/
structure Shows (v t : Tensor) (back : List Nat → List Nat) : Prop where
  storage : v.storage = t.storage
  dtype : v.dtype = t.dtype
  within : ∀ c, Within v.dims c → Within t.dims (back c)
  element : ∀ c, Within v.dims c → v.elementAt c = t.elementAt (back c)
  injective : Set.InjOn back {c | Within v.dims c}

namespace Shows
variable {back last : List Nat → List Nat}

theorem refl (t : Tensor) : t.Shows t id where
  storage := rfl
  dtype := rfl
  within _ hc := hc
  element _ _ := rfl
  injective := Set.injOn_id _

theorem trans (first : u.Shows t back) (second : v.Shows u last) : v.Shows t (back ∘ last) where
  storage := second.storage.trans first.storage
  dtype := second.dtype.trans first.dtype
  within c hc := first.within _ (second.within c hc)
  element c hc := (second.element c hc).trans (first.element _ (second.within c hc))
  injective := first.injective.comp second.injective second.within

/-- Elements that lie in the storage lie there whatever view they are looked at through. -/
theorem inside (shows_ : v.Shows t back) (inside : t.Inside h) : v.Inside h := by
  intro c hc
  have hplace : (v.offset + Axis.position v.axes c) * v.elementSize =
      (t.offset + Axis.position t.axes (back c)) * t.elementSize :=
    congrArg Prod.snd (shows_.element c hc)
  have hsize : v.elementSize = t.elementSize := congrArg DType.size shows_.dtype
  have hroom := inside _ (shows_.within c hc)
  rw [Nat.add_mul, Nat.one_mul] at hroom ⊢
  rwa [hplace, hsize, shows_.storage]

end Shows

theorem shows_slab (haxis : axis < t.dims.length) (room : start + length ≤ t.extentAt axis) :
    (t.slab axis start length).Shows t (raiseAxis axis start) where
  storage := rfl
  dtype := rfl
  within _ hc := within_raise_slab haxis room hc
  element c hc := by
    rw [elementAt, offset_slab haxis hc]
    rfl
  injective c hc e he same := by
    have hlength : ∀ x, Within (t.slab axis start length).dims x → axis < x.length := by
      intro x hx
      rwa [hx.length_eq, dims_slab, List.length_set]
    rw [← @lowerAxis_raiseAxis axis start c (hlength c hc), same, lowerAxis_raiseAxis (hlength e he)]

/-- A part does not reach further than the whole. -/
theorem span_slab (haxis : axis < t.axes.length) (room : start + length ≤ t.extentAt axis) :
    (t.slab axis start length).offset + Axis.reach (t.slab axis start length).axes ≤
      t.offset + Axis.reach t.axes := by
  have hextent : t.axes[axis].extent = t.extentAt axis := by
    simp [extentAt, dims, Axis.extents, haxis]
  have hstride : t.axes[axis].stride = t.strides.getD axis 0 := by
    simp [strides, Axis.strides, haxis]
  have hreach := Axis.reach_set haxis ⟨length, t.strides.getD axis 0⟩
  rw [hextent, hstride] at hreach
  simp only [slab]
  by_cases hempty : length = 0
  · rw [if_pos hempty, hempty]
    rw [hempty, Nat.zero_sub, Nat.zero_mul] at hreach
    omega
  · have hlast : start * t.strides.getD axis 0 + (length - 1) * t.strides.getD axis 0 ≤
        (t.extentAt axis - 1) * t.strides.getD axis 0 := by
      rw [← Nat.add_mul]
      exact Nat.mul_le_mul_right _ (by omega)
    rw [if_neg hempty]
    dsimp only at hreach
    omega

theorem shows_reordered (perm : order.Perm (List.range t.rank)) :
    (t.reordered order).Shows t (reorder (inverseOrder order)) := by
  have hdims : (t.reordered order).dims = reorder order t.dims := extents_reorder order t.axes
  have hrank : t.dims.length = t.rank := Axis.length_extents _
  have hlength : ∀ c, Within (t.reordered order).dims c → c.length = t.rank := by
    intro c hc
    rw [hc.length_eq, hdims, length_reorder perm hrank]
  have hback : ∀ c : List Nat, c.length = t.rank → (reorder (inverseOrder order) c).length = t.rank :=
    fun _ hc => length_reorder (inverseOrder_perm perm) hc
  constructor
  case storage => rfl
  case dtype => rfl
  case within =>
    intro c hc
    have hl := hlength c hc
    rw [hdims, ← reorder_inverseOrder perm hl] at hc
    exact (within_reorder (hrank ▸ perm) ((hback c hl).trans hrank.symm)).mp hc
  case element =>
    intro c hc
    have hl := hlength c hc
    have hposition := position_reorder perm (hback c hl)
    rw [reorder_inverseOrder perm hl] at hposition
    rw [elementAt, elementAt, ← hposition]
    rfl
  case injective =>
    intro c hc e he same
    rw [← reorder_inverseOrder perm (hlength c hc), ← reorder_inverseOrder perm (hlength e he)]
    exact congrArg (reorder order) same

end Tensor

/-- A step from a tensor to a view of it. -/
inductive ViewStep
  | narrow (axis start length : Nat)
  | permute (order : List Nat)
deriving Repr, DecidableEq

namespace ViewStep
variable {t v : Tensor}

def apply : ViewStep → Tensor → Except ViewError Tensor
  | narrow axis start length, t => t.narrow axis start length
  | permute order, t => t.permute order

/-- The coordinate before a step, from the one after it. -/
def undo : ViewStep → List Nat → List Nat
  | narrow axis start _ => raiseAxis axis start
  | permute order => reorder (inverseOrder order)

/-- Takes the steps of a chain one after the other. -/
def applyAll (steps : List ViewStep) (t : Tensor) : Except ViewError Tensor :=
  steps.foldlM (fun u step => step.apply u) t

/-- The coordinate before all steps of a chain, from the one after it. -/
def undoAll (steps : List ViewStep) (c : List Nat) : List Nat := steps.foldr undo c

/-- What a step makes of a tensor in words. -/
def applyInWords : ViewStep → Tensor → Except ViewError Tensor
  | narrow axis start length, t => t.narrowInWords axis start length
  | permute order, t => t.permute order

def applyAllInWords (steps : List ViewStep) (t : Tensor) : Except ViewError Tensor :=
  steps.foldlM (fun u step => step.applyInWords u) t

/-- The range that is kept ends within a word. -/
def InWords : ViewStep → Prop
  | narrow _ start length => start + length ≤ wordMax
  | permute _ => True

theorem shows_apply {step : ViewStep} (hok : step.apply t = .ok v) : v.Shows t step.undo := by
  cases step with
  | narrow axis start length =>
    rcases Tensor.narrow_spec hok with ⟨haxis, hroom, rfl⟩
    exact Tensor.shows_slab haxis hroom
  | permute order =>
    rcases Tensor.permute_eq_ok.mp hok with ⟨hperm, rfl⟩
    exact Tensor.shows_reordered hperm

theorem shows_applyAll {steps : List ViewStep} (hok : applyAll steps t = .ok v) :
    v.Shows t (undoAll steps) := by
  induction steps generalizing t with
  | nil =>
    obtain rfl : t = v := Except.ok.inj hok
    exact .refl t
  | cons step rest ih =>
    rw [applyAll, List.foldlM_cons] at hok
    rcases checked_bind.mp hok with ⟨u, hstep, hrest⟩
    exact (shows_apply hstep).trans (ih hrest)

theorem span_apply {step : ViewStep} (hok : step.apply t = .ok v) :
    v.offset + Axis.reach v.axes ≤ t.offset + Axis.reach t.axes := by
  cases step with
  | narrow axis start length =>
    rcases Tensor.narrow_spec hok with ⟨haxis, hroom, rfl⟩
    exact Tensor.span_slab (t.length_axes_eq ▸ haxis) hroom
  | permute order =>
    rcases Tensor.permute_eq_ok.mp hok with ⟨hperm, rfl⟩
    have hreach := Axis.reach_perm (reorder_perm hperm (rfl : t.axes.length = t.rank))
    exact Nat.add_le_add_left hreach.le _

theorem applyInWords_eq {step : ViewStep} (words : step.InWords)
    (span : t.offset + Axis.reach t.axes ≤ wordMax) : step.applyInWords t = step.apply t := by
  cases step with
  | narrow axis start length => exact Tensor.narrowInWords_of_le words span
  | permute order => rfl

/-- A chain leads in words to where it leads exactly. -/
theorem applyAllInWords_eq {steps : List ViewStep} (words : ∀ step ∈ steps, step.InWords)
    (span : t.offset + Axis.reach t.axes ≤ wordMax) :
    applyAllInWords steps t = applyAll steps t := by
  induction steps generalizing t with
  | nil => rfl
  | cons step rest ih =>
    rw [List.forall_mem_cons] at words
    rw [applyAllInWords, applyAll, List.foldlM_cons, List.foldlM_cons, applyInWords_eq words.1 span]
    cases hstep : step.apply t with
    | error e => rfl
    | ok u => exact ih words.2 ((span_apply hstep).trans span)

end ViewStep

namespace Tensor
variable {t u v : Tensor} {axis : Nat} {order : List Nat}

/-- Reordering the axes with an order and then with its inverse. -/
theorem permute_inverseOrder (hok : t.permute order = .ok u) :
    u.permute (inverseOrder order) = .ok t := by
  rcases permute_eq_ok.mp hok with ⟨hperm, rfl⟩
  have hrank : (t.reordered order).rank = t.rank := length_reorder hperm rfl
  refine permute_eq_ok.mpr ⟨hrank ▸ inverseOrder_perm hperm, ?_⟩
  rw [reordered, reordered, inverseOrder_reorder hperm rfl]

/-- A part of a part is the part of the combined range. -/
theorem slab_slab {start length start' length' : Nat} (room : start' + length' ≤ length)
    (pos : 0 < length') :
    (t.slab axis start length).slab axis start' length' = t.slab axis (start + start') length' := by
  have haxes : ((t.slab axis start length).slab axis start' length').axes =
      (t.slab axis (start + start') length').axes := by
    rw [slab, strides_slab]
    exact List.set_set ..
  have hoffset : ((t.slab axis start length).slab axis start' length').offset =
      (t.slab axis (start + start') length').offset := by
    rw [slab, strides_slab]
    simp only [slab]
    rw [if_neg pos.ne', if_neg pos.ne', if_neg (by omega), Nat.add_mul, Nat.add_assoc]
  rw [Tensor.mk.injEq]
  exact ⟨rfl, hoffset, haxes, rfl⟩

/-- Cutting an axis down twice, and once to the combined range. An empty part keeps the offset
that it is cut from, so without elements the offsets may differ. -/
theorem narrow_narrow {start length start' length' : Nat}
    (first : t.narrow axis start length = .ok u) (second : u.narrow axis start' length' = .ok v) :
    ∃ w, t.narrow axis (start + start') length' = .ok w ∧ w.dims = v.dims ∧
      w.strides = v.strides ∧ (0 < v.numel → w = v) := by
  rcases narrow_spec first with ⟨haxis, hroom, rfl⟩
  rcases narrow_spec second with ⟨-, hroom', rfl⟩
  rw [extentAt_slab haxis] at hroom'
  refine ⟨_, narrow_eq_slab (t.length_axes_eq ▸ haxis) (by omega), ?_, ?_, fun pos => ?_⟩
  · rw [dims_slab, dims_slab, dims_slab, List.set_set]
  · rw [strides_slab, strides_slab, strides_slab]
  · have hlength : 0 < length' := by
      rw [numel, dims_slab] at pos
      refine volume_pos_iff.mp pos length' (List.mem_set (by rwa [dims_slab, List.length_set]) _)
    exact (slab_slab hroom' hlength).symm

end Tensor

/-- A chain of cut and reordered views shows elements of the tensor that it starts from, each at
its own place; reordering is undone by the inverse order, and cutting twice is cutting once. In
words the chain leads to the same view if each range ends within a word, as long as there is an
element whose position matters. -/
theorem view_chains_compose {t : Tensor} {h : Heap} (inside : t.Inside h)
    (words : h.capacity t.storage ≤ wordMax) :
    (∀ steps : List ViewStep, (∀ step ∈ steps, step.InWords) →
      (0 < t.numel → ViewStep.applyAllInWords steps t = ViewStep.applyAll steps t) ∧
      ∀ v, ViewStep.applyAll steps t = .ok v →
        v.Inside h ∧ v.dtype = t.dtype ∧
          (∀ c, Within v.dims c → Within t.dims (ViewStep.undoAll steps c) ∧
            v.elementAt c = t.elementAt (ViewStep.undoAll steps c)) ∧
          Set.InjOn (ViewStep.undoAll steps) {c | Within v.dims c}) ∧
    (∀ order u, t.permute order = .ok u → u.permute (inverseOrder order) = .ok t) ∧
    ∀ axis start length start' length' u v, start + length ≤ wordMax →
      start' + length' ≤ wordMax → t.narrow axis start length = .ok u →
        u.narrow axis start' length' = .ok v →
          ∃ w, t.narrow axis (start + start') length' = .ok w ∧ w.dims = v.dims ∧
            w.strides = v.strides ∧ (0 < v.numel → w = v) ∧
            (0 < t.numel →
              t.narrowInWords axis (wrap (start + start')) length' = .ok w) := by
  refine ⟨fun steps hsteps => ⟨fun pos => ?chain, fun v hok => ?shows⟩,
    fun order u => Tensor.permute_inverseOrder,
    fun axis start length start' length' u v hword _ first second => ?cuts⟩
  case chain => exact ViewStep.applyAllInWords_eq hsteps (inside.span_le words pos)
  case shows =>
    have hshows := ViewStep.shows_applyAll hok
    exact ⟨hshows.inside inside, hshows.dtype,
      fun c hc => ⟨hshows.within c hc, hshows.element c hc⟩, hshows.injective⟩
  case cuts =>
    obtain ⟨w, hw, hdims, hstrides, hsame⟩ := Tensor.narrow_narrow first second
    -- The second range ends within the first one, so the combined one is no longer than that.
    have hroom := (Tensor.narrow_spec second).2.1
    rcases Tensor.narrow_spec first with ⟨haxis, -, rfl⟩
    rw [Tensor.extentAt_slab haxis] at hroom
    have hrange : start + start' + length' ≤ wordMax := by omega
    refine ⟨w, hw, hdims, hstrides, hsame, fun pos => ?_⟩
    rw [wrap_of_le (by omega), Tensor.narrowInWords_of_le hrange (inside.span_le words pos), hw]

/-- A view with gaps, its axes in no particular order, behind the first element of its storage. -/
def crate : Tensor := ⟨0, 1, [⟨2, 1⟩, ⟨3, 4⟩, ⟨2, 2⟩], .i16⟩

/-- The storage it lies in. -/
def crateHeap : Heap := ⟨#[Array.replicate 26 0]⟩

/-- Two reorderings and two cuts. -/
def crateSteps : List ViewStep :=
  [.permute [2, 0, 1], .narrow 2 1 2, .permute [1, 2, 0], .narrow 0 1 1]

theorem view_chains_compose_crate :
    crate.Inside crateHeap ∧ crateHeap.capacity crate.storage ≤ wordMax ∧
    (∃ v, ViewStep.applyAll crateSteps crate = .ok v ∧
      ViewStep.applyAllInWords crateSteps crate = .ok v ∧ v.dims = [1, 2, 2] ∧
      v.Inside crateHeap ∧ ViewStep.undoAll crateSteps [0, 1, 0] = [1, 2, 0] ∧
      v.elementAt [0, 1, 0] = crate.elementAt [1, 2, 0] ∧ v.elementAt [0, 1, 0] = (0, 20)) ∧
    (∃ u, crate.permute [2, 0, 1] = .ok u ∧ u.permute [1, 2, 0] = .ok crate) ∧
    ∃ u v w, crate.narrow 1 1 2 = .ok u ∧ u.narrow 1 1 1 = .ok v ∧ crate.narrow 1 2 1 = .ok w ∧
      w = v := by
  have hinside : crate.Inside crateHeap := by
    have hall : ∀ c ∈ coordinates crate.dims,
        (crate.offset + Axis.position crate.axes c + 1) * crate.elementSize ≤
          crateHeap.capacity crate.storage := by decide
    intro c hc
    exact hall c (mem_coordinates.mpr hc)
  have hcapacity : crateHeap.capacity crate.storage ≤ wordMax := by decide
  rcases view_chains_compose hinside hcapacity with ⟨hchain, hinverse, hcut⟩
  have hsteps : ∀ step ∈ crateSteps, step.InWords := by
    simp [crateSteps, ViewStep.InWords, wordMax]
  obtain ⟨hwords, hplaces⟩ := hchain crateSteps hsteps
  have hok : ViewStep.applyAll crateSteps crate =
      .ok ⟨0, 6, [⟨1, 1⟩, ⟨2, 4⟩, ⟨2, 2⟩], .i16⟩ := by decide
  obtain ⟨hplaced, -, helement, -⟩ := hplaces _ hok
  have hwithin := mem_coordinates.mp (show [0, 1, 0] ∈ coordinates [1, 2, 2] by decide)
  have hlast := (helement [0, 1, 0] hwithin).2
  have hturned : crate.permute [2, 0, 1] = .ok ⟨0, 1, [⟨2, 2⟩, ⟨2, 1⟩, ⟨3, 4⟩], .i16⟩ := by decide
  have hfirst : crate.narrow 1 1 2 = .ok ⟨0, 5, [⟨2, 1⟩, ⟨2, 4⟩, ⟨2, 2⟩], .i16⟩ := by decide
  have hsecond : Tensor.narrow ⟨0, 5, [⟨2, 1⟩, ⟨2, 4⟩, ⟨2, 2⟩], .i16⟩ 1 1 1 =
      .ok ⟨0, 9, [⟨2, 1⟩, ⟨1, 4⟩, ⟨2, 2⟩], .i16⟩ := by decide
  obtain ⟨w, hw, -, -, hsame, -⟩ :=
    hcut 1 1 2 1 1 _ _ (by decide) (by decide) hfirst hsecond
  exact ⟨hinside, hcapacity,
    ⟨_, hok, (hwords (by decide)).trans hok, rfl, hplaced, by decide, hlast, by decide⟩,
    ⟨_, hturned, hinverse _ _ hturned⟩, ⟨_, _, w, hfirst, hsecond, hw, hsame (by decide)⟩⟩

/-- A range that does not end within a word may seem to, and the part lies outside. -/
example : (Tensor.mk 0 0 [⟨4, 1⟩] .u8).narrow 0 wordMax 1 =
      .error (.narrowRange wordMax (wordMax + 1) 4 0) ∧
    (Tensor.mk 0 0 [⟨4, 1⟩] .u8).narrowInWords 0 wordMax 1 =
      .ok ⟨0, wordMax, [⟨1, 1⟩], .u8⟩ := by decide

end TensorConcat
