import TensorConcat.Proofs.BatchTrace

/-!
# Filling batch by batch joins the inputs

On a device that is in order and whose budget lasts, every step of the batched engine
succeeds: the records of a batch are described, staged and read back unchanged, and
its launch is accepted and makes the transfers of its parts. The offset that is
carried from batch to batch is the start of the next slab, so all launches together
make the transfers of the whole list.

A batch that a device does not take changes no memory, so what was filled until then
is what the batches before it have filled.
-/

namespace TensorConcat

open Number

/-- A device in order that takes a number of launches more. -/
structure Device.Healthy (d : Device) (launches : Nat) : Prop where
  size : 0 < d.config.maxWorkGroupSize.toNat
  fits : d.groupsPerLaunch.toNat * d.config.maxWorkGroupSize.toNat < 2 ^ 32
  usable : d.poisoned = false
  budget : ∀ limit, d.config.failAfterSubmissions = some limit → d.submissions + launches ≤ limit

/-- A device whose launches have a range. -/
structure Device.Launchable (d : Device) : Prop where
  size : 0 < d.config.maxWorkGroupSize.toNat
  fits : d.groupsPerLaunch.toNat * d.config.maxWorkGroupSize.toNat < 2 ^ 32

/-- What is left of the budget lasts for a number of launches. -/
def Device.Affords (d : Device) (launches : Nat) : Prop :=
  ∀ limit, d.config.failAfterSubmissions = some limit → launches ≤ limit - d.submissions

namespace Device

/-- The device when further launches and transfers have been counted. -/
def counting (d : Device) (launches transfers : Nat) : Device :=
  { d with submissions := d.submissions + launches, transfers := d.transfers + transfers }

section Counting
variable (d : Device) (launches transfers : Nat)

@[simp] theorem counting_submissions :
    (d.counting launches transfers).submissions = d.submissions + launches := rfl

@[simp] theorem counting_counting (more copies : Nat) :
    (d.counting launches transfers).counting more copies =
      d.counting (launches + more) (transfers + copies) := by
  simp only [counting, Nat.add_assoc]

end Counting

theorem Healthy.launchable {d : Device} {n : Nat} (healthy : d.Healthy n) : d.Launchable :=
  ⟨healthy.size, healthy.fits⟩

theorem Launchable.counting {d : Device} (launchable : d.Launchable) (launches transfers : Nat) :
    (d.counting launches transfers).Launchable := ⟨launchable.size, launchable.fits⟩

theorem Healthy.affords {d : Device} {n : Nat} (healthy : d.Healthy n) : d.Affords n := by
  intro limit hlimit
  have := healthy.budget limit hlimit
  omega

theorem Healthy.mono {d : Device} {n n' : Nat} (healthy : d.Healthy n') (le : n ≤ n') :
    d.Healthy n where
  size := healthy.size
  fits := healthy.fits
  usable := healthy.usable
  budget limit hlimit := (Nat.add_le_add_left le _).trans (healthy.budget limit hlimit)

/-- Launches that were taken are no longer to be paid for. -/
theorem Healthy.counting {d : Device} {n n' : Nat} (healthy : d.Healthy (n + n')) (transfers : Nat) :
    (d.counting n transfers).Healthy n' where
  size := healthy.size
  fits := healthy.fits
  usable := healthy.usable
  budget limit hlimit := by
    have hbudget := healthy.budget limit hlimit
    rw [counting_submissions]
    omega

theorem Affords.healthy {d : Device} {n : Nat} (affords : d.Affords (n + 1))
    (launchable : d.Launchable) (usable : d.poisoned = false) : d.Healthy 1 where
  size := launchable.size
  fits := launchable.fits
  usable := usable
  budget limit hlimit := by
    have := affords limit hlimit
    omega

/-- A launch that was taken is no longer to be paid for. -/
theorem Affords.counting {d : Device} {n : Nat} (affords : d.Affords (n + 1)) (transfers : Nat) :
    (d.counting 1 transfers).Affords n := by
  intro limit hlimit
  have := affords limit hlimit
  rw [counting_submissions]
  omega

theorem groupsPerLaunch_pos (d : Device) : 0 < d.groupsPerLaunch.toNat := by
  have hone : (1 : UInt32) ≤ max (d.config.computeUnits / 2) 1 := UInt32.le_iff_toNat_le.mpr (by
    rw [show max (d.config.computeUnits / 2) 1 =
      if d.config.computeUnits / 2 ≤ 1 then 1 else d.config.computeUnits / 2 from rfl]
    split
    · exact Nat.le_refl _
    · rename_i hlt
      rw [UInt32.le_iff_toNat_le] at hlt
      omega)
  exact UInt32.le_iff_toNat_le.mp hone

/-- The range of a launch over a number of inputs. -/
def gridFor (d : Device) (inputs : Nat) : Range2 :=
  .grid d.groupsPerLaunch d.config.maxWorkGroupSize (UInt32.ofNat inputs)

theorem rangeFor_eq {d : Device}
    (fits : d.groupsPerLaunch.toNat * d.config.maxWorkGroupSize.toNat < 2 ^ 32) (inputs : Nat) :
    Launch.rangeFor d inputs = .ok (d.gridFor inputs) := if_pos fits

theorem Launchable.validate_eq {d : Device} (launchable : d.Launchable) (inputs : Nat) :
    (d.gridFor inputs).validate d.config.maxWorkGroupSize =
      .ok ⟨d.groupsPerLaunch, UInt32.ofNat inputs⟩ :=
  Range2.validate_grid launchable.size launchable.fits

theorem checkQueue_eq_ok {d : Device} : d.checkQueue = .ok () ↔ d.poisoned = false := by
  unfold checkQueue
  cases d.poisoned with
  | false => simp
  | true => simp

/-- A device that may be used and affords a launch takes on a valid range and counts it. -/
theorem accept_of_valid {d : Device} {r : Range2} {groups : Extent2}
    (valid : r.validate d.config.maxWorkGroupSize = .ok groups) (usable : d.poisoned = false)
    (affords : d.Affords 1) : d.accept r = .ok (d.counting 1 0) := by
  have hqueue := checkQueue_eq_ok.mpr usable
  unfold accept
  rw [valid, hqueue]
  cases hlimit : d.config.failAfterSubmissions with
  | none => rfl
  | some limit =>
    have hlt : ¬limit ≤ d.submissions := by
      have := affords limit hlimit
      omega
    simp only [Except.mapError, bind, Except.bind, if_neg hlt]
    rfl

/-- A healthy device accepts a launch and counts it. -/
theorem accept_eq {d : Device} (healthy : d.Healthy 1) (inputs : Nat) :
    d.accept (d.gridFor inputs) = .ok (d.counting 1 0) :=
  accept_of_valid (healthy.launchable.validate_eq inputs) healthy.usable healthy.affords

/-- A device whose budget is used up turns a launch away. -/
theorem accept_rejected {d : Device} (launchable : d.Launchable) (usable : d.poisoned = false)
    {limit : Nat} (hlimit : d.config.failAfterSubmissions = some limit) (used : limit ≤ d.submissions)
    (inputs : Nat) :
    d.accept (d.gridFor inputs) = .error (.launch (.queueRejected d.submissions)) := by
  have hqueue := checkQueue_eq_ok.mpr usable
  unfold accept
  rw [launchable.validate_eq, hqueue]
  simp only [hlimit, Except.mapError, bind, Except.bind, if_pos used]
  rfl

/-- What a device has to be for a launch, and what it is afterwards. -/
theorem accept_ok {d e : Device} {r : Range2} (accepted : d.accept r = .ok e) :
    (∃ groups, r.validate d.config.maxWorkGroupSize = .ok groups) ∧ d.poisoned = false ∧
      (∀ limit, d.config.failAfterSubmissions = some limit → d.submissions < limit) ∧
      e = d.counting 1 0 := by
  unfold accept at accepted
  obtain ⟨groups, hgroups, accepted⟩ := checked_bind.mp accepted
  obtain ⟨⟨⟩, hqueue, accepted⟩ := checked_bind.mp accepted
  have hvalid := checked_mapError.mp hgroups
  have husable := checkQueue_eq_ok.mp hqueue
  cases hlimit : d.config.failAfterSubmissions with
  | none =>
    rw [hlimit] at accepted
    exact ⟨⟨groups, hvalid⟩, husable, by simp, (Except.ok.inj accepted).symm⟩
  | some limit =>
    rw [hlimit] at accepted
    by_cases hused : limit ≤ d.submissions
    · simp only [if_pos hused] at accepted
      exact absurd accepted throw_bind_ne_ok
    · simp only [if_neg hused] at accepted
      refine ⟨⟨groups, hvalid⟩, husable, ?_, (Except.ok.inj accepted).symm⟩
      intro other heq
      rw [← Option.some.inj heq]
      exact Nat.not_le.mp hused

/-- Only a device in order accepts a launch. -/
theorem healthy_of_accept {d e : Device} {inputs : Nat}
    (fits : d.groupsPerLaunch.toNat * d.config.maxWorkGroupSize.toNat < 2 ^ 32)
    (accepted : d.accept (d.gridFor inputs) = .ok e) : d.Healthy 1 := by
  obtain ⟨⟨groups, hvalid⟩, husable, hbudget, -⟩ := accept_ok accepted
  constructor
  · apply Nat.pos_of_ne_zero
    intro hzero
    have hempty : d.config.maxWorkGroupSize = 0 := UInt32.toNat_inj.mp hzero
    rw [Range2.validate, if_pos (.inl hempty)] at hvalid
    exact absurd hvalid (by simp)
  · exact fits
  · exact husable
  · exact hbudget

end Device

namespace StagingBuffer
variable {α : Type} [Record α]

/-- What has been staged is what a launch is told. -/
theorem slice_put {b : StagingBuffer α} {items : List α} (room : items.length ≤ b.capacity) :
    (b.put items).slice items.length = .ok items := by
  have hroom : ¬(b.put items).capacity < items.length := Nat.not_lt.mpr room
  rw [slice, if_neg hroom]
  congr 1
  apply List.ext_getElem (by simp)
  intro i h₁ h₂
  simp [record, put, Array.getD_eq_getD_getElem?, Array.getElem?_append, h₂]

end StagingBuffer

/-- The machine when bytes have been staged. -/
def Machine.staged (m : Machine) (bytes : Nat) : Machine :=
  { m with device := m.device.counting 0 1 }.note (.staged bytes)

@[simp] theorem Machine.staged_device (m : Machine) (bytes : Nat) :
    (m.staged bytes).device = m.device.counting 0 1 := rfl

section Stage
variable {α : Type} [Record α] {b : StagingBuffer α} {items : List α} {m : Machine}

theorem Action.stage_run (room : items.length ≤ b.capacity) (usable : m.device.poisoned = false) :
    Action.stage b items m = (.ok (b.put items), m.staged (items.length * Record.size α)) := by
  have hstage : m.device.stage b items = .ok (b.put items, m.device.counting 0 1) := by
    have hqueue := Device.checkQueue_eq_ok.mpr usable
    unfold Device.stage
    rw [if_neg (Nat.not_lt.mpr room), hqueue]
    rfl
  unfold Action.stage
  rw [Action.bind_ok (Action.get_run m), hstage, Action.bind_ok (Action.execution_ok _ m)]
  rfl

theorem Action.stage_poisoned (room : items.length ≤ b.capacity) (poisoned : m.device.poisoned = true) :
    Action.stage b items m = (.error (.backend (.execution .queuePoisoned)), m) := by
  have hstage : m.device.stage b items = .error .queuePoisoned := by
    unfold Device.stage
    rw [if_neg (Nat.not_lt.mpr room), Device.checkQueue, poisoned]
    rfl
  unfold Action.stage
  rw [Action.bind_ok (Action.get_run m), hstage, Action.bind_error (Action.execution_error _ m)]

theorem Action.stage_overrun (tooLong : b.capacity < items.length) :
    Action.stage b items m =
      (.error (.backend (.execution (.launch (.stagingOverrun items.length b.capacity)))), m) := by
  have hstage : m.device.stage b items =
      .error (.launch (.stagingOverrun items.length b.capacity)) := by
    unfold Device.stage
    rw [if_pos tooLong]
    rfl
  unfold Action.stage
  rw [Action.bind_ok (Action.get_run m), hstage, Action.bind_error (Action.execution_error _ m)]

end Stage

/-- Describing a batch writes the records of its parts and carries the offset on. -/
theorem describeBatch_eq {axis start : Nat} {batch : List Tensor}
    (haxis : ∀ t ∈ batch, axis < t.dims.length) (small : ∀ t ∈ batch, t.numel < 2 ^ 32)
    (fits : start + totalExtent axis batch < 2 ^ 32) :
    describeBatch axis (UInt32.ofNat start) batch =
      .ok ((placed axis start batch).map (recordOf axis),
        UInt32.ofNat (start + totalExtent axis batch)) := by
  induction batch generalizing start with
  | nil => rfl
  | cons t ts ih =>
    rw [totalExtent_cons] at fits
    obtain ⟨a, ha, hextent⟩ := Tensor.axis_eq (haxis t (by simp))
    have hdim : indexWord a.extent = .ok (UInt32.ofNat (t.extentAt axis)) := by
      rw [hextent]
      exact if_pos (by omega)
    have hnumel : indexWord t.numel = .ok (UInt32.ofNat t.numel) := if_pos (small t (by simp))
    have hnext : nextOffset (UInt32.ofNat start) (UInt32.ofNat (t.extentAt axis)) =
        .ok (UInt32.ofNat (start + t.extentAt axis)) := by
      rw [nextOffset, toNat_ofNat_of_lt (by omega), toNat_ofNat_of_lt (by omega),
        if_pos (by omega), UInt32.ofNat_add]
    have hrest := @ih (start + t.extentAt axis) (fun u hu => haxis u (by simp [hu]))
      (fun u hu => small u (by simp [hu])) (by omega)
    simp only [describeBatch, ha, hdim, hnumel, hnext, hrest, bind, Except.bind, pure, Except.pure,
      placed, List.map_cons, totalExtent_cons, recordOf, Nat.add_assoc]

theorem length_describeBatch {axis : Nat} {offset next : UInt32} {batch : List Tensor}
    {records : List (Descriptor Pointer)}
    (described : describeBatch axis offset batch = .ok (records, next)) :
    records.length = batch.length := by
  induction batch generalizing offset records with
  | nil =>
    obtain ⟨rfl, -⟩ := Prod.mk.inj (Except.ok.inj described)
    rfl
  | cons t ts ih =>
    obtain ⟨a, -, described⟩ := checked_bind.mp described
    obtain ⟨dimSize, -, described⟩ := checked_bind.mp described
    obtain ⟨elements, -, described⟩ := checked_bind.mp described
    obtain ⟨offset', -, described⟩ := checked_bind.mp described
    obtain ⟨⟨later, last⟩, hlater, described⟩ := checked_bind.mp described
    obtain ⟨rfl, rfl⟩ := Prod.mk.inj (Except.ok.inj described)
    rw [List.length_cons, List.length_cons, ih hlater]

namespace Launch

/-- On a device, the items of a launch over a batch make these moves, and do so safely. -/
def Safe (l : Launch) (out : Tensor) (batch : List Tensor) (d : Device)
    (mss : List (List Move)) : Prop :=
  ∃ r, rangeFor d l.descriptors.size = .ok r ∧ List.Forall₂ (l.ItemSafe out batch) r.items mss

theorem Safe.congr {l : Launch} {out : Tensor} {batch : List Tensor} {d e : Device}
    {mss : List (List Move)} (safe : l.Safe out batch d mss) (same : e.config = d.config) :
    l.Safe out batch e mss := by
  obtain ⟨r, hr, hitems⟩ := safe
  refine ⟨r, ?_, hitems⟩
  rw [← hr, rangeFor, rangeFor, Device.groupsPerLaunch, Device.groupsPerLaunch, same]

/-- An accepted launch makes the moves of its items. -/
theorem submit_run {l : Launch} {m : Machine} (healthy : m.device.Healthy 1)
    (joined : l.joined < l.layout.strides.length) {out : Tensor} {batch : List Tensor}
    {mss : List (List Move)} (safe : l.Safe out batch m.device mss) :
    ∃ m', l.submit m = (.ok (), m') ∧ m'.heap = m.heap.replay l.width mss.flatten ∧
      m'.device = m.device.counting 1 0 := by
  obtain ⟨r, hrange, hitems⟩ := safe
  obtain rfl : m.device.gridFor l.descriptors.size = r :=
    Except.ok.inj ((Device.rangeFor_eq healthy.fits _).symm.trans hrange)
  have hrun := runItems_eq (hitems.imp fun _ _ item => item.computed) m.heap
  have hlaunch : Action.launch (m.device.gridFor l.descriptors.size) l.kernel m.heap m =
      (.ok (m.heap.replay l.width mss.flatten),
        { m.note (.submitted m.device.submissions (m.device.gridFor l.descriptors.size)) with
          device := m.device.counting 1 0 }) := by
    rw [Action.launch_run (Device.accept_eq healthy _), hrun]
  refine ⟨{ m.note (.submitted m.device.submissions (m.device.gridFor l.descriptors.size)) with
    device := m.device.counting 1 0
    heap := m.heap.replay l.width mss.flatten }, ?_, rfl, rfl⟩
  unfold submit
  rw [Action.bind_ok (Action.get_run m), hrange, Action.bind_ok (Action.execution_ok _ m),
    if_neg (Nat.not_le.mpr joined)]
  unfold Action.submit
  beta_reduce
  rw [Action.bind_ok (Action.get_run m), Action.bind_ok hlaunch]
  rfl

/-- A launch that the device turns away changes nothing. -/
theorem submit_error {l : Launch} {m : Machine}
    (fits : m.device.groupsPerLaunch.toNat * m.device.config.maxWorkGroupSize.toNat < 2 ^ 32)
    (joined : l.joined < l.layout.strides.length) {cause : ExecutionCause}
    (refused : m.device.accept (m.device.gridFor l.descriptors.size) = .error cause) :
    l.submit m = (.error (.backend (.execution cause)), m) := by
  unfold submit
  rw [Action.bind_ok (Action.get_run m), Device.rangeFor_eq fits,
    Action.bind_ok (Action.execution_ok _ m), if_neg (Nat.not_le.mpr joined)]
  unfold Action.submit
  beta_reduce
  rw [Action.bind_ok (Action.get_run m), Action.bind_error (Action.launch_refused refused _ _)]

/-- A device that takes no launch turns every launch away. -/
theorem submit_refused {l : Launch} {m : Machine} (unready : ¬m.device.Healthy 1)
    (joined : l.joined < l.layout.strides.length) :
    ∃ cause, l.submit m = (.error (.backend (.execution cause)), m) := by
  by_cases fits : m.device.groupsPerLaunch.toNat * m.device.config.maxWorkGroupSize.toNat < 2 ^ 32
  · cases haccept : m.device.accept (m.device.gridFor l.descriptors.size) with
    | error cause => exact ⟨cause, submit_error fits joined haccept⟩
    | ok e => exact absurd (Device.healthy_of_accept fits haccept) unready
  · have hrange : ∃ cause, rangeFor m.device l.descriptors.size = .error cause := ⟨_, if_neg fits⟩
    rcases hrange with ⟨cause, hrange⟩
    refine ⟨cause, ?_⟩
    unfold submit
    rw [Action.bind_ok (Action.get_run m), hrange, Action.bind_error (Action.execution_error _ m)]

end Launch

theorem flatten_inBatches {α : Type} {n : Nat} (pos : 0 < n) (xs : List α) :
    (inBatches n xs).flatten = xs := by
  fun_induction inBatches n xs with
  | case1 xs h =>
    rcases h with h | h
    · omega
    · exact h.symm
  | case2 xs h ih => rw [List.flatten_cons, ih, List.take_append_drop]

theorem length_le_of_mem_inBatches {α : Type} {n : Nat} {xs batch : List α}
    (h : batch ∈ inBatches n xs) : batch.length ≤ n := by
  fun_induction inBatches n xs with
  | case1 xs hend => simp at h
  | case2 xs hend ih =>
    rcases List.mem_cons.mp h with rfl | h
    · exact List.length_take_le n xs
    · exact ih h

theorem length_inBatches {α : Type} {n : Nat} (pos : 0 < n) (xs : List α) :
    (inBatches n xs).length = (xs.length + n - 1) / n := by
  fun_induction inBatches n xs with
  | case1 xs h =>
    rcases h with h | rfl
    · omega
    · rw [List.length_nil, List.length_nil, Nat.zero_add]
      exact (Nat.div_eq_of_lt (by omega)).symm
  | case2 xs h ih =>
    have hxs : 0 < xs.length := List.length_pos_iff.mpr fun hnil => h (.inr hnil)
    rw [List.length_cons, ih, List.length_drop, ← Nat.add_div_right _ pos]
    by_cases hlast : xs.length ≤ n
    · rw [Nat.div_eq_of_lt_le (k := 1), Nat.div_eq_of_lt_le (k := 1)]
      all_goals omega
    · congr 1
      omega

/-- The first few batches hold the inputs up to a multiple of their length. -/
theorem flatten_take_inBatches {α : Type} {n : Nat} (pos : 0 < n) (xs : List α) (k : Nat) :
    ((inBatches n xs).take k).flatten = xs.take (k * n) := by
  fun_induction inBatches n xs generalizing k with
  | case1 xs h =>
    rcases h with h | rfl
    · omega
    · simp
  | case2 xs h ih =>
    cases k with
    | zero => simp
    | succ k => rw [List.take_succ_cons, List.flatten_cons, ih, Nat.succ_mul, Nat.add_comm, List.take_add]

/-- What the launches over a list of batches do, launch by launch and item by item: each batch
is described from the offset that the one before it has left. -/
inductive Launched (out : Tensor) (layout : OutputLayout) (axis : Nat) (d : Device) :
    UInt32 → List (List Tensor) → List (List (List Move)) → Prop
  | nil (offset : UInt32) : Launched out layout axis d offset [] []
  | cons {offset next : UInt32} {batch : List Tensor} {records : List (Descriptor Pointer)}
      {mss : List (List Move)} {rest : List (List Tensor)} {runs : List (List (List Move))} :
      describeBatch axis offset batch = .ok (records, next) →
      Launch.Safe ⟨out.pointer, out.elementSize, layout, axis, records.toArray⟩ out batch d mss →
      Launched out layout axis d next rest runs →
      Launched out layout axis d offset (batch :: rest) (mss :: runs)

theorem Launched.length_eq {out : Tensor} {layout : OutputLayout} {axis : Nat} {d : Device}
    {offset : UInt32} {batches : List (List Tensor)} {runs : List (List (List Move))}
    (launched : Launched out layout axis d offset batches runs) : runs.length = batches.length := by
  induction launched with
  | nil offset => rfl
  | cons _ _ _ ih => rw [List.length_cons, List.length_cons, ih]

section Run
variable {out : Tensor} {layout : OutputLayout} {axis : Nat}
  {staging : StagingBuffer (Descriptor Pointer)} {offset next : UInt32} {batch : List Tensor}
  {records : List (Descriptor Pointer)} {m : Machine}

/-- A batch whose records are staged is what its launch makes of it. -/
theorem copyBatches_staged (described : describeBatch axis offset batch = .ok (records, next))
    (room : batch.length ≤ staging.capacity) (usable : m.device.poisoned = false)
    (rest : List (List Tensor)) :
    copyBatches out layout axis staging offset (batch :: rest) m =
      ((⟨out.pointer, out.elementSize, layout, axis, records.toArray⟩ : Launch).submit >>= fun _ =>
        copyBatches out layout axis (staging.put records) next rest)
          (m.staged (records.length * Record.size (Descriptor Pointer))) := by
  have hroom : records.length ≤ staging.capacity := length_describeBatch described ▸ room
  rw [copyBatches, described, Action.bind_ok (Action.lift_ok _ m)]
  dsimp only
  rw [Action.bind_ok (Action.stage_run hroom usable), StagingBuffer.slice_put hroom,
    Action.bind_ok (Action.execution_ok _ _)]

/-- One batch is described, staged and launched. -/
theorem copyBatches_cons {mss : List (List Move)}
    (described : describeBatch axis offset batch = .ok (records, next))
    (safe : Launch.Safe ⟨out.pointer, out.elementSize, layout, axis, records.toArray⟩ out batch
      m.device mss)
    (joined : axis < layout.strides.length) (room : batch.length ≤ staging.capacity)
    (healthy : m.device.Healthy 1) (rest : List (List Tensor)) :
    ∃ m', copyBatches out layout axis staging offset (batch :: rest) m =
        copyBatches out layout axis (staging.put records) next rest m' ∧
      m'.heap = m.heap.replay out.elementSize mss.flatten ∧ m'.device = m.device.counting 1 1 := by
  have hhealthy : (m.device.counting 0 1).Healthy 1 :=
    ⟨healthy.size, healthy.fits, healthy.usable, healthy.budget⟩
  obtain ⟨m', hsubmit, hheap, hdevice⟩ := @Launch.submit_run _
    (m.staged (records.length * Record.size (Descriptor Pointer))) hhealthy joined _ _ _
    (safe.congr rfl)
  refine ⟨m', ?_, hheap, by simpa using hdevice⟩
  rw [copyBatches_staged described room healthy.usable, Action.bind_ok hsubmit]

/-- A batch that a device does not take stops the run, and changes no memory. -/
theorem copyBatches_stopped (described : describeBatch axis offset batch = .ok (records, next))
    (joined : axis < layout.strides.length) (room : batch.length ≤ staging.capacity)
    (unready : ¬m.device.Healthy 1) (rest : List (List Tensor)) :
    ∃ cause m', copyBatches out layout axis staging offset (batch :: rest) m =
        (.error (.backend (.execution cause)), m') ∧ m'.heap = m.heap := by
  cases husable : m.device.poisoned with
  | false =>
    have hunready : ¬(m.device.counting 0 1).Healthy 1 :=
      fun healthy => unready ⟨healthy.size, healthy.fits, healthy.usable, healthy.budget⟩
    obtain ⟨cause, hsubmit⟩ := @Launch.submit_refused
      ⟨out.pointer, out.elementSize, layout, axis, records.toArray⟩
      (m.staged (records.length * Record.size (Descriptor Pointer))) hunready joined
    refine ⟨cause, m.staged (records.length * Record.size (Descriptor Pointer)), ?_, rfl⟩
    rw [copyBatches_staged described room husable, Action.bind_error hsubmit]
  | true =>
    have hroom : records.length ≤ staging.capacity := length_describeBatch described ▸ room
    refine ⟨.queuePoisoned, m, ?_, rfl⟩
    rw [copyBatches, described, Action.bind_ok (Action.lift_ok _ m)]
    dsimp only
    rw [Action.bind_error (Action.stage_poisoned hroom husable)]

/-- The batch at which the budget ends is staged but not launched. -/
theorem copyBatches_rejected (described : describeBatch axis offset batch = .ok (records, next))
    (joined : axis < layout.strides.length) (room : batch.length ≤ staging.capacity)
    (launchable : m.device.Launchable) (usable : m.device.poisoned = false) {limit : Nat}
    (hlimit : m.device.config.failAfterSubmissions = some limit)
    (used : limit ≤ m.device.submissions) (rest : List (List Tensor)) :
    ∃ m', copyBatches out layout axis staging offset (batch :: rest) m =
        (.error (.backend (.execution (.launch (.queueRejected m.device.submissions)))), m') ∧
      m'.heap = m.heap ∧ m'.device = m.device.counting 0 1 := by
  have hlaunchable := launchable.counting 0 1
  have hsubmit := @Launch.submit_error
    ⟨out.pointer, out.elementSize, layout, axis, records.toArray⟩
    (m.staged (records.length * Record.size (Descriptor Pointer))) hlaunchable.fits joined _
    (Device.accept_rejected hlaunchable usable hlimit used _)
  refine ⟨m.staged (records.length * Record.size (Descriptor Pointer)), ?_, rfl, rfl⟩
  rw [copyBatches_staged described room usable, Action.bind_error hsubmit]
  rfl

/-- The batches that the budget lasts for are copied one after the other, and the others are
left to do. -/
theorem copyBatches_append {d : Device} {done rest : List (List Tensor)}
    {runs : List (List (List Move))}
    (launched : Launched out layout axis d offset (done ++ rest) runs)
    (joined : axis < layout.strides.length) (room : ∀ b ∈ done, b.length ≤ staging.capacity)
    (same : m.device.config = d.config) (launchable : m.device.Launchable)
    (usable : m.device.poisoned = false) (affords : m.device.Affords done.length) :
    ∃ staging' next m', copyBatches out layout axis staging offset (done ++ rest) m =
        copyBatches out layout axis staging' next rest m' ∧
      staging'.capacity = staging.capacity ∧
      Launched out layout axis d next rest (runs.drop done.length) ∧
      m'.heap = m.heap.replay out.elementSize
        ((runs.take done.length).map List.flatten).flatten ∧
      m'.device = m.device.counting done.length done.length := by
  -- Buffer, offset and counters change from batch to batch, the device's geometry does not.
  induction done generalizing staging offset runs m with
  | nil => exact ⟨staging, offset, m, rfl, rfl, launched, rfl, rfl⟩
  | cons batch done ih =>
    cases launched with
    | cons described safe later =>
      rename_i next records mss runs
      obtain ⟨m₁, hbatch, hheap, hdevice⟩ := copyBatches_cons described (safe.congr same) joined
        (room _ (by simp)) (affords.healthy launchable usable) (done ++ rest)
      have haffords : m₁.device.Affords done.length := by
        rw [hdevice]
        exact affords.counting 1
      obtain ⟨staging', next', m', hrun, hcapacity, hlater, hheap', hdevice'⟩ :=
        @ih (staging.put records) next m₁ runs later (fun b hb => room b (by simp [hb]))
          (by rw [hdevice]; exact same) (by rw [hdevice]; exact launchable.counting 1 1)
          (by rw [hdevice]; exact usable) haffords
      refine ⟨staging', next', m', hbatch.trans hrun, hcapacity, hlater, ?_, ?_⟩
      · rw [hheap', hheap, List.length_cons, List.take_succ_cons, List.map_cons, List.flatten_cons,
          Heap.replay_append]
      · rw [hdevice', hdevice, Device.counting_counting, List.length_cons, Nat.add_comm 1]

/-- The batches are copied one after the other. -/
theorem copyBatches_run {d : Device} {batches : List (List Tensor)} {runs : List (List (List Move))}
    (launched : Launched out layout axis d offset batches runs)
    (joined : axis < layout.strides.length) (room : ∀ b ∈ batches, b.length ≤ staging.capacity)
    (same : m.device.config = d.config) (healthy : m.device.Healthy batches.length) :
    ∃ m', copyBatches out layout axis staging offset batches m = (.ok (), m') ∧
      m'.heap = m.heap.replay out.elementSize (runs.map List.flatten).flatten := by
  rw [← List.append_nil batches] at launched
  obtain ⟨staging', next, m', hrun, -, -, hheap, -⟩ := copyBatches_append launched joined room same
    healthy.launchable healthy.usable healthy.affords
  have hlength := launched.length_eq
  rw [List.append_nil] at hrun hlength
  rw [← hlength, List.take_length] at hheap
  exact ⟨m', hrun, hheap⟩

/-- Whatever the device, a run makes the moves of its first few launches and no others, and
a run that is cut short says that it could not be executed. -/
theorem copyBatches_partial {d : Device} {batches : List (List Tensor)}
    {runs : List (List (List Move))} (launched : Launched out layout axis d offset batches runs)
    (joined : axis < layout.strides.length) (room : ∀ b ∈ batches, b.length ≤ staging.capacity)
    (same : m.device.config = d.config) :
    ∃ (r : Except Failure Unit) (m' : Machine) (k : Nat),
      copyBatches out layout axis staging offset batches m = (r, m') ∧
      m'.heap = m.heap.replay out.elementSize ((runs.take k).map List.flatten).flatten ∧
      (r = .ok () ∨ ∃ cause, r = .error (.backend (.execution cause))) := by
  induction launched generalizing staging m with
  | nil offset => exact ⟨.ok (), m, 0, rfl, rfl, .inl rfl⟩
  | cons described safe later ih =>
    rename_i records mss rest runs
    by_cases healthy : m.device.Healthy 1
    · obtain ⟨m₁, hbatch, hheap, hdevice⟩ :=
        copyBatches_cons described (safe.congr same) joined (room _ (by simp)) healthy rest
      obtain ⟨r, m', k, hrun, hheap', hanswer⟩ := @ih (staging.put records) m₁
        (fun b hb => room b (by simp [hb])) (by rw [hdevice]; exact same)
      refine ⟨r, m', k + 1, hbatch.trans hrun, ?_, hanswer⟩
      rw [hheap', hheap, List.take_succ_cons, List.map_cons, List.flatten_cons, Heap.replay_append]
    · obtain ⟨cause, m', hrun, hheap⟩ :=
        copyBatches_stopped described joined (room _ (by simp)) healthy rest
      exact ⟨_, m', 0, hrun, hheap, .inr ⟨cause, rfl⟩⟩

end Run

section Match
variable {out : Tensor} {f : MemoryFormat} {axis : Nat} {parts : List Tensor}

/-- The records of consecutive parts are written, and carry the start of the next part on. -/
theorem describeBatch_placed (matching : Matches out f axis parts)
    (indexable : OutputLayout.Indexable out.axes) (small : out.numel < 2 ^ 32) {start : Nat}
    {batch : List Tensor} (hparts : ∀ p ∈ placed axis start batch, p ∈ placed axis 0 parts)
    (hstart : start + totalExtent axis batch ≤ out.extentAt axis) :
    describeBatch axis (UInt32.ofNat start) batch =
      .ok ((placed axis start batch).map (recordOf axis),
        UInt32.ofNat (start + totalExtent axis batch)) := by
  have hextent : out.extentAt axis < 2 ^ 32 := OutputLayout.extent_lt indexable axis
  have hmem : ∀ t ∈ batch, ∃ s, (s, t) ∈ placed axis 0 parts := by
    intro t ht
    obtain ⟨s, hs⟩ := @exists_placed axis start batch t ht
    exact ⟨s, hparts _ hs⟩
  apply describeBatch_eq
  · intro t ht
    obtain ⟨s, hs⟩ := hmem t ht
    rw [matching.fit t (matching.mem_placed hs).1, List.length_set]
    exact matching.axis_lt
  · intro t ht
    obtain ⟨s, hs⟩ := hmem t ht
    exact (numel_placed_le matching hs).trans_lt small
  · omega

/-- The launches over consecutive parts are safe, and any number of them from the first on
makes every transfer of the parts they are told of. -/
theorem exists_launched (matching : Matches out f axis parts)
    (indexable : OutputLayout.Indexable out.axes) (small : out.numel < 2 ^ 32) {d : Device}
    (launchable : d.Launchable) {batches : List (List Tensor)}
    (room : ∀ b ∈ batches, b.length < 2 ^ 32) {start : Nat}
    (hparts : ∀ p ∈ placed axis start batches.flatten, p ∈ placed axis 0 parts)
    (hstart : start + totalExtent axis batches.flatten ≤ out.extentAt axis) :
    ∃ runs : List (List (List Move)),
      Launched out (.ofAxes out.axes) axis d (UInt32.ofNat start) batches runs ∧
      ∀ k, ∃ xs : List Transfer,
        ((runs.take k).map List.flatten).flatten = xs.map (Transfer.move out f axis) ∧
        xs.Perm (transfers axis start (batches.take k).flatten) := by
  induction batches generalizing start with
  | nil => exact ⟨[], .nil _, fun k => ⟨[], by simp, by simp [transfers, placed]⟩⟩
  | cons batch rest ih =>
    rw [List.flatten_cons] at hparts hstart
    rw [placed_append] at hparts
    rw [totalExtent_append] at hstart
    have hfirst : ∀ p ∈ placed axis start batch, p ∈ placed axis 0 parts :=
      fun p hp => hparts p (List.mem_append_left _ hp)
    have hdescribe := describeBatch_placed matching indexable small hfirst (by omega)
    have hcount : (UInt32.ofNat batch.length).toNat = batch.length :=
      toNat_ofNat_of_lt (room batch (by simp))
    obtain ⟨mss, xs, hitems, hmoves, hperm⟩ := safe_launchOf indexable small launchable.fits
      matching hfirst launchable.size d.groupsPerLaunch_pos hcount
    have hsize : (launchOf out axis start batch).descriptors.size = batch.length := by
      simp [launchOf, length_placed]
    have hsafe : (launchOf out axis start batch).Safe out batch d mss := by
      refine ⟨_, Device.rangeFor_eq launchable.fits _, ?_⟩
      rw [hsize]
      exact hitems
    obtain ⟨runs, hlater, hmovesLater⟩ := ih (fun b hb => room b (by simp [hb]))
      (fun p hp => hparts p (List.mem_append_right _ hp)) (by omega)
    refine ⟨mss :: runs, .cons hdescribe hsafe hlater, fun k => ?_⟩
    cases k with
    | zero => exact ⟨[], by simp, by simp [transfers, placed]⟩
    | succ k =>
      obtain ⟨ys, hys, hpermLater⟩ := hmovesLater k
      refine ⟨xs ++ ys, ?_, ?_⟩
      · rw [List.take_succ_cons, List.map_cons, List.flatten_cons, hmoves, hys, List.map_append]
      · rw [List.take_succ_cons, List.flatten_cons, transfers_append]
        exact hperm.append hpermLater

section Start
variable {inputs : List Tensor} {capacity : Nat} {m : Machine}

/-- The machine when the batches of a call have been counted out. -/
def Machine.batched (m : Machine) (out : Tensor) (inputs : List Tensor) (capacity : Nat) : Machine :=
  m.note (.batched inputs.length (inBatches capacity inputs).length out.rank out.elementSize)

/-- When the output's extents and strides are words, the batched engine gets to its launches. -/
theorem copyBatched_eq (indexable : OutputLayout.Indexable out.axes)
    (rank : 1 ≤ out.rank ∧ out.rank ≤ maxFusedRank) (pos : 0 < capacity) (le : capacity ≤ maxBatch)
    (m : Machine) :
    copyBatched out inputs axis out.rank capacity m =
      copyBatches out (.ofAxes out.axes) axis ⟨capacity, #[]⟩ 0 (inBatches capacity inputs)
        (m.batched out inputs capacity) := by
  have hrank : ¬(out.rank < 1 ∨ maxFusedRank < out.rank) := by omega
  have hstaging : Device.allocStaging (Descriptor Pointer) capacity = .ok ⟨capacity, #[]⟩ := by
    refine if_pos ?_
    unfold maxBatch at le
    unfold storageLimit
    change capacity * 24 ≤ _
    omega
  unfold copyBatched
  rw [if_neg hrank, OutputLayout.capture_eq indexable, hstaging]
  beta_reduce
  rw [Action.bind_ok (Action.execution_ok _ m), Action.bind_ok (Action.lift_ok _ m),
    if_neg (Nat.ne_zero_of_lt pos)]
  dsimp only
  rw [Action.bind_ok (Action.note_run _ m)]
  rfl

/-- An output with an extent or a stride that is no word is turned down before anything is
staged. -/
theorem copyBatched_unindexable (unindexable : ¬OutputLayout.Indexable out.axes)
    (rank : 1 ≤ out.rank ∧ out.rank ≤ maxFusedRank) (capacity : Nat) (m : Machine) :
    ∃ what n, 2 ^ 32 ≤ n ∧ copyBatched out inputs axis out.rank capacity m =
      (.error (.backend (.execution (.outputIndex what n))), m) := by
  have hrank : ¬(out.rank < 1 ∨ maxFusedRank < out.rank) := by omega
  rcases OutputLayout.capture_error unindexable with ⟨what, n, hn, hcapture⟩
  refine ⟨what, n, hn, ?_⟩
  unfold copyBatched
  rw [if_neg hrank, hcapture]
  exact Action.bind_error (Action.execution_error _ m) _

/-- The launches of a call, and the transfers that any number of them makes. -/
theorem exists_launched_inBatches (matching : Matches out f axis inputs)
    (indexable : OutputLayout.Indexable out.axes) (small : out.numel < 2 ^ 32) (pos : 0 < capacity)
    (le : capacity ≤ maxBatch) {d : Device} (launchable : d.Launchable) :
    ∃ runs : List (List (List Move)),
      Launched out (.ofAxes out.axes) axis d 0 (inBatches capacity inputs) runs ∧
      ∀ k, ∃ xs : List Transfer,
        ((runs.take k).map List.flatten).flatten = xs.map (Transfer.move out f axis) ∧
        xs.Perm (transfers axis 0 ((inBatches capacity inputs).take k).flatten) := by
  have hflat := flatten_inBatches pos inputs
  have hroom : ∀ b ∈ inBatches capacity inputs, b.length < 2 ^ 32 := by
    intro b hb
    have hlength := length_le_of_mem_inBatches hb
    unfold maxBatch at le
    omega
  apply exists_launched matching indexable small launchable hroom
  · rw [hflat]
    exact fun p hp => hp
  · rw [hflat, matching.total, Nat.zero_add]

theorem joined_lt_strides (matching : Matches out f axis inputs) :
    axis < (OutputLayout.ofAxes out.axes).strides.length := by
  rw [OutputLayout.length_strides_ofAxes]
  exact matching.axis_lt_axes

/-- A device that takes no launch stops a call at its first batch. -/
theorem copyBatched_stopped (matching : Matches out f axis inputs)
    (indexable : OutputLayout.Indexable out.axes) (small : out.numel < 2 ^ 32)
    (rank : 1 ≤ out.rank ∧ out.rank ≤ maxFusedRank) (pos : 0 < capacity)
    (le : capacity ≤ maxBatch) (nonempty : inputs ≠ []) (unready : ¬m.device.Healthy 1) :
    ∃ cause m', copyBatched out inputs axis out.rank capacity m =
        (.error (.backend (.execution cause)), m') ∧ m'.heap = m.heap := by
  have hsplit := List.take_append_drop capacity inputs
  have hbatches : inBatches capacity inputs =
      inputs.take capacity :: inBatches capacity (inputs.drop capacity) := by
    rw [inBatches, dif_neg]
    rw [not_or]
    exact ⟨by omega, nonempty⟩
  have hfirst : ∀ p ∈ placed axis 0 (inputs.take capacity), p ∈ placed axis 0 inputs := by
    intro p hp
    rw [← hsplit, placed_append]
    exact List.mem_append_left _ hp
  have hroom : 0 + totalExtent axis (inputs.take capacity) ≤ out.extentAt axis := by
    rw [← matching.total, ← hsplit, totalExtent_append, hsplit]
    omega
  have hdescribe := describeBatch_placed matching indexable small hfirst hroom
  rw [copyBatched_eq indexable rank pos le, hbatches]
  exact copyBatches_stopped (m := m.batched out inputs capacity) hdescribe (joined_lt_strides matching)
    (List.length_take_le _ _) unready _

/-- The batched engine succeeds and makes every transfer once. -/
theorem copyBatched_run (matching : Matches out f axis inputs)
    (indexable : OutputLayout.Indexable out.axes) (small : out.numel < 2 ^ 32)
    (rank : 1 ≤ out.rank ∧ out.rank ≤ maxFusedRank) (pos : 0 < capacity)
    (le : capacity ≤ maxBatch)
    (healthy : m.device.Healthy (inBatches capacity inputs).length) :
    ∃ (m' : Machine) (runs : List (List (List Move))) (xs : List Transfer),
      copyBatched out inputs axis out.rank capacity m = (.ok (), m') ∧
      Launched out (.ofAxes out.axes) axis m.device 0 (inBatches capacity inputs) runs ∧
      (runs.map List.flatten).flatten = xs.map (Transfer.move out f axis) ∧
      xs.Perm (transfers axis 0 inputs) ∧
      m'.heap = m.heap.replay out.elementSize (xs.map (Transfer.move out f axis)) := by
  obtain ⟨runs, hlaunched, hmoves⟩ :=
    exists_launched_inBatches matching indexable small pos le healthy.launchable
  obtain ⟨xs, hxs, hperm⟩ := hmoves runs.length
  rw [List.take_length] at hxs
  rw [hlaunched.length_eq, List.take_length, flatten_inBatches pos] at hperm
  obtain ⟨m', hrun, hheap⟩ := @copyBatches_run out (.ofAxes out.axes) axis ⟨capacity, #[]⟩ 0
    (m.batched out inputs capacity) m.device (inBatches capacity inputs) runs hlaunched
    (joined_lt_strides matching) (fun b hb => length_le_of_mem_inBatches hb) rfl healthy
  refine ⟨m', runs, xs, ?_, hlaunched, hxs, hperm, by rw [hheap, hxs]; rfl⟩
  rw [copyBatched_eq indexable rank pos le]
  exact hrun

end Start

end Match

end TensorConcat
