import TensorConcat.Concat.Accelerator
import TensorConcat.Proofs.Running

/-!
# What filling an output never does

Once a request has been accepted, an engine stages, launches, copies and writes, and any of
these may fail, on a device in any state. None of them makes a storage or changes the size of
one, and none answers that a rule of the operation is broken. Both are kept by each step of an
action, and so by every action that is put together from such steps.
-/

namespace TensorConcat

/-- The same storages, each as large in the one heap as in the other. -/
structure Heap.SameSizes (h k : Heap) : Prop where
  count : k.storages.size = h.storages.size
  capacity : ∀ s, k.capacity s = h.capacity s

namespace Heap.SameSizes
variable {h k l : Heap}

theorem refl (h : Heap) : h.SameSizes h := ⟨rfl, fun _ => rfl⟩

theorem trans (first : h.SameSizes k) (second : k.SameSizes l) : h.SameSizes l where
  count := second.count.trans first.count
  capacity s := (second.capacity s).trans (first.capacity s)

theorem store (h : Heap) (storage start : Nat) (bytes : List UInt8) :
    h.SameSizes (h.store storage start bytes) where
  count := storages_size_store ..
  capacity _ := capacity_store ..

end Heap.SameSizes

section Loops
variable {σ ε ι : Type} {P : σ → Prop}

theorem Odometer.run_keeps {f : Nat → Nat → σ → σ} (step : ∀ l r s, P s → P (f l r s)) (n : Nat)
    (o : Odometer) {s : σ} (hs : P s) : P (Odometer.run f n o s) := by
  induction n generalizing o s with
  | zero => exact hs
  | succ n ih => exact ih _ (step _ _ _ hs)

/-- What each call keeps, a walk keeps. -/
theorem Odometer.walk_keeps {f : Nat → Nat → σ → σ} (step : ∀ l r s, P s → P (f l r s))
    (extents left right : List Nat) {s : σ} (hs : P s) :
    P (Odometer.walk extents left right f s) := Odometer.run_keeps step _ _ hs

theorem foldlM_keeps {f : σ → ι → Except ε σ}
    (step : ∀ s i s', P s → f s i = .ok s' → P s') {is : List ι} {s s' : σ} (hs : P s)
    (hrun : is.foldlM f s = .ok s') : P s' := by
  induction is generalizing s with
  | nil =>
    rw [List.foldlM_nil] at hrun
    exact Except.ok.inj hrun ▸ hs
  | cons i is ih =>
    rw [List.foldlM_cons] at hrun
    rcases checked_bind.mp hrun with ⟨t, hfirst, hrest⟩
    exact ih (step s i t hs hfirst) hrest

end Loops

namespace Tensor
variable (target source : Tensor) (h : Heap)

theorem sameSizes_copyMatching [FloatCasts] : h.SameSizes (copyMatching target source h) := by
  unfold copyMatching
  split
  · exact .refl h
  · split
    · exact .store ..
    · exact Odometer.walk_keeps (fun _ _ _ hs => hs.trans (.store ..)) _ _ _ (.refl h)

theorem sameSizes_fill (t : Tensor) (bytes : Array UInt8) : h.SameSizes (t.fill bytes h) :=
  Odometer.walk_keeps (fun _ _ _ hs => hs.trans (.store ..)) _ _ _ (.refl h)

end Tensor

/-- An answer other than that a rule of the operation is broken. -/
def Unruled {α : Type} (answer : Except Failure α) : Prop :=
  ∀ v, answer ≠ .error (.backend (.violation v))

namespace Unruled
variable {α β : Type}

theorem ok (a : α) : Unruled (.ok a) := by simp [Unruled]

theorem fault (e : Fault) : Unruled (α := α) (.error (.fault e)) := by simp [Unruled]

theorem execution (cause : ExecutionCause) :
    Unruled (α := α) (.error (.backend (.execution cause))) := by simp [Unruled]

theorem unimplemented (operation reason : String) :
    Unruled (α := α) (.error (.backend (.unimplemented operation reason))) := by simp [Unruled]

theorem bind {x : Except Failure α} {f : α → Except Failure β} (hx : Unruled x)
    (hf : ∀ a, Unruled (f a)) : Unruled (x >>= f) := by
  cases x with
  | ok a => exact hf a
  | error e => exact fun v hv => hx v (congrArg Except.error (Except.error.inj hv))

end Unruled

/-- On every machine, the action leaves storages of the same sizes and answers something else
than that a rule of the operation is broken. -/
structure Steady {α : Type} (x : Action α) : Prop where
  answer (m : Machine) : Unruled (x m).1
  sizes (m : Machine) : m.heap.SameSizes (x m).2.heap

namespace Steady
variable {α β : Type}

theorem of_run {x : Action α}
    (h : ∀ m : Machine, Unruled (x m).1 ∧ m.heap.SameSizes (x m).2.heap) : Steady x :=
  ⟨fun m => (h m).1, fun m => (h m).2⟩

theorem pure (a : α) : Steady (Pure.pure a : Action α) :=
  ⟨fun _ => .ok a, fun _ => .refl _⟩

theorem bind {x : Action α} {f : α → Action β} (hx : Steady x) (hf : ∀ a, Steady (f a)) :
    Steady (x >>= f) := by
  apply of_run
  intro m
  have hanswer := hx.answer m
  have hsizes := hx.sizes m
  rw [Action.bind_run]
  rcases hrun : x m with ⟨e | a, m'⟩
  · rw [hrun] at hanswer hsizes
    exact ⟨fun v hv => hanswer v (congrArg Except.error (Except.error.inj hv)), hsizes⟩
  · rw [hrun] at hsizes
    exact ⟨(hf a).answer m', hsizes.trans ((hf a).sizes m')⟩

theorem ite {c : Prop} [Decidable c] {x y : Action α} (hx : Steady x) (hy : Steady y) :
    Steady (if c then x else y) := by
  split
  · exact hx
  · exact hy

theorem get : Steady (MonadState.get : Action Machine) := ⟨fun m => .ok m, fun _ => .refl _⟩

theorem note (e : Event) : Steady (Action.note e) := ⟨fun _ => .ok (), fun _ => .refl _⟩

theorem lift {x : Except Failure α} (hx : Unruled x) : Steady (Action.lift x) := by
  cases x with
  | ok a => exact pure a
  | error e => exact ⟨fun _ => hx, fun _ => .refl _⟩

theorem throw {e : Failure} (he : Unruled (α := α) (.error e)) :
    Steady (MonadExcept.throw e : Action α) := ⟨fun _ => he, fun _ => .refl _⟩

theorem execution (x : Except ExecutionCause α) : Steady (Action.execution x) := by
  cases x with
  | ok a => exact pure a
  | error cause => exact ⟨fun _ => .execution cause, fun _ => .refl _⟩

theorem write {f : Heap → Heap} (hf : ∀ h : Heap, h.SameSizes (f h)) : Steady (Action.write f) :=
  ⟨fun _ => .ok (), fun m => hf m.heap⟩

theorem stage {γ : Type} [Record γ] (b : StagingBuffer γ) (items : List γ) :
    Steady (Action.stage b items) := by
  apply of_run
  intro m
  unfold Action.stage
  rw [Action.bind_ok (Action.get_run m)]
  cases m.device.stage b items with
  | error cause => exact ⟨.execution cause, .refl _⟩
  | ok r => exact ⟨.ok _, .refl _⟩

end Steady

namespace Action
variable {σ : Type} {m : Machine}

/-- A launch leaves memory alone, and answers with what its kernel has made of the value. -/
theorem launch_cases (r : Range2) (kernel : WorkItem → σ → Except Fault σ) (s : σ) (m : Machine) :
    (launch r kernel s m).2.heap = m.heap ∧
      ((∃ t, (launch r kernel s m).1 = .ok t ∧ r.runItems kernel s = .ok t) ∨
        (∃ cause, (launch r kernel s m).1 = .error (.backend (.execution cause))) ∨
        ∃ fault, (launch r kernel s m).1 = .error (.fault fault)) := by
  cases haccept : m.device.accept r with
  | error cause =>
    rw [launch_refused haccept]
    exact ⟨rfl, .inr (.inl ⟨cause, rfl⟩)⟩
  | ok device =>
    rw [launch_run haccept]
    cases hrun : r.runItems kernel s with
    | error fault => exact ⟨rfl, .inr (.inr ⟨fault, rfl⟩)⟩
    | ok t => exact ⟨rfl, .inl ⟨t, rfl, rfl⟩⟩

theorem steady_submit (r : Range2) {kernel : WorkItem → Heap → Except Fault Heap}
    (keeps : ∀ item h k, kernel item h = .ok k → h.SameSizes k) :
    Steady (submit r kernel) := by
  apply Steady.of_run
  intro m
  have hlaunch := launch_cases r kernel m.heap m
  unfold submit
  rw [bind_ok (get_run m), bind_run]
  rcases hrun : launch r kernel m.heap m with ⟨answer, m'⟩
  rw [hrun] at hlaunch
  rcases hlaunch with ⟨hheap, ⟨k, rfl, hitems⟩ | ⟨cause, rfl⟩ | ⟨fault, rfl⟩⟩
  · refine ⟨.ok _, ?_⟩
    rw [Range2.runItems_eq_foldlM] at hitems
    exact foldlM_keeps (fun _ item _ hs hk => hs.trans (keeps item _ _ hk)) (.refl _) hitems
  · exact ⟨.execution cause, hheap ▸ .refl _⟩
  · exact ⟨.fault fault, hheap ▸ .refl _⟩

end Action

theorem sameSizes_copyElement {l : Launch} {d : Descriptor Pointer} {base linear : UInt32}
    {h k : Heap} (hk : l.copyElement d base linear h = .ok k) : h.SameSizes k := by
  unfold Launch.copyElement at hk
  rcases checked_bind.mp hk with ⟨offset, -, hk⟩
  rcases checked_bind.mp hk with ⟨target, -, hk⟩
  rw [← Except.ok.inj hk]
  exact .store ..

theorem sameSizes_kernel {l : Launch} (item : WorkItem) (h k : Heap)
    (hk : l.kernel item h = .ok k) : h.SameSizes k := by
  unfold Launch.kernel at hk
  split at hk
  · exact absurd hk (by simp)
  · dsimp only at hk
    split at hk
    · exact Except.ok.inj hk ▸ .refl h
    · rcases checked_bind.mp hk with ⟨base, -, hk⟩
      exact foldlM_keeps (fun _ _ _ hs hstep => hs.trans (sameSizes_copyElement hstep)) (.refl h) hk

theorem Launch.steady_submit (l : Launch) : Steady l.submit := by
  unfold Launch.submit
  apply Steady.get.bind
  intro m
  apply (Steady.execution _).bind
  intro range
  have hsubmit := Action.steady_submit range (sameSizes_kernel (l := l))
  exact .ite ((Steady.throw (.fault _)).bind fun _ => hsubmit) hsubmit

theorem unruled_axis (t : Tensor) (axis : Nat) : Unruled (t.axis axis) := by
  unfold Tensor.axis
  split
  · exact .ok _
  · exact .fault _

theorem unruled_indexWord (n : Nat) : Unruled (indexWord n) := by
  unfold indexWord
  split
  · exact .ok _
  · exact .execution _

theorem unruled_nextOffset (offset dimSize : UInt32) : Unruled (nextOffset offset dimSize) := by
  unfold nextOffset
  split
  · exact .ok _
  · exact .execution _

theorem unruled_describeBatch (axis : Nat) (offset : UInt32) (batch : List Tensor) :
    Unruled (describeBatch axis offset batch) := by
  induction batch generalizing offset with
  | nil => exact .ok _
  | cons t rest ih =>
    unfold describeBatch
    apply (unruled_axis t axis).bind
    intro a
    apply (unruled_indexWord _).bind
    intro dimSize
    apply (unruled_indexWord _).bind
    intro elements
    apply (unruled_nextOffset _ _).bind
    intro next
    exact (ih next).bind fun _ => .ok _

theorem unruled_allocStaging (capacity : Nat) :
    Unruled (Device.allocStaging (Descriptor Pointer) capacity) := by
  unfold Device.allocStaging
  split
  · exact .ok _
  · exact .fault _

theorem steady_copyBatches (out : Tensor) (layout : OutputLayout) (axis : Nat)
    (staging : StagingBuffer (Descriptor Pointer)) (offset : UInt32) (batches : List (List Tensor)) :
    Steady (copyBatches out layout axis staging offset batches) := by
  induction batches generalizing staging offset with
  | nil => exact .pure ()
  | cons batch rest ih =>
    unfold copyBatches
    apply (Steady.lift (unruled_describeBatch axis offset batch)).bind
    intro described
    apply (Steady.stage _ _).bind
    intro staging
    apply (Steady.execution _).bind
    intro descriptors
    apply (Launch.steady_submit _).bind
    intro _
    exact ih _ _

theorem steady_copyBatched (out : Tensor) (inputs : List Tensor) (axis rank capacity : Nat) :
    Steady (copyBatched out inputs axis rank capacity) := by
  have hbatches (layout : OutputLayout) (staging : StagingBuffer (Descriptor Pointer)) :
      Steady (do
        let batches := inBatches capacity inputs
        Action.note (.batched inputs.length batches.length rank out.elementSize)
        copyBatches out layout axis staging 0 batches) :=
    (Steady.note _).bind fun _ => steady_copyBatches ..
  have hstaged : Steady (do
      let layout ← Action.execution (OutputLayout.capture rank out)
      let staging ← Action.lift (Device.allocStaging (Descriptor Pointer) capacity)
      if capacity = 0 then throw (.fault .zeroDivisor)
      let batches := inBatches capacity inputs
      Action.note (.batched inputs.length batches.length rank out.elementSize)
      copyBatches out layout axis staging 0 batches) := by
    apply (Steady.execution _).bind
    intro layout
    apply (Steady.lift (unruled_allocStaging capacity)).bind
    intro staging
    exact .ite ((Steady.throw (.fault _)).bind fun _ => hbatches layout staging)
      (hbatches layout staging)
  exact .ite ((Steady.throw (.unimplemented _ _)).bind fun _ => hstaged) hstaged

theorem steady_slabResult {α : Type} (x : Except ViewError α) : Steady (slabResult x) := by
  cases x with
  | ok a => exact .pure a
  | error e => exact .throw (.execution _)

variable [FloatCasts]

theorem steady_copySlab (slab input : Tensor) : Steady (copySlab slab input) :=
  (steady_slabResult _).bind fun _ => .write fun h => Tensor.sameSizes_copyMatching slab input h

theorem steady_copySlabs (out : Tensor) (axis filled : Nat) (inputs : List Tensor) :
    Steady (copySlabs out axis filled inputs) := by
  induction inputs generalizing filled with
  | nil => exact .note _
  | cons input rest ih =>
    apply Steady.ite (ih filled)
    apply (Steady.lift (unruled_axis input axis)).bind
    intro a
    apply (steady_slabResult _).bind
    intro slab
    exact (steady_copySlab slab input).bind fun _ => ih _

/-- Either engine, on any device, keeps the sizes of storages and blames no rule. -/
theorem Accelerator.steady_fill (capacity : Nat) (engine : Engine) (out : Tensor)
    (inputs : List Tensor) (axis : Nat) : Steady (fill capacity engine out inputs axis) := by
  cases engine with
  | fused rank => exact steady_copyBatched ..
  | fallback => exact steady_copySlabs ..

end TensorConcat
