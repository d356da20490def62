import Mathlib
import TensorConcat.Machine

/-!
# Running actions

An action takes a machine to an answer and a machine. These are its steps, one
equation for each way an action is put together, so that a run is computed by
rewriting from the first step to the last. A computation that may only fail is taken
apart from its answer instead.
-/

namespace TensorConcat

section Checked
variable {ε α β : Type}

theorem checked_bind {x : Except ε α} {f : α → Except ε β} {b : β} :
    (x >>= f) = .ok b ↔ ∃ a, x = .ok a ∧ f a = .ok b := by
  cases x with
  | error e => simp [bind, Except.bind]
  | ok a => simp [bind, Except.bind]

/-- What throws is not carried on with. -/
theorem throw_bind_ne_ok {e : ε} {f : α → Except ε β} {b : β} : (throw e >>= f) ≠ .ok b :=
  nofun

theorem checked_bind_error {x : Except ε α} {f : α → Except ε β} {e : ε} :
    (x >>= f) = .error e ↔ x = .error e ∨ ∃ a, x = .ok a ∧ f a = .error e := by
  cases x with
  | error e => simp [bind, Except.bind]
  | ok a => simp [bind, Except.bind]

theorem checked_map {x : Except ε α} {f : α → β} {b : β} :
    f <$> x = .ok b ↔ ∃ a, x = .ok a ∧ f a = b := by
  cases x with
  | error e => simp [Functor.map, Except.map]
  | ok a => simp [Functor.map, Except.map]

theorem checked_map_error {x : Except ε α} {f : α → β} {e : ε} :
    f <$> x = .error e ↔ x = .error e := by
  cases x with
  | error e => simp [Functor.map, Except.map]
  | ok a => simp [Functor.map, Except.map]

theorem checked_mapError {ε' : Type} {x : Except ε α} {g : ε → ε'} {a : α} :
    x.mapError g = .ok a ↔ x = .ok a := by
  cases x with
  | error e => simp [Except.mapError]
  | ok b => simp [Except.mapError]

theorem mapM_eq_ok {f : α → Except ε β} {g : α → β} {xs : List α}
    (h : ∀ x ∈ xs, f x = .ok (g x)) : xs.mapM f = .ok (xs.map g) := by
  induction xs with
  | nil => rfl
  | cons x xs ih =>
    rw [List.mapM_cons, h x (by simp), ih fun y hy => h y (by simp [hy])]
    rfl

end Checked

namespace Action
variable {α β : Type}

theorem bind_run (x : Action α) (f : α → Action β) (m : Machine) :
    (x >>= f) m = match x m with
      | (.ok a, m') => f a m'
      | (.error e, m') => (.error e, m') := by
  change (ExceptT.bind x f) m = _
  unfold ExceptT.bind ExceptT.mk
  change (StateT.bind x _) m = _
  unfold StateT.bind
  change (match x m with | (a, s) => ExceptT.bindCont f a s) = _
  rcases x m with ⟨a | a, s⟩ <;> rfl

theorem bind_ok {x : Action α} {f : α → Action β} {m m' : Machine} {a : α} (h : x m = (.ok a, m')) :
    (x >>= f) m = f a m' := by rw [bind_run, h]

theorem bind_error {x : Action α} {m m' : Machine} {e : Failure} (h : x m = (.error e, m'))
    (f : α → Action β) : (x >>= f) m = (.error e, m') := by rw [bind_run, h]

theorem bind_eq_ok {x : Action α} {f : α → Action β} {m m' : Machine} {c : β} :
    (x >>= f) m = (.ok c, m') ↔ ∃ a m₁, x m = (.ok a, m₁) ∧ f a m₁ = (.ok c, m') := by
  constructor
  · intro hok
    cases hx : x m with
    | mk result m₁ =>
      cases result with
      | error e =>
        rw [bind_error hx] at hok
        exact absurd (congrArg Prod.fst hok) (by simp)
      | ok a =>
        rw [bind_ok hx] at hok
        exact ⟨a, m₁, rfl, hok⟩
  · intro hsteps
    rcases hsteps with ⟨a, m₁, hx, hf⟩
    rw [bind_ok hx, hf]

theorem get_run (m : Machine) : (get : Action Machine) m = (.ok m, m) := rfl

theorem note_run (e : Event) (m : Machine) : note e m = (.ok (), m.note e) := rfl

theorem lift_ok (a : α) (m : Machine) : (lift (.ok a) : Action α) m = (.ok a, m) := rfl

theorem execution_ok (a : α) (m : Machine) : (execution (.ok a) : Action α) m = (.ok a, m) := rfl

theorem execution_error (cause : ExecutionCause) (m : Machine) :
    (execution (.error cause) : Action α) m = (.error (.backend (.execution cause)), m) := rfl

theorem write_run (f : Heap → Heap) (m : Machine) :
    write f m = (.ok (), m.withHeap (f m.heap)) := rfl

section Launch
variable {σ : Type} {r : Range2} {m : Machine}

/-- A launch that is taken on runs its items, and a kernel that stops poisons the queue. -/
theorem launch_run {d : Device} (accepted : m.device.accept r = .ok d)
    (kernel : WorkItem → σ → Except Fault σ) (s : σ) :
    launch r kernel s m = match r.runItems kernel s with
      | .ok t => (.ok t, { m.note (.submitted m.device.submissions r) with device := d })
      | .error fault => (.error (.fault fault),
          { m.note (.submitted m.device.submissions r) with
            device := { d with poisoned := true } }) := by
  unfold launch
  rw [bind_ok (get_run m), accepted, bind_ok (execution_ok _ m), Device.execute]
  cases r.runItems kernel s <;> rfl

/-- A launch that is turned away changes nothing. -/
theorem launch_refused {cause : ExecutionCause} (refused : m.device.accept r = .error cause)
    (kernel : WorkItem → σ → Except Fault σ) (s : σ) :
    launch r kernel s m = (.error (.backend (.execution cause)), m) := by
  unfold launch
  rw [bind_ok (get_run m), refused, bind_error (execution_error _ m)]

end Launch

end Action

end TensorConcat
