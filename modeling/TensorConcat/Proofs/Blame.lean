import TensorConcat.Proofs.Parity
import TensorConcat.Proofs.Steadiness
import TensorConcat.SoftwareCasts

/-!
# Which rule a request is told to have broken

Both routes go through their checks in one order and name the rule of the first that fails. The
planner holds the inputs against the last of them that counts, the reference route against the
first, so the rule is a function of the request and of that input. Which of two inputs it is
makes a difference only when the axis exists in one of them and not in the other: the ranks
differ then, and the route whose input lacks the axis blames the axis, the other the shapes.
-/

namespace TensorConcat

/-- The rule that an answer names as broken. -/
def Outcome.broken {α : Type} (o : Outcome α) : Option ViolationCode :=
  match o.result with
  | .error (.backend e) => e.code?
  | _ => none

theorem Unruled.broken_eq_none {α β : Type} {answer : Except Failure α} (unruled : Unruled answer)
    {f : α → β} {out : Tensor} {m : Machine} :
    (⟨answer.map f, out, m⟩ : Outcome β).broken = none := by
  rcases answer with (_ | (⟨_⟩ | _ | _) | _) | _
  · rfl
  · exact absurd rfl (unruled _)
  · rfl
  · rfl
  · rfl
  · rfl

/-- The input has an axis of that number. -/
def Tensor.HasAxis (t : Tensor) (dim : Int) : Prop := 0 ≤ dim ∧ dim < t.rank

/-- What the output is about to become when the inputs are joined to the extents of one of them. -/
def targetLike (h : Heap) (out : Tensor) (inputs : List Tensor) (axis : Nat) (reference : Tensor) :
    Option Tensor :=
  let format := (inputs.head?.map (·.suggestedFormat)).getD .contiguous
  out.target? (reference.dims.set axis (totalExtent axis (counted inputs))) format h

/-- The rule that a request breaks first when it is held against one of its inputs. -/
def ruleBroken (h : Heap) (out : Tensor) (inputs : List Tensor) (dim : Int) (reference : Tensor) :
    Option ViolationCode :=
  match checkOutput out inputs with
  | .error o => some o.code
  | .ok () =>
    match checkAxis reference.rank dim with
    | .error o => some o.code
    | .ok axis =>
      if (counted inputs).all fun t => Reference.agree axis reference.dims t.dims then
        match checkTarget (targetLike h out inputs axis reference) inputs with
        | .error o => some o.code
        | .ok () => none
      else some .shapeMismatch

section Rule
variable {h : Heap} {out reference t : Tensor} {inputs : List Tensor} {dim : Int} {axis : Nat}

theorem all_agree_iff : ((counted inputs).all fun t => Reference.agree axis reference.dims t.dims) =
    true ↔ ∀ t ∈ counted inputs, t.FitsShape reference.dims axis := by
  simp only [List.all_eq_true, Reference.agree_iff]

theorem checkAxis_of_not_hasAxis (lacks : ¬t.HasAxis dim) :
    checkAxis t.rank dim = .error (.axisOutOfRange dim t.rank) := if_neg lacks

theorem checkAxis_of_hasAxis (has : t.HasAxis dim) : checkAxis t.rank dim = .ok dim.toNat :=
  if_pos has

theorem ruleBroken_of_lacks (checked : checkOutput out inputs = .ok ())
    (lacks : ¬reference.HasAxis dim) :
    ruleBroken h out inputs dim reference = some .invalidDimension := by
  rw [ruleBroken, checked, checkAxis_of_not_hasAxis lacks]
  rfl

/-- Against an input that has the axis, one that lacks it has the wrong shape. -/
theorem ruleBroken_of_other_lacks (checked : checkOutput out inputs = .ok ())
    (has : reference.HasAxis dim) (ht : t ∈ counted inputs) (lacks : ¬t.HasAxis dim) :
    ruleBroken h out inputs dim reference = some .shapeMismatch := by
  have disagree : ¬((counted inputs).all fun t => Reference.agree dim.toNat reference.dims t.dims) =
      true := by
    rw [all_agree_iff]
    intro fit
    have hlength := (fit t ht).length_eq
    rw [← rank_eq, ← rank_eq] at hlength
    rw [Tensor.HasAxis, hlength] at lacks
    exact lacks has
  rw [ruleBroken, checked, checkAxis_of_hasAxis has]
  exact if_neg disagree

/-- Of two inputs that both have the axis or both lack it, either gives the same answer. -/
theorem ruleBroken_congr {u : Tensor} (ht : t ∈ counted inputs) (hu : u ∈ counted inputs)
    (same : t.HasAxis dim ↔ u.HasAxis dim) :
    ruleBroken h out inputs dim t = ruleBroken h out inputs dim u := by
  cases hchecked : checkOutput out inputs with
  | error o => rw [ruleBroken, ruleBroken, hchecked]
  | ok _ =>
    by_cases has : t.HasAxis dim
    · have hasToo := same.mp has
      rw [ruleBroken, ruleBroken, hchecked, checkAxis_of_hasAxis has, checkAxis_of_hasAxis hasToo]
      by_cases fit : ∀ v ∈ counted inputs, v.FitsShape t.dims dim.toNat
      · have fitToo (v : Tensor) (hv : v ∈ counted inputs) : v.FitsShape u.dims dim.toNat :=
          (fit v hv).trans (fit u hu)
        have hdims : u.dims.set dim.toNat (totalExtent dim.toNat (counted inputs)) =
            t.dims.set dim.toNat (totalExtent dim.toNat (counted inputs)) := by
          rw [fit u hu, List.set_set]
        simp only [all_agree_iff.mpr fit, all_agree_iff.mpr fitToo, targetLike, hdims]
      · have fitNot : ¬∀ v ∈ counted inputs, v.FitsShape u.dims dim.toNat := fun fitToo =>
          fit fun v hv => (fitToo v hv).trans (fitToo t ht)
        simp only [mt all_agree_iff.mp fit, mt all_agree_iff.mp fitNot]
        rfl
    · rw [ruleBroken_of_lacks hchecked has, ruleBroken_of_lacks hchecked (mt same.mpr has)]

end Rule

/-- A list of which an input counts has a first member. -/
theorem exists_head {inputs : List Tensor} {t : Tensor} (ht : t ∈ counted inputs) :
    ∃ head, inputs.head? = some head := by
  cases inputs with
  | nil => exact absurd ht (by simp [counted])
  | cons head rest => exact ⟨head, rfl⟩

namespace Plan
variable {h : Heap} {config : ConcatConfig} {out reference : Tensor} {inputs : List Tensor} {dim : Int}
  {axis : Nat}

theorem checkExtents_code {t : Tensor} {index : Nat} {r : Rejection}
    (hr : checkExtents reference axis t index = .error r) : r.code = .shapeMismatch := by
  unfold checkExtents at hr
  split at hr
  · rw [← Except.error.inj hr]
    rfl
  · split at hr
    · rw [← Except.error.inj hr]
      rfl
    · exact absurd hr (by simp)

theorem joinedExtent_code {ps : List (Tensor × Nat)} {r : Rejection}
    (hr : joinedExtent reference axis ps = .error r) : r.code = .shapeMismatch := by
  induction ps generalizing r with
  | nil => exact absurd hr (by simp [joinedExtent])
  | cons p ps ih =>
    rcases p with ⟨t, index⟩
    rw [joinedExtent] at hr
    rcases checked_bind_error.mp hr with hfirst | ⟨_, -, hr⟩
    · exact checkExtents_code hfirst
    · rcases checked_bind_error.mp hr with hrest | ⟨_, -, hr⟩
      · exact ih hrest
      · exact absurd hr (by simp [pure, Except.pure])

/-- The planner holds a request against the last input that counts. -/
theorem broken_eq (hlast : (counted inputs).getLast? = some reference) :
    (match make h config out inputs dim with
      | .error r => some r.code
      | .ok _ => none) = ruleBroken h out inputs dim reference := by
  rcases exists_head (List.mem_of_getLast? hlast) with ⟨head, hhead⟩
  rw [← getLast?_live, Option.map_eq_some_iff] at hlast
  rcases hlast with ⟨⟨reference, index⟩, hlive, rfl⟩
  rw [make_eq hhead, hlive, ruleBroken]
  cases checkOutput out inputs with
  | error o => rfl
  | ok _ =>
    dsimp only [Except.mapError, bind, Except.bind]
    cases checkAxis reference.rank dim with
    | error o => rfl
    | ok axis =>
      by_cases fit : ∀ t ∈ counted inputs, t.FitsShape reference.dims axis
      · have hextent : joinedExtent reference axis (live inputs) =
            .ok (totalExtent axis (counted inputs)) := by
          rw [joinedExtent_eq_ok, map_fst_live]
          exact ⟨fit, rfl⟩
        simp only [hextent, all_agree_iff.mpr fit, targetLike, hhead, Option.map_some, Option.getD_some]
        cases checkTarget _ inputs with
        | error o => rfl
        | ok _ => rfl
      · simp only [mt all_agree_iff.mp fit]
        cases hextent : joinedExtent reference axis (live inputs) with
        | error r => exact congrArg some (joinedExtent_code hextent)
        | ok n =>
          rw [joinedExtent_eq_ok, map_fst_live] at hextent
          exact absurd hextent.1 fit

end Plan

namespace Reference
variable {h : Heap} {out first : Tensor} {inputs : List Tensor} {dim : Int} {axis : Nat}

theorem joinedExtent_code {ts : List Tensor} {r : Rejection}
    (hr : joinedExtent first axis ts = .error r) : r.code = .shapeMismatch := by
  induction ts generalizing r with
  | nil => exact absurd hr (by simp [joinedExtent])
  | cons t ts ih =>
    rw [joinedExtent] at hr
    by_cases hagree : agree axis first.dims t.dims
    · rw [hagree] at hr
      rcases checked_bind_error.mp hr with hrest | ⟨_, -, hr⟩
      · exact ih hrest
      · exact absurd hr (by simp [pure, Except.pure])
    · rw [(Bool.not_eq_true _).mp hagree] at hr
      rw [← Except.error.inj hr]
      rfl

/-- The reference route holds a request against the first input that counts. -/
theorem broken_eq (hfirst : (counted inputs).head? = some first) :
    (match accept h out inputs dim with
      | .error r => some r.code
      | .ok _ => none) = ruleBroken h out inputs dim first := by
  rcases exists_head (List.mem_of_head? hfirst) with ⟨head, hhead⟩
  rcases List.head?_eq_some_iff.mp hfirst with ⟨rest, hcounted⟩
  rw [accept_eq hhead, hcounted, ruleBroken]
  cases checkOutput out inputs with
  | error o => rfl
  | ok _ =>
    dsimp only [Except.mapError, bind, Except.bind]
    cases checkAxis first.rank dim with
    | error o => rfl
    | ok axis =>
      by_cases fit : ∀ t ∈ counted inputs, t.FitsShape first.dims axis
      · have hextent : joinedExtent first axis (first :: rest) =
            .ok (totalExtent axis (counted inputs)) := by
          rw [joinedExtent_eq_ok, ← hcounted]
          exact ⟨fit, rfl⟩
        simp only [hextent, all_agree_iff.mpr fit, targetLike, hhead, Option.map_some, Option.getD_some]
        cases checkTarget _ inputs with
        | error o => rfl
        | ok _ => rfl
      · simp only [mt all_agree_iff.mp fit]
        cases hextent : joinedExtent first axis (first :: rest) with
        | error r => exact congrArg some (joinedExtent_code hextent)
        | ok n =>
          rw [joinedExtent_eq_ok, ← hcounted] at hextent
          exact absurd hextent.1 fit

end Reference

namespace Accelerator

/-- Only the planner names rules. -/
theorem broken_concatenate [FloatCasts] (config : ConcatConfig) (out : Tensor)
    (inputs : List Tensor) (dim : Int)
    (m : Machine) : (concatenate config out inputs dim m).broken =
      match Plan.make m.heap config out inputs dim with
      | .error r => some r.code
      | .ok _ => none := by
  cases verdict m.heap out inputs dim with
  | rejected r hr =>
    rw [concatenate_rejected (hr config), hr config]
    rfl
  | idle nothing =>
    rw [concatenate_idle_eq nothing, Plan.make_of_idle nothing]
    rfl
  | refused axis shape f e joinable he =>
    rw [concatenate_refused_eq joinable he, Plan.make_of_joinable joinable,
      (Tensor.resize_error joinable.shape_ne_nil he).1]
    rfl
  | joined axis shape f t k joinable ht =>
    have hsteady := steady_fill config.effectiveCapacity (Plan.engineFor config out inputs shape f) t
      inputs axis
    have hanswer := hsteady.answer ((planned config out inputs axis shape f m).withHeap k)
    rw [concatenate_of_fill joinable ht (Prod.eta _).symm, Plan.make_of_joinable joinable]
    exact hanswer.broken_eq_none

end Accelerator

namespace Reference

/-- Only the checks name rules. -/
theorem broken_concatenate [FloatCasts] (out : Tensor) (inputs : List Tensor) (dim : Int)
    (m : Machine) : (concatenate out inputs dim m).broken =
      match accept m.heap out inputs dim with
      | .error r => some r.code
      | .ok _ => none := by
  unfold concatenate
  cases haccept : accept m.heap out inputs dim with
  | error r => rfl
  | ok joined =>
    cases joined with
    | none => rfl
    | some j =>
      dsimp only
      cases hresize : out.resize j.shape j.format m.heap with
      | ok r => rfl
      | error e =>
        rw [(Tensor.resize_error ((accept_ok haccept).2 j rfl).shape_ne_nil hresize).1]
        rfl

end Reference

section Routes
variable {config : ConcatConfig} {out first last : Tensor} {inputs : List Tensor} {dim : Int}
  {m : Machine} [FloatCasts]

/-- Without an input that counts there is nothing to compare. -/
theorem broken_of_none_counts (none : counted inputs = []) :
    (Accelerator.concatenate config out inputs dim m).broken =
      (Reference.concatenate out inputs dim m).broken := by
  rw [Accelerator.broken_concatenate, Reference.broken_concatenate]
  cases hhead : inputs.head? with
  | none =>
    rw [List.head?_eq_none_iff.mp hhead]
    rfl
  | some head =>
    have hlive : (live inputs).getLast? = .none := by
      have hlast := getLast?_live inputs
      rw [none] at hlast
      simpa using hlast
    rw [Plan.make_eq hhead, hlive, Reference.accept_eq hhead, none]
    cases checkOutput out inputs with
    | error o => rfl
    | ok _ => rfl

/-- Both routes name what their own input gives. -/
theorem broken_eq_ruleBroken (hfirst : (counted inputs).head? = some first)
    (hlast : (counted inputs).getLast? = some last) :
    (Accelerator.concatenate config out inputs dim m).broken =
        ruleBroken m.heap out inputs dim last ∧
      (Reference.concatenate out inputs dim m).broken = ruleBroken m.heap out inputs dim first := by
  rw [Accelerator.broken_concatenate, Reference.broken_concatenate]
  exact ⟨Plan.broken_eq hlast, Reference.broken_eq hfirst⟩

end Routes

/-- The axis exists in just one of the first and the last input that count. -/
def AxisInOne (inputs : List Tensor) (dim : Int) : Prop :=
  ∃ first last, (counted inputs).head? = some first ∧ (counted inputs).getLast? = some last ∧
    ¬(first.HasAxis dim ↔ last.HasAxis dim)

section Routes
variable {config : ConcatConfig} {out first last : Tensor} {inputs : List Tensor} {dim : Int}
  {m : Machine} [FloatCasts]

/-- The route whose input lacks the axis blames the axis, and the other the shapes. -/
theorem broken_of_lacks (hfirst : (counted inputs).head? = some first)
    (hlast : (counted inputs).getLast? = some last) (checked : checkOutput out inputs = .ok ()) :
    (first.HasAxis dim ∧ ¬last.HasAxis dim →
        (Reference.concatenate out inputs dim m).broken = some .shapeMismatch ∧
        (Accelerator.concatenate config out inputs dim m).broken = some .invalidDimension) ∧
      (¬first.HasAxis dim ∧ last.HasAxis dim →
        (Reference.concatenate out inputs dim m).broken = some .invalidDimension ∧
        (Accelerator.concatenate config out inputs dim m).broken = some .shapeMismatch) := by
  have hbroken := @broken_eq_ruleBroken config out first last inputs dim m _ hfirst hlast
  rw [hbroken.1, hbroken.2]
  constructor
  · intro hcase
    exact ⟨ruleBroken_of_other_lacks checked hcase.1 (List.mem_of_getLast? hlast) hcase.2,
      ruleBroken_of_lacks checked hcase.2⟩
  · intro hcase
    exact ⟨ruleBroken_of_lacks checked hcase.1,
      ruleBroken_of_other_lacks checked hcase.2 (List.mem_of_head? hfirst) hcase.1⟩

/-- In any other case both answer the same. -/
theorem broken_alike (alike : ¬(checkOutput out inputs = .ok () ∧ AxisInOne inputs dim)) :
    (Accelerator.concatenate config out inputs dim m).broken =
      (Reference.concatenate out inputs dim m).broken := by
  by_cases none : counted inputs = []
  · exact broken_of_none_counts none
  · have hfirst := List.head?_eq_some_head none
    have hlast := List.getLast?_eq_some_getLast none
    have hbroken := @broken_eq_ruleBroken config out _ _ inputs dim m _ hfirst hlast
    rw [hbroken.1, hbroken.2]
    cases hchecked : checkOutput out inputs with
    | error o => rw [ruleBroken, ruleBroken, hchecked]
    | ok _ =>
      apply ruleBroken_congr (List.mem_of_getLast? hlast) (List.mem_of_head? hfirst)
      by_contra differ
      exact alike ⟨hchecked, _, _, hfirst, hlast, fun same => differ same.symm⟩

end Routes

/-- Both routes turn the same requests away, and name the same rule unless nothing is wrong with
the output and the axis exists in just one of the first and the last input that count. The
route whose input lacks the axis blames the axis then, and the other the shapes. -/
theorem concatenate_broken_alike [FloatCasts] (config : ConcatConfig) (out : Tensor)
    (inputs : List Tensor) (dim : Int) (m : Machine) :
    let fast := (Accelerator.concatenate config out inputs dim m).broken
    let plain := (Reference.concatenate out inputs dim m).broken
    (fast = none ↔ plain = none) ∧
      (fast = plain ↔ ¬(checkOutput out inputs = .ok () ∧ AxisInOne inputs dim)) ∧
      ∀ first last, (counted inputs).head? = some first → (counted inputs).getLast? = some last →
        checkOutput out inputs = .ok () →
        (first.HasAxis dim ∧ ¬last.HasAxis dim →
          plain = some .shapeMismatch ∧ fast = some .invalidDimension) ∧
        (¬first.HasAxis dim ∧ last.HasAxis dim →
          plain = some .invalidDimension ∧ fast = some .shapeMismatch) := by
  intro fast plain
  rw [← and_assoc]
  refine ⟨?_, fun first last hfirst hlast checked => broken_of_lacks hfirst hlast checked⟩
  by_cases odd : checkOutput out inputs = .ok () ∧ AxisInOne inputs dim
  · have hvalues : plain = some .shapeMismatch ∧ fast = some .invalidDimension ∨
        plain = some .invalidDimension ∧ fast = some .shapeMismatch := by
      rcases odd with ⟨checked, first, last, hfirst, hlast, differ⟩
      have hlacks := @broken_of_lacks config out first last inputs dim m _ hfirst hlast checked
      by_cases has : first.HasAxis dim
      · exact .inl (hlacks.1 ⟨has, fun hasToo => differ ⟨fun _ => hasToo, fun _ => has⟩⟩)
      · have hasToo : last.HasAxis dim := by
          by_contra lacks
          exact differ ⟨fun hfirst => absurd hfirst has, fun hlast => absurd hlast lacks⟩
        exact .inr (hlacks.2 ⟨has, hasToo⟩)
    rcases hvalues with ⟨hplain, hfast⟩ | ⟨hplain, hfast⟩
    · simp [hplain, hfast, odd]
    · simp [hplain, hfast, odd]
  · have hsame : fast = plain := broken_alike odd
    exact ⟨by rw [hsame], fun _ => odd, fun _ => hsame⟩

/-- One element, of rank three. -/
def cuboid : Tensor := ⟨0, 0, [⟨1, 1⟩, ⟨1, 1⟩, ⟨1, 1⟩], .u8⟩

/-- Along the third axis, which the cuboid alone has, each route blames something else. -/
theorem routes_blame_differently :
    (Accelerator.concatenate {} (emptyAt 0) [cuboid, column] 2 { heap := sampleHeap }).broken =
        some .invalidDimension ∧
      (Reference.concatenate (emptyAt 0) [cuboid, column] 2 { heap := sampleHeap }).broken =
        some .shapeMismatch := by decide

end TensorConcat
