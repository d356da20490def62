import TensorConcat.Proofs.Conversion
import TensorConcat.Proofs.NewOutputs
import TensorConcat.SoftwareCasts

/-!
# Concatenating in two steps

A list can be concatenated in two parts whose results are then concatenated. The two steps accept
what one step accepts, as the extents of a part are those of the whole but for the joined one, and
an element ends up where it would have: it has its place in its part, which has its place in the
whole. On the way it is converted to the common type of the part. That makes no difference to
values that are not floating, and none when there is only one type.
-/

namespace TensorConcat

/-- Concatenation of two lists, and then of the two results. -/
def Backend.catNested (b : Backend) (xs ys : List Tensor) (dim : Int) : Action Tensor := do
  let first ← b.cat xs dim
  let second ← b.cat ys dim
  b.cat [first, second] dim

theorem Backend.catNested_eq_ok {b : Backend} {xs ys : List Tensor} {dim : Int} {m m' : Machine}
    {r : Tensor} : b.catNested xs ys dim m = (.ok r, m') ↔
    ∃ s m₁ t m₂, b.cat xs dim m = (.ok s, m₁) ∧ b.cat ys dim m₁ = (.ok t, m₂) ∧
      b.cat [s, t] dim m₂ = (.ok r, m') := by
  unfold catNested
  rw [Action.bind_eq_ok]
  constructor
  · rintro ⟨s, m₁, hs, hrest⟩
    rcases Action.bind_eq_ok.mp hrest with ⟨t, m₂, ht, hr⟩
    exact ⟨s, m₁, t, m₂, hs, ht, hr⟩
  · rintro ⟨s, m₁, t, m₂, hs, ht, hr⟩
    exact ⟨s, m₁, hs, Action.bind_eq_ok.mpr ⟨t, m₂, ht, hr⟩⟩

theorem counted_pair {s t : Tensor} (hs : 0 < s.numel) (ht : 0 < t.numel) :
    counted [s, t] = [s, t] := by
  simp [counted, Tensor.isSkipped, hs.ne', ht.ne']

/-- Inputs need no more launches together than in two lists. -/
theorem Route.launches_add_le (route : Route) (first second : Nat) :
    route.launches (first + second) ≤ route.launches first + route.launches second := by
  cases route with
  | reference => exact Nat.le_refl 0
  | accelerator config =>
    have hpos := effectiveCapacity_pos config
    have hfirst := Nat.lt_mul_div_succ (first + config.effectiveCapacity - 1) hpos
    have hsecond := Nat.lt_mul_div_succ (second + config.effectiveCapacity - 1) hpos
    unfold Route.launches
    refine Nat.le_of_lt_succ ((Nat.div_lt_iff_lt_mul hpos).mpr ?_)
    rw [Nat.mul_comm, Nat.succ_eq_add_one]
    simp only [Nat.mul_add, Nat.mul_one] at hfirst hsecond ⊢
    omega

/-- A device that is in order for two steps is so for one. -/
theorem Route.Ready.at_once {route : Route} {d : Device} {xs ys : List Tensor}
    (ready : route.Ready
      (route.launches xs.length + (route.launches ys.length + route.launches 2)) d) :
    route.Ready (route.launches (xs ++ ys).length + 0) d := by
  have hle := route.launches_add_le xs.length ys.length
  rw [List.length_append]
  exact ready.mono (by omega)

section Types
variable {xs ys part : List Tensor} {d e : DType}

theorem resultType_pair {s t : Tensor} (counts : counted [s, t] = [s, t]) :
    Backend.resultType [s, t] = .ok (s.dtype.promote t.dtype) := by
  have hcounts : counted [s, t] ≠ [] := by simp [counts]
  rw [resultType_eq_ok_iff hcounts, counts]
  rfl

theorem resultType_append (hx : counted xs ≠ []) (hy : counted ys ≠ [])
    (hd : Backend.resultType xs = .ok d) (he : Backend.resultType ys = .ok e) :
    Backend.resultType (xs ++ ys) = .ok (d.promote e) := by
  rw [resultType_eq_ok_iff hx] at hd
  rw [resultType_eq_ok_iff hy] at he
  have hboth : counted (xs ++ ys) ≠ [] := by
    rw [counted_append]
    exact List.append_ne_nil_of_left_ne_nil hx _
  rw [resultType_eq_ok_iff hboth, counted_append, List.map_append]
  exact DType.common?_append hd he

/-- The common type of a part of the inputs is on the way to a type. -/
structure Waypoint [FloatCasts] (part : List Tensor) (d e : DType) : Prop where
  size : d.size ≤ e.size
  through : ∀ u ∈ counted part, ∀ bytes, bytes.length = u.elementSize →
    convertElement d e (convertElement u.dtype d bytes) = convertElement u.dtype e bytes

theorem waypoint [FloatCasts] (counts : counted part ≠ []) (hd : Backend.resultType part = .ok d)
    (below : d.Below e) (kinds : e.category ≠ .floating ∨ ∀ u ∈ counted part, u.dtype = e) :
    Waypoint part d e := by
  rcases kinds with fixed | uniform
  · rw [resultType_eq_ok_iff counts] at hd
    refine ⟨(below.range fixed).2.2, fun u hu bytes hlength => ?_⟩
    have hbelow := DType.below_common hd (List.mem_map_of_mem hu)
    exact convertElement_through hbelow below fixed hlength
  · rw [resultType_of_uniform counts uniform] at hd
    rcases Except.ok.inj hd with rfl
    refine ⟨Nat.le_refl _, fun u hu bytes _ => ?_⟩
    rw [convertElement_self]

/-- Inputs none of which is floating meet at a type that is not. -/
theorem kinds_of_inputs {inputs : List Tensor} (counts : counted inputs ≠ [])
    (he : Backend.resultType inputs = .ok e)
    (kinds : (∀ u ∈ counted inputs, u.dtype.category ≠ .floating) ∨
      ∃ d, ∀ u ∈ counted inputs, u.dtype = d) :
    e.category ≠ .floating ∨ ∀ u ∈ counted inputs, u.dtype = e := by
  rcases kinds with fixed | ⟨d, uniform⟩
  · rw [resultType_eq_ok_iff counts] at he
    refine .inl (DType.common?_fixed he fun s hs => ?_)
    rcases List.mem_map.mp hs with ⟨u, hu, rfl⟩
    exact fixed u hu
  · rw [resultType_of_uniform counts uniform] at he
    rcases Except.ok.inj he with rfl
    exact .inr uniform

/-- Two lists, each with an element, of inputs none of which is floating or which are all of one
type. -/
structure Chunks (xs ys : List Tensor) : Prop where
  left : ∃ u ∈ xs, 0 < u.numel
  right : ∃ u ∈ ys, 0 < u.numel
  kinds : (∀ u ∈ counted (xs ++ ys), u.dtype.category ≠ .floating) ∨
    ∃ d, ∀ u ∈ counted (xs ++ ys), u.dtype = d

theorem counted_ne_nil {inputs : List Tensor} (element : ∃ u ∈ inputs, 0 < u.numel) :
    counted inputs ≠ [] := by
  rcases element with ⟨u, hu, pos⟩
  exact List.ne_nil_of_mem (mem_counted_of_pos hu pos)

namespace Chunks
variable (chunks : Chunks xs ys)
include chunks

theorem counted_left : counted xs ≠ [] := counted_ne_nil chunks.left

theorem counted_right : counted ys ≠ [] := counted_ne_nil chunks.right

/-- The types of both parts are on the way to that of the whole. -/
theorem waypoints [FloatCasts] (hd : Backend.resultType xs = .ok d)
    (he : Backend.resultType ys = .ok e) :
    Waypoint xs d (d.promote e) ∧ Waypoint ys e (d.promote e) := by
  have hboth := resultType_append chunks.counted_left chunks.counted_right hd he
  have hcounts : counted (xs ++ ys) ≠ [] := by simp [counted_append, chunks.counted_left]
  have hkinds := kinds_of_inputs hcounts hboth chunks.kinds
  rw [counted_append, List.forall_mem_append] at hkinds
  constructor
  · exact waypoint chunks.counted_left hd (DType.below_promote_left d e) (hkinds.imp_right And.left)
  · exact waypoint chunks.counted_right he (DType.below_promote_right d e)
      (hkinds.imp_right And.right)

end Chunks

end Types

section Shapes
variable {xs ys inputs : List Tensor} {dim : Int} {axis : Nat} {shape : List Nat}
  {f f₁ f₂ : MemoryFormat} {d e : DType} {s t : Tensor}

/-- A part of what can be concatenated can be concatenated, if it counts. -/
theorem Concatenable.part (whole : Concatenable inputs dim axis shape f e) {part : List Tensor}
    (counts : counted part ≠ []) (sub : ∀ u ∈ counted part, u ∈ counted inputs)
    (le : totalExtent axis (counted part) ≤ totalExtent axis (counted inputs))
    (typed : Backend.resultType part = .ok d) (size : d.size ≤ e.size) :
    ∃ f, Concatenable part dim axis (shape.set axis (totalExtent axis (counted part))) f d := by
  have haxis : axis < (shape.set axis (totalExtent axis (counted part))).length := by
    rw [List.length_set]
    exact whole.axis_lt
  have hfit : ∀ u ∈ counted part,
      u.FitsShape (shape.set axis (totalExtent axis (counted part))) axis :=
    fun u hu => (whole.fit u (sub u hu)).set _
  have htotal : (shape.set axis (totalExtent axis (counted part))).getD axis 0 =
      totalExtent axis (counted part) := by rw [getD_set whole.axis_lt, if_pos rfl]
  rcases exists_conform counts whole.dim_eq haxis hfit htotal with ⟨f, conform⟩
  have hvolume := volume_set_le (whole.total ▸ le)
  exact ⟨f, conform, typed, (Nat.mul_le_mul hvolume size).trans whole.holds⟩

/-- The two parts that a list is cut into can be joined. -/
theorem Concatenable.pair
    (whole : Concatenable (xs ++ ys) dim axis shape f (s.dtype.promote t.dtype))
    (counts : counted [s, t] = [s, t])
    (hs : s.dims = shape.set axis (totalExtent axis (counted xs)))
    (ht : t.dims = shape.set axis (totalExtent axis (counted ys))) :
    ∃ f, Concatenable [s, t] dim axis shape f (s.dtype.promote t.dtype) := by
  have hsextent : s.extentAt axis = totalExtent axis (counted xs) := by
    rw [Tensor.extentAt, hs, getD_set whole.axis_lt, if_pos rfl]
  have htextent : t.extentAt axis = totalExtent axis (counted ys) := by
    rw [Tensor.extentAt, ht, getD_set whole.axis_lt, if_pos rfl]
  have hcounts : counted [s, t] ≠ [] := by simp [counts]
  have hfit : ∀ u ∈ counted [s, t], u.FitsShape shape axis := by
    rw [counts, List.forall_mem_cons, List.forall_mem_singleton]
    constructor
    · rw [Tensor.FitsShape, hsextent, hs]
    · rw [Tensor.FitsShape, htextent, ht]
  have htotal : shape.getD axis 0 = totalExtent axis (counted [s, t]) := by
    rw [whole.total, counted_append, totalExtent_append, counts, totalExtent_cons, totalExtent_cons,
      totalExtent_nil, hsextent, htextent, Nat.add_zero]
  rcases exists_conform hcounts whole.dim_eq whole.axis_lt hfit htotal with ⟨f, conform⟩
  exact ⟨f, conform, resultType_pair counts, whole.holds⟩

/-- What can be concatenated in two steps can be concatenated in one. -/
theorem Concatenable.append (first : Concatenable xs dim axis s.dims f₁ s.dtype)
    (second : Concatenable ys dim axis t.dims f₂ t.dtype)
    (both : Concatenable [s, t] dim axis shape f e) (counts : counted [s, t] = [s, t]) :
    ∃ f, Concatenable (xs ++ ys) dim axis shape f e := by
  have hcounts : counted (xs ++ ys) ≠ [] := by
    rw [counted_append]
    exact List.append_ne_nil_of_left_ne_nil first.counts _
  have hpair := both.fit
  rw [counts, List.forall_mem_cons, List.forall_mem_singleton] at hpair
  have hfit : ∀ u ∈ counted (xs ++ ys), u.FitsShape shape axis := by
    intro u hu
    rw [counted_append] at hu
    rcases List.mem_append.mp hu with hu | hu
    · exact (first.fit u hu).of_part hpair.1
    · exact (second.fit u hu).of_part hpair.2
  have htotal : shape.getD axis 0 = totalExtent axis (counted (xs ++ ys)) := by
    rw [both.total, counts, totalExtent_cons, totalExtent_cons, totalExtent_nil, counted_append,
      totalExtent_append, ← first.total, ← second.total]
    rfl
  rcases exists_conform hcounts both.dim_eq both.axis_lt hfit htotal with ⟨f, conform⟩
  refine ⟨f, conform, ?_, both.holds⟩
  rw [← Except.ok.inj ((resultType_pair counts).symm.trans both.typed)]
  exact resultType_append first.counts second.counts first.typed second.typed

end Shapes

section Elements
variable {xs ys part : List Tensor} {axis : Nat} {h k k₁ k₂ k₃ : Heap} {r s t u w : Tensor}
  {c e : List Nat} [FloatCasts]

/-- An element that has been converted to the type of its part is converted on from there. -/
theorem Waypoint.converted (way : Waypoint part s.dtype r.dtype) (hu : u ∈ counted part)
    (hvalue : s.loadElement k (Axis.position s.axes c) = s.converted u e h) :
    r.converted s c k = r.converted u e h := by
  rw [Tensor.converted, hvalue, Tensor.converted, Tensor.converted]
  exact way.through u hu _ (Tensor.length_loadElement ..)

/-- What holds the elements of a part, behind other parts, holds them in the whole. -/
theorem HoldsJoined.nested {outs before : List Tensor} {n : Nat}
    (outer : HoldsJoined r axis outs k₂ k₃ c) (lies : LiesIn axis outs c n s)
    (hbefore : totalExtent axis (outs.take n) = totalExtent axis before) (hlen : axis < c.length)
    (inner : HoldsJoined s axis (counted part) h k₁ (lowerAxis axis (totalExtent axis before) c))
    (grown : k₁.Extends k₂) (known : s.storage < k₁.storages.size)
    (way : Waypoint part s.dtype r.dtype) : HoldsJoined r axis (before ++ counted part) h k₃ c := by
  rcases inner with ⟨n', u, lies', -, hwithin, hvalue⟩
  have hlies := lies'.prepend hlen (hbefore ▸ lies.lower)
  have hlower : lowerAxis axis (totalExtent axis ((before ++ counted part).take (before.length + n')))
      c = lowerAxis axis (totalExtent axis ((counted part).take n'))
        (lowerAxis axis (totalExtent axis before) c) := by
    rw [List.take_length_add_append, totalExtent_append, lowerAxis_lowerAxis hlen]
  refine ⟨_, u, hlies, fun _ _ other => other.unique hlies, hlower ▸ hwithin, ?_⟩
  rw [hlower, outer.value lies, hbefore]
  apply way.converted (List.mem_of_getElem? lies'.part)
  rw [Tensor.loadElement_extends grown known, hvalue]

/-- The second step leaves the elements of all inputs. -/
theorem Concatenated.nested (first : Concatenated xs axis h s k₁)
    (second : Concatenated ys axis k₁ t k₂) (both : Concatenated [s, t] axis k₂ r k₃)
    (cx : counted xs ≠ []) (counts : counted [s, t] = [s, t])
    (wx : Waypoint xs s.dtype r.dtype) (wy : Waypoint ys t.dtype r.dtype)
    (known : ∀ u ∈ ys, u.storage < h.storages.size) (hc : Within r.dims c) :
    HoldsJoined r axis (counted xs ++ counted ys) h k₃ c := by
  have hlen : axis < c.length := hc.length_eq ▸ both.axis_lt
  have outer := both.values c hc
  rw [counts] at outer
  have hsource := outer
  rcases hsource with ⟨n, u, lies, -⟩
  have hpart := lies.part
  have hwithin := outer.within lies
  match n with
  | 0 =>
    rcases Option.some.inj hpart with rfl
    have inner := first.values _ hwithin
    have hleft : HoldsJoined r axis ([] ++ counted xs) h k₃ c :=
      outer.nested lies rfl hlen inner second.grown first.known wx
    exact hleft.append (counted ys)
  | 1 =>
    rcases Option.some.inj hpart with rfl
    have hbefore : totalExtent axis ([s, t].take 1) = totalExtent axis (counted xs) := by
      rw [← first.extentAt_eq cx]
      exact Nat.add_zero _
    have inner := (second.earlier first.grown known).values _ hwithin
    rw [hbefore] at inner
    exact outer.nested lies hbefore hlen inner (.refl _) second.known wy
  | n + 2 => exact absurd hpart (by simp)

/-- The results of the first step are there for the second. -/
theorem Concatenated.known_pair {axis' : Nat} (first : Concatenated xs axis h s k₁)
    (second : Concatenated ys axis' k₁ t k₂) : ∀ u ∈ [s, t], u.storage < k₂.storages.size := by
  rw [List.forall_mem_cons, List.forall_mem_singleton]
  exact ⟨first.known.trans_le second.grown.count, second.known⟩

/-- One step and two steps read the same. -/
theorem Concatenated.sameReading_nested (whole : Concatenated (xs ++ ys) axis h w k)
    (first : Concatenated xs axis h s k₁) (second : Concatenated ys axis k₁ t k₂)
    (both : Concatenated [s, t] axis k₂ r k₃) (cx : counted xs ≠ []) (cy : counted ys ≠ [])
    (counts : counted [s, t] = [s, t]) (hdtype : w.dtype = r.dtype)
    (wx : Waypoint xs s.dtype r.dtype) (wy : Waypoint ys t.dtype r.dtype)
    (known : ∀ u ∈ ys, u.storage < h.storages.size) : w.SameReading k r k₃ := by
  rcases List.exists_mem_of_ne_nil _ cx with ⟨v, hv⟩
  have hdims : w.dims = r.dims := by
    rw [whole.dims v (by simp [counted_append, hv]), both.dims s (by simp [counts]), first.dims v hv,
      List.set_set, counts, counted_append, totalExtent_append, totalExtent_cons, totalExtent_cons,
      totalExtent_nil, first.extentAt_eq cx, second.extentAt_eq cy, Nat.add_zero]
  refine .of_elements hdtype hdims whole.holds fun c hc => ?_
  have hwhole := whole.values c hc
  rw [counted_append] at hwhole
  exact hwhole.agree (first.nested second both cx counts wx wy known (hdims ▸ hc)) hdtype

end Elements

section Steps
variable {route : Route} {xs ys : List Tensor} {dim : Int} {axis : Nat} {shape : List Nat}
  {f : MemoryFormat} {e : DType} {m m₁ m₂ : Machine} {r w : Tensor} [FloatCasts]

/-- Two steps concatenate what can be concatenated in one. -/
theorem Route.catNested_of_concatenable (route : Route) (chunks : Chunks xs ys)
    (whole : Concatenable (xs ++ ys) dim axis shape f e)
    (known : ∀ u ∈ xs ++ ys, u.storage < m.heap.storages.size)
    (ready : route.Ready
      (route.launches xs.length + (route.launches ys.length + route.launches 2)) m.device) :
    ∃ r m', route.backend.catNested xs ys dim m = (.ok r, m') := by
  have cx := chunks.counted_left
  have cy := chunks.counted_right
  rcases exists_resultType cx with ⟨d₁, hd₁⟩
  rcases exists_resultType cy with ⟨d₂, hd₂⟩
  rcases Except.ok.inj (whole.typed.symm.trans (resultType_append cx cy hd₁ hd₂)) with rfl
  rcases chunks.waypoints hd₁ hd₂ with ⟨wx, wy⟩
  rcases chunks.left with ⟨u, hu, upos⟩
  rcases chunks.right with ⟨v, hv, vpos⟩
  rcases List.forall_mem_append.mp known with ⟨knownx, knowny⟩
  have htotal : totalExtent axis (counted (xs ++ ys)) =
      totalExtent axis (counted xs) + totalExtent axis (counted ys) := by
    rw [counted_append, totalExtent_append]
  rcases whole.part cx (by simp +contextual [counted_append]) (by omega) hd₁ wx.size with ⟨f₁, first⟩
  rcases whole.part cy (by simp +contextual [counted_append]) (by omega) hd₂ wy.size with ⟨f₂, second⟩
  rcases route.cat_concatenable first (first.volume_pos hu upos) knownx ready with
    ⟨s, m₁, hs, rfl, hsdims, hsc, ready₁⟩
  rcases route.cat_concatenable (m := m₁) second (second.volume_pos hv vpos)
    (fun u hu => (knowny u hu).trans_le hsc.grown.count) ready₁ with
    ⟨t, m₂, ht, rfl, htdims, htc, ready₂⟩
  have hcounts : counted [s, t] = [s, t] := by
    apply counted_pair
    · rw [Tensor.numel, hsdims]
      exact first.volume_pos hu upos
    · rw [Tensor.numel, htdims]
      exact second.volume_pos hv vpos
  rcases whole.pair hcounts hsdims htdims with ⟨f₃, both⟩
  have ready₃ : route.Ready (route.launches [s, t].length + 0) m₂.device := ready₂
  rcases route.cat_concatenable both (whole.volume_pos (List.mem_append_left ys hu) upos)
    (hsc.known_pair htc) ready₃ with ⟨r, m₃, hr, -⟩
  exact ⟨r, m₃, Backend.catNested_eq_ok.mpr ⟨s, m₁, t, m₂, hs, ht, hr⟩⟩

/-- What two steps have concatenated can be concatenated in one. -/
theorem Route.concatenable_of_catNested (chunks : Chunks xs ys)
    (hok : route.backend.catNested xs ys dim m = (.ok r, m₁)) :
    ∃ axis f, Concatenable (xs ++ ys) dim axis r.dims f r.dtype := by
  rcases Backend.catNested_eq_ok.mp hok with ⟨s, k₁, t, k₂, hs, ht, hr⟩
  rcases chunks.left with ⟨u, hu, upos⟩
  rcases chunks.right with ⟨v, hv, vpos⟩
  rcases Route.concatenable_of_cat hs chunks.counted_left with ⟨axis, f₁, first⟩
  rcases Route.concatenable_of_cat ht chunks.counted_right with ⟨axis₂, f₂, second⟩
  have hcounts := counted_pair (first.volume_pos hu upos) (second.volume_pos hv vpos)
  rcases Route.concatenable_of_cat hr (by simp [hcounts]) with ⟨axis₃, f₃, both⟩
  rcases Int.ofNat.inj (first.dim_eq.symm.trans second.dim_eq) with rfl
  rcases Int.ofNat.inj (first.dim_eq.symm.trans both.dim_eq) with rfl
  exact ⟨axis, first.append second both hcounts⟩

/-- One step and two steps, when both succeed, give tensors that read the same. -/
theorem Route.sameReading_catNested (chunks : Chunks xs ys)
    (hw : route.backend.cat (xs ++ ys) dim m = (.ok w, m₁))
    (hok : route.backend.catNested xs ys dim m = (.ok r, m₂))
    (known : ∀ u ∈ xs ++ ys, u.storage < m.heap.storages.size)
    (ready : route.Ready
      (route.launches xs.length + (route.launches ys.length + route.launches 2)) m.device) :
    w.SameReading m₁.heap r m₂.heap := by
  have cx := chunks.counted_left
  have cy := chunks.counted_right
  rcases Backend.catNested_eq_ok.mp hok with ⟨s, k₁, t, k₂, hs, ht, hr⟩
  rcases chunks.left with ⟨u, hu, upos⟩
  rcases chunks.right with ⟨v, hv, vpos⟩
  rcases List.forall_mem_append.mp known with ⟨knownx, knowny⟩
  have spos := Route.numel_pos_of_cat hs hu upos
  have tpos := Route.numel_pos_of_cat ht hv vpos
  have wpos := Route.numel_pos_of_cat hw (List.mem_append_left ys hu) upos
  have rpos := Route.numel_pos_of_cat hr (List.mem_cons_self) spos
  rcases Route.concatenated_of_cat hw wpos known ready.at_once with ⟨axis, hdim, whole, -⟩
  rcases Route.concatenated_of_cat hs spos knownx ready with ⟨axis₁, hdim₁, first, ready₁⟩
  rcases Route.concatenated_of_cat ht tpos (fun u hu => (knowny u hu).trans_le first.grown.count)
    ready₁ with ⟨axis₂, hdim₂, second, ready₂⟩
  have ready₃ : route.Ready (route.launches [s, t].length + 0) k₂.device := ready₂
  rcases Route.concatenated_of_cat hr rpos (first.known_pair second) ready₃ with
    ⟨axis₃, hdim₃, both, -⟩
  rcases Int.ofNat.inj (hdim.symm.trans hdim₁) with rfl
  rcases Int.ofNat.inj (hdim.symm.trans hdim₂) with rfl
  rcases Int.ofNat.inj (hdim.symm.trans hdim₃) with rfl
  have hcounts := counted_pair spos tpos
  have hwtype := Except.ok.inj
    (whole.typed.symm.trans (resultType_append cx cy first.typed second.typed))
  have hrtype := Except.ok.inj ((resultType_pair hcounts).symm.trans both.typed)
  have hways := chunks.waypoints first.typed second.typed
  rw [hrtype] at hways hwtype
  exact whole.sameReading_nested first second both cx cy hcounts hwtype hways.1 hways.2 knowny

end Steps

section Sample

def mixedMachine : Machine := { heap := ⟨#[#[7, 0], #[255], #[200]]⟩, device := smallDevice }

/-- Truth values, one of them held by an odd byte. -/
def flags : Tensor := ⟨0, 0, [⟨2, 1⟩], .bool⟩

def negative : Tensor := ⟨1, 0, [⟨1, 1⟩], .i8⟩

def unsigned : Tensor := ⟨2, 0, [⟨1, 1⟩], .u8⟩

end Sample

end TensorConcat
