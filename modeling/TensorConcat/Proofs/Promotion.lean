import TensorConcat.Proofs.Conversion

/-!
# The common type of a list is its join

Promotion is commutative, associative and idempotent, so it orders the types: one is below
another when the two meet at the other. A list is folded from the front, two types at a time, yet
it ends at the least type that all its members are below. So neither the order of the list nor
how often a member is repeated has a part in the answer, and a list may be folded in parts. The
category of what two types meet at is the higher of theirs, so the common type of a list can be
stored just where each member of the list can.
-/

namespace TensorConcat.DType

variable {s d e target : DType} {ds es xs ys : List DType}

/-- The least type that all members of a list are below. -/
structure Join (ds : List DType) (d : DType) : Prop where
  above : ∀ s ∈ ds, Below s d
  least : ∀ e, (∀ s ∈ ds, Below s e) → Below d e

/-- What two types meet at is below every type that both are below. -/
theorem promote_below (hs : Below s e) (hd : Below d e) : Below (promote s d) e := by
  unfold Below at hs hd ⊢
  rw [promote_assoc, hd, hs]

theorem exists_common (nonempty : ds ≠ []) : ∃ d, common? ds = some d := by
  cases ds with
  | nil => exact absurd rfl nonempty
  | cons a as => exact ⟨as.foldl promote a, rfl⟩

theorem common?_eq_none_iff : common? ds = none ↔ ds = [] := by
  cases ds <;> simp [common?]

theorem join_common (hd : common? ds = some d) : Join ds d := by
  refine ⟨fun s hs => below_common hd hs, fun e below => ?_⟩
  cases ds with
  | nil => exact absurd hd (by simp [common?])
  | cons a as =>
    rw [← Option.some.inj hd]
    refine List.foldlRecOn (motive := fun b => Below b e) as promote ?_ ?_
    · exact below a List.mem_cons_self
    · exact fun b hb s hs => promote_below hb (below s (List.mem_cons_of_mem a hs))

namespace Join

theorem unique (hd : Join ds d) (he : Join ds e) : d = e :=
  (hd.least e he.above).antisymm (he.least d hd.above)

theorem congr (hd : Join ds d) (same : ∀ s, s ∈ es ↔ s ∈ ds) : Join es d :=
  ⟨fun s hs => hd.above s ((same s).mp hs),
    fun e below => hd.least e fun s hs => below s ((same s).mpr hs)⟩

/-- The join of a list whose members are those of two lists. -/
theorem promote {a b : DType} (ha : Join xs a) (hb : Join ys b)
    (parts : ∀ s, s ∈ ds ↔ s ∈ xs ∨ s ∈ ys) : Join ds (promote a b) := by
  constructor
  · intro s hs
    rcases (parts s).mp hs with hx | hy
    · exact (ha.above s hx).trans (below_promote_left a b)
    · exact (hb.above s hy).trans (below_promote_right a b)
  · intro e below
    have hxs : Below a e := ha.least e fun s hs => below s ((parts s).mpr (.inl hs))
    have hys : Below b e := hb.least e fun s hs => below s ((parts s).mpr (.inr hs))
    exact promote_below hxs hys

end Join

/-- The fold finds the join, which only an empty list has no answer for. -/
theorem common?_eq_some_iff : common? ds = some d ↔ ds ≠ [] ∧ Join ds d := by
  constructor
  · intro hd
    refine ⟨?_, join_common hd⟩
    rintro rfl
    exact absurd hd (by simp [common?])
  · rintro ⟨nonempty, join⟩
    obtain ⟨e, he⟩ := exists_common nonempty
    rw [he, (join_common he).unique join]

theorem level_promote (a b : DType) :
    (promote a b).category.level = max a.category.level b.category.level := by
  cases a <;> cases b <;> rfl

/-- A fold of the pairwise rule can be stored where each of its members can. -/
theorem level_foldl_le {level : Nat} :
    (ds.foldl promote d).category.level ≤ level ↔
      ∀ e ∈ d :: ds, e.category.level ≤ level := by
  induction ds generalizing d with
  | nil => simp
  | cons e ds ih =>
    rw [List.foldl_cons, ih]
    simp only [List.forall_mem_cons, level_promote, Nat.max_le, and_assoc]

theorem canCast_common (hd : common? ds = some d) :
    canCast d target ↔ ∀ s ∈ ds, canCast s target := by
  cases ds with
  | nil => exact absurd hd (by simp [common?])
  | cons a as =>
    rw [← Option.some.inj hd]
    simp only [canCast, decide_eq_true_eq]
    exact level_foldl_le

/-- A list that is not empty meets at one type, the least one that all its members are below. Lists
of the same members meet at the same type, in whatever order and however often they have them. The
types of two parts meet at the type of the whole, and that type can be stored just where each
member can. -/
theorem common_type_is_join (ds : List DType) (nonempty : ds ≠ []) :
    ∃ d, common? ds = some d ∧ (∀ e, Join ds e ↔ e = d) ∧
      (∀ es, (∀ s, s ∈ es ↔ s ∈ ds) → common? es = some d) ∧
      (∀ xs ys, xs ≠ [] → ys ≠ [] → (∀ s, s ∈ ds ↔ s ∈ xs ∨ s ∈ ys) →
        ∃ a b, common? xs = some a ∧ common? ys = some b ∧ promote a b = d) ∧
      ∀ target, canCast d target ↔ ∀ s ∈ ds, canCast s target := by
  obtain ⟨d, hd⟩ := exists_common nonempty
  have join := join_common hd
  refine ⟨d, hd, fun e => ?_, fun es same => ?_, fun xs ys hxs hys parts => ?_,
    fun target => canCast_common hd⟩
  · constructor
    · exact fun he => he.unique join
    · rintro rfl
      exact join
  · have hes : es ≠ [] := by
      rintro rfl
      obtain ⟨s, hs⟩ := List.exists_mem_of_ne_nil ds nonempty
      exact absurd ((same s).mpr hs) List.not_mem_nil
    exact common?_eq_some_iff.mpr ⟨hes, join.congr same⟩
  · obtain ⟨a, ha⟩ := exists_common hxs
    obtain ⟨b, hb⟩ := exists_common hys
    exact ⟨a, b, ha, hb, ((join_common ha).promote (join_common hb) parts).unique join⟩

/-- Bytes with and without a sign meet at sixteen bits, the two floating types of that size at
thirty-two, and all four of them there. -/
theorem common_type_is_join_bytes :
    [u8, f16, i8, bf16, u8] ≠ [] ∧ common? [u8, f16, i8, bf16, u8] = some .f32 ∧
      Join [u8, f16, i8, bf16, u8] .f32 ∧ common? [bf16, i8, f16, i8, u8] = some .f32 ∧
      (∃ a b, common? [u8, i8] = some a ∧ common? [f16, bf16] = some b ∧ promote a b = .f32) ∧
      (canCast .f32 .f16 ↔ ∀ s ∈ [u8, f16, i8, bf16, u8], canCast s .f16) := by
  have nonempty : [u8, f16, i8, bf16, u8] ≠ [] := by decide
  have hmeet : common? [u8, f16, i8, bf16, u8] = some .f32 := by decide
  obtain ⟨d, hd, join, rearranged, parts, casts⟩ := common_type_is_join _ nonempty
  obtain rfl : f32 = d := Option.some.inj (hmeet.symm.trans hd)
  refine ⟨nonempty, hmeet, (join .f32).mpr rfl, rearranged _ fun s => ?_,
    parts _ _ (by decide) (by decide) fun s => ?_, casts .f16⟩
  · cases s <;> decide
  · cases s <;> decide

end TensorConcat.DType
