import TensorConcat.Proofs.Containment
import TensorConcat.Proofs.Routes
import TensorConcat.SoftwareCasts

/-!
# Programs over tensors

A program is a list of operations on a workspace, the tensors obtained so far and the machine.
An operation names the tensors that it takes by their number. It adds the tensor that it
gives; resizing and concatenation into an output put the new view in the place of the old
one. An operation that fails gives nothing, though it may leave memory or an output changed.

Whatever the program, each tensor of the workspace stays inside its storage, and tensors of
one storage have one type. One step keeps this, case by case, and a run by induction.
-/

namespace TensorConcat

structure Workspace where
  tensors : List Tensor := []
  machine : Machine := {}

namespace Workspace

def heap (w : Workspace) : Heap := w.machine.heap

/-- A tensor more, if there is one. -/
def add (w : Workspace) (given : Option (Tensor × Heap)) : Workspace :=
  match given with
  | some (t, h) => ⟨w.tensors ++ [t], w.machine.withHeap h⟩
  | none => w

/-- A tensor in the place of another. -/
def put (w : Workspace) (i : Nat) (t : Tensor) (m : Machine) : Workspace :=
  ⟨w.tensors.set i t, m⟩

def resize (w : Workspace) (i : Nat) (dims : List Nat) (f : MemoryFormat) : Workspace :=
  match w.tensors[i]? with
  | none => w
  | some t =>
    match t.resize dims f w.heap with
    | .ok (t, h) => w.put i t (w.machine.withHeap h)
    | .error _ => w

variable [FloatCasts]

def copy (w : Workspace) (target source : Nat) : Workspace :=
  match w.tensors[target]?, w.tensors[source]? with
  | some t, some u =>
    match t.copy u w.heap with
    | .ok h => { w with machine := w.machine.withHeap h }
    | .error _ => w
  | _, _ => w

/-- The tensors with the given numbers, if there are all of them. -/
def members (w : Workspace) (numbers : List Nat) : Option (List Tensor) :=
  numbers.mapM (w.tensors[·]?)

def cat (w : Workspace) (route : Route) (inputs : List Nat) (dim : Int) : Workspace :=
  match w.members inputs with
  | none => w
  | some inputs =>
    match route.backend.cat inputs dim w.machine with
    | (.ok t, m) => ⟨w.tensors ++ [t], m⟩
    | (.error _, m) => { w with machine := m }

def catInto (w : Workspace) (route : Route) (out : Nat) (inputs : List Nat) (dim : Int) :
    Workspace :=
  match w.tensors[out]?, w.members inputs with
  | some t, some inputs =>
    let o := route.backend.catInto t inputs dim w.machine
    w.put out o.out o.machine
  | _, _ => w

end Workspace

/-- An operation of a program. Tensors that it takes are given by their numbers. -/
inductive Operation
  | zeros (dims : List Nat) (dtype : DType) (f : MemoryFormat)
  | undefined (dtype : DType)
  | ofElements (dims : List Nat) (dtype : DType) (elements : List (List UInt8))
  | ofBools (dims : List Nat) (values : List Bool)
  | ofBytes (dims : List Nat) (dtype : DType) (bytes : List UInt8)
  | asStrided (tensor : Nat) (dims strides : List Nat) (offset : Nat)
  | narrow (tensor axis start length : Nat)
  | permute (tensor : Nat) (order : List Nat)
  | clone (tensor : Nat)
  | toFormat (tensor : Nat) (f : MemoryFormat)
  | contiguous (tensor : Nat)
  | resize (tensor : Nat) (dims : List Nat) (f : MemoryFormat)
  | resizeTarget (tensor : Nat) (dims : List Nat) (f : MemoryFormat)
  | copy (target source : Nat)
  | cat (route : Route) (inputs : List Nat) (dim : Int)
  | catInto (route : Route) (out : Nat) (inputs : List Nat) (dim : Int)

namespace Operation

variable [FloatCasts]

/-- The tensor that a constructor or a view gives, with the memory it is in. -/
def given (w : Workspace) : Operation → Option (Tensor × Heap)
  | zeros dims dtype f => (Tensor.zeros dims dtype f w.heap).toOption
  | undefined dtype => (Tensor.undefined dtype w.heap).toOption
  | ofElements dims dtype elements => (Tensor.ofElements dims dtype elements w.heap).toOption
  | ofBools dims values => (Tensor.ofBools dims values w.heap).toOption
  | ofBytes dims dtype bytes => (Tensor.ofBytes dims dtype bytes w.heap).toOption
  | asStrided i dims strides offset => do
    let t ← w.tensors[i]?
    return (← (t.asStrided dims strides offset w.heap).toOption, w.heap)
  | narrow i axis start length => do
    let t ← w.tensors[i]?
    return (← (t.narrow axis start length).toOption, w.heap)
  | permute i order => do
    let t ← w.tensors[i]?
    return (← (t.permute order).toOption, w.heap)
  | clone i => do return (← w.tensors[i]?, w.heap)
  | toFormat i f => do (← w.tensors[i]?).toFormat f w.heap |>.toOption
  | contiguous i => do (← w.tensors[i]?).contiguous w.heap |>.toOption
  | resizeTarget i dims f => do
    let t ← w.tensors[i]?
    return (← (← (t.resizeTarget dims f w.heap).toOption), w.heap)
  | _ => none

/-- What an operation makes of a workspace. -/
def step (w : Workspace) : Operation → Workspace
  | resize i dims f => w.resize i dims f
  | copy target source => w.copy target source
  | cat route inputs dim => w.cat route inputs dim
  | catInto route out inputs dim => w.catInto route out inputs dim
  | op => w.add (op.given w)

end Operation

/-- Runs a program. -/
def Workspace.run [FloatCasts] (w : Workspace) (program : List Operation) : Workspace :=
  program.foldl Operation.step w

/-- Every tensor is placed, and tensors of one storage have one type. -/
structure Workspace.Sound (w : Workspace) : Prop where
  placed : ∀ t ∈ w.tensors, t.Placed w.heap
  typed : ∀ t ∈ w.tensors, ∀ u ∈ w.tensors, t.storage = u.storage → t.dtype = u.dtype

namespace Workspace.Sound
variable {w : Workspace} {t : Tensor} {m : Machine}

theorem empty (m : Machine) : Sound ⟨[], m⟩ := ⟨by simp, by simp⟩

theorem grows (sound : w.Sound) (grown : w.heap.Grows m.heap) : Sound { w with machine := m } :=
  ⟨fun t ht => (sound.placed t ht).grows grown, sound.typed⟩

/-- A given tensor has the type of every tensor on its storage. -/
theorem dtype_eq (sound : w.Sound) {k : Heap} (given : Tensor.Given w.tensors w.heap t k)
    {u : Tensor} (hu : u ∈ w.tensors) (same : t.storage = u.storage) : t.dtype = u.dtype := by
  rcases given.origin with hfresh | ⟨v, hv, hstorage, hdtype⟩
  · have hknown := (sound.placed u hu).known
    omega
  · rw [hdtype]
    exact sound.typed v hv u hu (hstorage.symm.trans same)

/-- Tensors that were there before and a given one are sound together. -/
theorem given (sound : w.Sound) (given : Tensor.Given w.tensors w.heap t m.heap) {ts : List Tensor}
    (hts : ∀ u ∈ ts, u ∈ w.tensors ∨ u = t) : Sound ⟨ts, m⟩ where
  placed u hu := by
    rcases hts u hu with hold | rfl
    · exact (sound.placed u hold).grows given.grown
    · exact given.placed
  typed u hu v hv same := by
    rcases hts u hu with huOld | rfl
    · rcases hts v hv with hvOld | rfl
      · exact sound.typed u huOld v hvOld same
      · exact (sound.dtype_eq given huOld same.symm).symm
    · rcases hts v hv with hvOld | rfl
      · exact sound.dtype_eq given hvOld same
      · rfl

theorem put (sound : w.Sound) (given : Tensor.Given w.tensors w.heap t m.heap) (i : Nat) :
    (w.put i t m).Sound := sound.given given fun _ hu => List.mem_or_eq_of_mem_set hu

end Workspace.Sound

section Given
variable {α ε : Type}

theorem map_eq_ok {β : Type} {x : Except ε α} {f : α → β} {b : β} :
    x.map f = .ok b ↔ ∃ a, x = .ok a ∧ f a = b := by
  cases x with
  | error e => simp [Except.map]
  | ok a => simp [Except.map]

theorem toOption_eq_some {x : Except ε α} {a : α} : x.toOption = some a ↔ x = .ok a := by
  cases x with
  | error e => simp [Except.toOption]
  | ok b => simp [Except.toOption]

end Given

namespace Operation
variable {w : Workspace} {t u : Tensor} {k : Heap} {i : Nat}

/-- What a member of a workspace gives, the workspace gives. -/
theorem given_of_member (hu : w.tensors[i]? = some u) (given : Tensor.Given [u] w.heap t k) :
    Tensor.Given w.tensors w.heap t k :=
  given.mono fun _ hv => List.mem_singleton.mp hv ▸ List.mem_of_getElem? hu

/-- A view of a member of a workspace. -/
theorem given_view {ε : Type} (sound : w.Sound) {view : Tensor → Except ε Tensor}
    (hview : (do
      let u ← w.tensors[i]?
      return (← (view u).toOption, w.heap)) = some (t, k))
    (hgiven : ∀ u, u.Placed w.heap → view u = .ok t → Tensor.Given [u] w.heap t w.heap) :
    Tensor.Given w.tensors w.heap t k := by
  rcases Option.bind_eq_some_iff.mp hview with ⟨u, hu, hview⟩
  rcases Option.bind_eq_some_iff.mp hview with ⟨v, hv, hview⟩
  rcases Prod.mk.inj (Option.some.inj hview) with ⟨rfl, rfl⟩
  have placed := sound.placed u (List.mem_of_getElem? hu)
  exact given_of_member hu (hgiven u placed (toOption_eq_some.mp hv))

/-- A constructor or a view gives a placed tensor. -/
theorem given_sound [FloatCasts] (sound : w.Sound) (op : Operation)
    (hop : op.given w = some (t, k)) : Tensor.Given w.tensors w.heap t k := by
  have hmember {i : Nat} {u : Tensor} (hu : w.tensors[i]? = some u) : u.Placed w.heap :=
    sound.placed u (List.mem_of_getElem? hu)
  cases op with
  | zeros dims dtype f => exact (Tensor.given_zeros (toOption_eq_some.mp hop)).of_fresh _
  | undefined dtype => exact (Tensor.given_zeros (toOption_eq_some.mp hop)).of_fresh _
  | ofElements dims dtype elements => exact (Tensor.given_ofElements (toOption_eq_some.mp hop)).of_fresh _
  | ofBools dims values => exact (Tensor.given_ofElements (toOption_eq_some.mp hop)).of_fresh _
  | ofBytes dims dtype bytes => exact (Tensor.given_ofBytes (toOption_eq_some.mp hop)).of_fresh _
  | asStrided i dims strides offset =>
    exact given_view sound hop fun _ placed hok => Tensor.given_asStrided placed hok
  | narrow i axis start length =>
    exact given_view sound hop fun _ placed hok => Tensor.given_narrow placed hok
  | permute i order =>
    exact given_view sound hop fun _ placed hok => Tensor.given_permute placed hok
  | clone i =>
    rcases Option.bind_eq_some_iff.mp hop with ⟨u, hu, hop⟩
    rcases Prod.mk.inj (Option.some.inj hop) with ⟨rfl, rfl⟩
    exact given_of_member hu (.view (hmember hu) rfl rfl)
  | toFormat i f =>
    rcases Option.bind_eq_some_iff.mp hop with ⟨u, hu, hop⟩
    exact given_of_member hu (Tensor.given_toFormat (hmember hu) (toOption_eq_some.mp hop))
  | contiguous i =>
    rcases Option.bind_eq_some_iff.mp hop with ⟨u, hu, hop⟩
    exact given_of_member hu (Tensor.given_toFormat (hmember hu) (toOption_eq_some.mp hop))
  | resizeTarget i dims f =>
    rcases Option.bind_eq_some_iff.mp hop with ⟨u, hu, hop⟩
    rcases Option.bind_eq_some_iff.mp hop with ⟨target, htarget, hop⟩
    rcases Option.bind_eq_some_iff.mp hop with ⟨v, rfl, hop⟩
    rcases Prod.mk.inj (Option.some.inj hop) with ⟨rfl, rfl⟩
    exact given_of_member hu (Tensor.given_resizeTarget (hmember hu) (toOption_eq_some.mp htarget))
  | resize _ _ _ | copy _ _ | cat _ _ _ | catInto _ _ _ _ => exact absurd hop (by simp [given])

end Operation

namespace Route
variable (route : Route) {out : Tensor} {m : Machine} [FloatCasts]

/-- An output that a concatenation has been given stays placed, whatever the answer. -/
theorem catInto_given (placed : out.Placed m.heap) (inputs : List Tensor) (dim : Int) :
    Tensor.Given [out] m.heap (route.backend.catInto out inputs dim m).out
      (route.backend.catInto out inputs dim m).machine.heap := by
  cases route.catInto_resizedOnly out inputs dim m with
  | kept hout hsizes =>
    rw [hout]
    exact (Tensor.Given.view placed rfl rfl).written hsizes
  | resized shape f k hresize hsizes => exact (Tensor.given_resize placed hresize).written hsizes

/-- Concatenation into a new tensor leaves placed what was placed, and gives a placed tensor. -/
theorem cat_given (inputs : List Tensor) (dim : Int) (m : Machine) :
    m.heap.Grows (route.backend.cat inputs dim m).2.heap ∧
      ∀ t, (route.backend.cat inputs dim m).1 = .ok t →
        Tensor.Given [] m.heap t (route.backend.cat inputs dim m).2.heap := by
  cases hdtype : Backend.resultType inputs with
  | error e =>
    rw [Backend.cat, hdtype]
    exact ⟨.refl _, fun t ht => absurd ht (by simp)⟩
  | ok dtype =>
    have hout := Tensor.given_zeros (Tensor.undefined_eq dtype m.heap)
    have hinto := hout.trans
      (route.catInto_given (m := m.withHeap m.heap.withEmpty) hout.placed inputs dim)
    rw [Backend.cat_eq hdtype]
    refine ⟨hinto.grown, fun t ht => ?_⟩
    rcases map_eq_ok.mp ht with ⟨_, -, rfl⟩
    exact hinto

end Route

namespace Workspace.Sound
variable {w : Workspace}

theorem member (sound : w.Sound) {i : Nat} {t : Tensor} (ht : w.tensors[i]? = some t) :
    t.Placed w.heap := sound.placed t (List.mem_of_getElem? ht)

theorem resize (sound : w.Sound) (i : Nat) (dims : List Nat) (f : MemoryFormat) :
    (w.resize i dims f).Sound := by
  unfold Workspace.resize
  split
  · exact sound
  · rename_i t ht
    split
    · rename_i u k hresize
      exact sound.put (m := w.machine.withHeap k)
        (Operation.given_of_member ht (Tensor.given_resize (sound.member ht) hresize)) i
    · exact sound

variable [FloatCasts]

theorem copy (sound : w.Sound) (target source : Nat) : (w.copy target source).Sound := by
  unfold Workspace.copy
  split
  · rename_i t u _ _
    split
    · rename_i h hcopy
      rcases checked_bind.mp hcopy with ⟨_, -, hcopy⟩
      have hh := Except.ok.inj hcopy
      subst hh
      exact sound.grows (m := w.machine.withHeap _) (Tensor.sameSizes_copyMatching t u w.heap).grows
    · exact sound
  · exact sound

theorem cat (sound : w.Sound) (route : Route) (inputs : List Nat) (dim : Int) :
    (w.cat route inputs dim).Sound := by
  unfold Workspace.cat
  split
  · exact sound
  · rename_i ts _
    have hcat := route.cat_given ts dim w.machine
    split
    · rename_i t m hrun
      rw [hrun] at hcat
      exact sound.given ((hcat.2 t rfl).of_fresh w.tensors) fun u hu => by simpa using hu
    · rename_i e m hrun
      rw [hrun] at hcat
      exact sound.grows hcat.1

theorem catInto (sound : w.Sound) (route : Route) (out : Nat) (inputs : List Nat) (dim : Int) :
    (w.catInto route out inputs dim).Sound := by
  unfold Workspace.catInto
  split
  · rename_i t ts ht _
    exact sound.put
      (Operation.given_of_member ht (route.catInto_given (sound.member ht) ts dim)) out
  · exact sound

theorem add (sound : w.Sound) (op : Operation) : (w.add (op.given w)).Sound := by
  cases hop : op.given w with
  | none => exact sound
  | some given =>
    exact sound.given (m := w.machine.withHeap given.2) (Operation.given_sound sound op hop)
      fun u hu => by simpa using hu

/-- One operation keeps a workspace sound. -/
theorem step (sound : w.Sound) (op : Operation) : (Operation.step w op).Sound := by
  cases op with
  | resize i dims f => exact sound.resize i dims f
  | copy target source => exact sound.copy target source
  | cat route inputs dim => exact sound.cat route inputs dim
  | catInto route out inputs dim => exact sound.catInto route out inputs dim
  | _ => exact sound.add _

end Workspace.Sound

/-- Whatever program has been run, from no tensor on and on any machine: every tensor has an axis, a
stride for each axis, and only elements inside its storage, and tensors of one storage have
one type. -/
theorem run_sound [FloatCasts] (m : Machine) (program : List Operation) :
    (Workspace.run ⟨[], m⟩ program).Sound := by
  have hrun (w : Workspace) (sound : w.Sound) : (w.run program).Sound := by
    induction program generalizing w with
    | nil => exact sound
    | cons op program ih => exact ih _ (sound.step op)
  exact hrun _ (.empty m)

/-- A square, its transpose and one joined to the other below it. -/
example : (Workspace.run {} [.ofBytes [2, 2] .u8 [1, 2, 3, 4], .permute 0 [1, 0],
    .cat .reference [0, 1] 0]).tensors =
      [⟨0, 0, [⟨2, 2⟩, ⟨2, 1⟩], .u8⟩, ⟨0, 0, [⟨2, 1⟩, ⟨2, 2⟩], .u8⟩, ⟨2, 0, [⟨4, 2⟩, ⟨2, 1⟩], .u8⟩] := by
  cbv

end TensorConcat
