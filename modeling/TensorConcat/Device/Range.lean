/-!
# Two-dimensional launch ranges

A launch runs a kernel once per item of a global range that is cut into groups of
a local range. A range is accepted when its groups are not empty, fill it without
a rest, and are no larger than the device allows. `items` lists the items of an
accepted range in the order in which a device that runs one at a time meets them:
group after group, the first direction fastest, and likewise inside a group.
-/

namespace TensorConcat

/-- One number per direction. -/
structure Extent2 where
  x : UInt32
  y : UInt32
deriving Repr, DecidableEq, Inhabited

def Extent2.text (e : Extent2) : String := "[" ++ toString e.x.toNat ++ ", " ++ toString e.y.toNat ++ "]"

structure Range2 where
  global : Extent2
  workGroup : Extent2
deriving Repr, DecidableEq

inductive LaunchError
  | emptyWorkGroup (workGroup : Extent2)
  | unalignedGlobalRange (global workGroup : Extent2)
  | workGroupTooLarge (size : Nat) (limit : UInt32)
  | globalRangeOverflow (groups workGroup : UInt32)
  | stagingOverrun (items capacity : Nat)
  | queueRejected (submission : Nat)
deriving Repr, DecidableEq

def LaunchError.message : LaunchError → String
  | emptyWorkGroup l => "local range " ++ l.text ++ " contains a zero extent"
  | unalignedGlobalRange g l =>
    "global range " ++ g.text ++ " is not a multiple of local range " ++ l.text
  | workGroupTooLarge size limit =>
    "work-group of " ++ toString size ++ " items exceeds the device limit of " ++
      toString limit.toNat
  | globalRangeOverflow groups l =>
    toString groups.toNat ++ " work-groups of " ++ toString l.toNat ++
      " items overflow a 32-bit global range"
  | stagingOverrun items capacity =>
    "staging copy of " ++ toString items ++ " items overruns a buffer of capacity " ++
      toString capacity
  | queueRejected submission => "queue rejected submission #" ++ toString submission

namespace Range2

/-- The number of groups in each direction. -/
def groups (r : Range2) : Extent2 := ⟨r.global.x / r.workGroup.x, r.global.y / r.workGroup.y⟩

def validate (r : Range2) (limit : UInt32) : Except LaunchError Extent2 :=
  if r.workGroup.x = 0 ∨ r.workGroup.y = 0 then .error (.emptyWorkGroup r.workGroup)
  else if r.global.x % r.workGroup.x ≠ 0 ∨ r.global.y % r.workGroup.y ≠ 0 then
    .error (.unalignedGlobalRange r.global r.workGroup)
  else
    let size := r.workGroup.x.toNat * r.workGroup.y.toNat
    if limit.toNat < size then .error (.workGroupTooLarge size limit) else .ok r.groups

end Range2

/-- One item of a launch: its group, its place in the group, and both ranges. -/
structure WorkItem where
  group : Extent2
  localId : Extent2
  localRange : Extent2
  groupRange : Extent2
deriving Repr, DecidableEq, Inhabited

namespace WorkItem

def globalId (i : WorkItem) : Extent2 :=
  ⟨i.group.x * i.localRange.x + i.localId.x, i.group.y * i.localRange.y + i.localId.y⟩

end WorkItem

namespace Range2

/-- The group with a given number in the order of a launch. -/
def groupAt (r : Range2) (n : Nat) : Extent2 :=
  ⟨UInt32.ofNat (n % r.groups.x.toNat), UInt32.ofNat (n / r.groups.x.toNat)⟩

def groupCount (r : Range2) : Nat := r.groups.x.toNat * r.groups.y.toNat

/-- The items of one group. -/
def groupItems (r : Range2) (group : Extent2) : List WorkItem :=
  (List.range r.workGroup.y.toNat).flatMap fun y =>
    (List.range r.workGroup.x.toNat).map fun x =>
      ⟨group, ⟨UInt32.ofNat x, UInt32.ofNat y⟩, r.workGroup, r.groups⟩

def items (r : Range2) : List WorkItem :=
  (List.range r.groupCount).flatMap fun n => r.groupItems (r.groupAt n)

/-- Runs a step for every item in turn, one group at a time, and stops at the first
that fails. -/
def runItems {σ ε : Type} (r : Range2) (step : WorkItem → σ → Except ε σ) (s : σ) : Except ε σ :=
  (List.range r.groupCount).foldlM
    (fun s n => (r.groupItems (r.groupAt n)).foldlM (fun s i => step i s) s) s

theorem runItems_eq_foldlM {σ ε : Type} (r : Range2) (step : WorkItem → σ → Except ε σ) (s : σ) :
    r.runItems step s = r.items.foldlM (fun s i => step i s) s := by
  unfold runItems items
  induction List.range r.groupCount generalizing s with
  | nil => rfl
  | cons n ns ih =>
    simp only [List.foldlM_cons, List.flatMap_cons, List.foldlM_append]
    congr 1
    funext s
    exact ih s

end Range2

end TensorConcat
