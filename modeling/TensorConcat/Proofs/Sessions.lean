import TensorConcat.Proofs.Staging

/-!
# Whole sessions with a device

A session is a list of calls on one device: staging buffers of several record types are allocated,
staged and read back, and launches are submitted, in any order and with any arguments. Some calls
are turned away, and a kernel may stop half way. `Took` says all that a single call may do. What
holds after a session of any length follows from it: the counters count what has succeeded, a call
that is turned away leaves no trace, a stopped kernel is the end of the queue, and each record that
is read back is the one staged last.
-/

namespace TensorConcat

variable {ι : Type} {R : ι → Type}

/-- A call on a device. Buffers are known by a name that also fixes what records they hold. -/
inductive DeviceCall (R : ι → Type)
  | alloc (i : ι) (capacity : Nat)
  | stage (i : ι) (items : List (R i))
  | readBack (i : ι) (count : Nat)
  | launch (range : Range2) (kernel : WorkItem → Heap → Except Fault Heap)

/-- Whether the call needs the queue. -/
def DeviceCall.onQueue : DeviceCall R → Bool
  | alloc _ _ => false
  | stage _ _ | readBack _ _ | launch _ _ => true

inductive Reply (R : ι → Type)
  | done
  | records (i : ι) (items : List (R i))

/-- A call and its answer. A kernel that stops answers with its fault. -/
abbrev Entry (R : ι → Type) := DeviceCall R × Except Failure (Reply R)

namespace Entry

/-- A launch that was taken on, whether or not its kernel came to its end. -/
def accepted : Entry R → Bool
  | (.launch _ _, .ok _) | (.launch _ _, .error (.fault _)) => true
  | _ => false

def stopped : Entry R → Bool
  | (.launch _ _, .error (.fault _)) => true
  | _ => false

def transferred : Entry R → Bool
  | (.stage _ _, .ok _) => true
  | _ => false

end Entry

structure Session (R : ι → Type) where
  machine : Machine
  buffers : (i : ι) → StagingBuffer (R i)

/-- A submission is turned away, or taken on and brought to its end, or stopped by its kernel. -/
theorem Action.submit_cases (r : Range2) (kernel : WorkItem → Heap → Except Fault Heap)
    (m : Machine) :
    (∃ cause, submit r kernel m = (.error (.backend (.execution cause)), m)) ∨
    ∃ device m', m.device.accept r = .ok device ∧
      (submit r kernel m = (.ok (), m') ∧ m'.device = device ∨
        ∃ fault, submit r kernel m = (.error (.fault fault), m') ∧
          m'.device = { device with poisoned := true }) := by
  unfold submit
  rw [bind_ok (get_run m)]
  cases haccept : m.device.accept r with
  | error cause => exact .inl ⟨cause, bind_error (launch_refused haccept kernel m.heap) _⟩
  | ok device =>
    have hlaunch := launch_run haccept kernel m.heap
    cases hrun : r.runItems kernel m.heap with
    | ok k =>
      rw [hrun] at hlaunch
      exact .inr ⟨device, _, rfl, .inl ⟨bind_ok hlaunch, rfl⟩⟩
    | error fault =>
      rw [hrun] at hlaunch
      exact .inr ⟨device, _, rfl, .inr ⟨fault, bind_error hlaunch _, rfl⟩⟩

namespace Session
variable [DecidableEq ι] [∀ i, PlainRecord (R i)]

/-- Before the first call, with a new device and buffers without room. -/
def start (config : DeviceConfig) : Session R := ⟨.boot config, fun _ => ⟨0, #[]⟩⟩

/-- Makes a call. -/
def step (s : Session R) (c : DeviceCall R) : Except Failure (Reply R) × Session R :=
  match c with
  | .alloc i capacity =>
    match Device.allocStaging (R i) capacity with
    | .error e => (.error e, s)
    | .ok b => (.ok .done, { s with buffers := Function.update s.buffers i b })
  | .stage i items =>
    match Action.stage (s.buffers i) items s.machine with
    | (.error e, m) => (.error e, { s with machine := m })
    | (.ok b, m) => (.ok .done, ⟨m, Function.update s.buffers i b⟩)
  | .readBack i count =>
    match s.machine.device.readBack (s.buffers i) count with
    | .error cause => (.error (.backend (.execution cause)), s)
    | .ok items => (.ok (.records i items), s)
  | .launch range kernel =>
    match Action.submit range kernel s.machine with
    | (.error e, m) => (.error e, { s with machine := m })
    | (.ok _, m) => (.ok .done, { s with machine := m })

/-- Makes calls one after the other, and puts each with its answer in front of those before it. -/
def run (past : List (Entry R)) (s : Session R) : List (DeviceCall R) → List (Entry R) × Session R
  | [] => (past, s)
  | c :: calls => run ((c, (s.step c).1) :: past) (s.step c).2 calls

/-- A session with a new device: its history, the last call first, and how it ends. -/
def session (config : DeviceConfig) (calls : List (DeviceCall R)) :
    List (Entry R) × Session R :=
  run [] (start config) calls

/-- Whether the device takes launches on. -/
structure Open (s : Session R) : Prop where
  usable : s.machine.device.poisoned = false
  budget : ∀ limit, s.machine.device.config.failAfterSubmissions = some limit →
    s.machine.device.submissions < limit

/-- All that a call may do: its answer, and the session after it. -/
inductive Took (s : Session R) : DeviceCall R → Except Failure (Reply R) → Session R → Prop
  | allocated (i : ι) (capacity : Nat) :
      Took s (.alloc i capacity) (.ok .done)
        { s with buffers := Function.update s.buffers i ⟨capacity, #[]⟩ }
  | tooLarge (i : ι) (capacity : Nat) :
      Took s (.alloc i capacity) (.error (.fault .storageTooLarge)) s
  | staged (i : ι) (items : List (R i)) (m : Machine) : items.length ≤ (s.buffers i).capacity →
      s.machine.device.poisoned = false → m.device = s.machine.device.counting 0 1 →
      Took s (.stage i items) (.ok .done)
        ⟨m, Function.update s.buffers i ((s.buffers i).put items)⟩
  | read (i : ι) (count : Nat) : count ≤ (s.buffers i).capacity →
      s.machine.device.poisoned = false →
      Took s (.readBack i count) (.ok (.records i ((List.range count).map (s.buffers i).record))) s
  | launched (range : Range2) (kernel : WorkItem → Heap → Except Fault Heap) (m : Machine) :
      s.Open → m.device = s.machine.device.counting 1 0 →
      Took s (.launch range kernel) (.ok .done) { s with machine := m }
  | stopped (range : Range2) (kernel : WorkItem → Heap → Except Fault Heap) (m : Machine)
      (fault : Fault) : s.Open →
      m.device = { s.machine.device.counting 1 0 with poisoned := true } →
      Took s (.launch range kernel) (.error (.fault fault)) { s with machine := m }
  | refused (c : DeviceCall R) (cause : ExecutionCause) : c.onQueue = true →
      Took s c (.error (.backend (.execution cause))) s

theorem took_stage (s : Session R) (i : ι) (items : List (R i)) :
    s.Took (.stage i items) (s.step (.stage i items)).1 (s.step (.stage i items)).2 := by
  by_cases room : items.length ≤ (s.buffers i).capacity
  · cases hpoisoned : s.machine.device.poisoned with
    | false =>
      simp only [step, Action.stage_run room hpoisoned]
      exact .staged i items _ room hpoisoned rfl
    | true =>
      simp only [step, Action.stage_poisoned room hpoisoned]
      exact .refused _ _ rfl
  · simp only [step, Action.stage_overrun (Nat.not_le.mp room)]
    exact .refused _ _ rfl

theorem took_readBack (s : Session R) (i : ι) (count : Nat) :
    s.Took (.readBack i count) (s.step (.readBack i count)).1 (s.step (.readBack i count)).2 := by
  cases hread : s.machine.device.readBack (s.buffers i) count with
  | error cause =>
    simp only [step, hread]
    exact .refused _ cause rfl
  | ok items =>
    simp only [step, hread]
    unfold Device.readBack at hread
    obtain ⟨⟨⟩, hqueue, hslice⟩ := checked_bind.mp hread
    unfold StagingBuffer.slice at hslice
    split at hslice
    · exact absurd hslice (by simp)
    · rename_i hroom
      rw [← Except.ok.inj hslice]
      exact .read i count (Nat.not_lt.mp hroom) (Device.checkQueue_eq_ok.mp hqueue)

theorem took_launch (s : Session R) (range : Range2)
    (kernel : WorkItem → Heap → Except Fault Heap) :
    s.Took (.launch range kernel) (s.step (.launch range kernel)).1
      (s.step (.launch range kernel)).2 := by
  cases Action.submit_cases range kernel s.machine with
  | inl hrefused =>
    obtain ⟨cause, hrun⟩ := hrefused
    simp only [step, hrun]
    exact .refused _ cause rfl
  | inr htaken =>
    obtain ⟨device, m, haccept, hrun⟩ := htaken
    obtain ⟨-, husable, hbudget, rfl⟩ := Device.accept_ok haccept
    have hopen : s.Open := ⟨husable, hbudget⟩
    cases hrun with
    | inl hended =>
      simp only [step, hended.1]
      exact .launched range kernel m hopen hended.2
    | inr hstopped =>
      obtain ⟨fault, hrun, hm⟩ := hstopped
      simp only [step, hrun]
      exact .stopped range kernel m fault hopen hm

theorem took_alloc (s : Session R) (i : ι) (capacity : Nat) :
    s.Took (.alloc i capacity) (s.step (.alloc i capacity)).1 (s.step (.alloc i capacity)).2 := by
  by_cases hlimit : capacity * Record.size (R i) ≤ storageLimit
  · have halloc : Device.allocStaging (R i) capacity = .ok ⟨capacity, #[]⟩ := if_pos hlimit
    simp only [step, halloc]
    exact .allocated i capacity
  · have halloc : Device.allocStaging (R i) capacity = .error (.fault .storageTooLarge) :=
      if_neg hlimit
    simp only [step, halloc]
    exact .tooLarge i capacity

theorem took_step (s : Session R) (c : DeviceCall R) : s.Took c (s.step c).1 (s.step c).2 := by
  cases c with
  | alloc i capacity => exact took_alloc s i capacity
  | stage i items => exact took_stage s i items
  | readBack i count => exact took_readBack s i count
  | launch range kernel => exact took_launch s range kernel

end Session

section History
variable [DecidableEq ι]

/-- The record that was staged last at each place of each buffer since it was allocated: that of
the latest list that reaches so far. -/
def lastStaged : List (Entry R) → (i : ι) → Nat → Option (R i)
  | [] => fun _ _ => none
  | (.alloc i _, .ok _) :: past => Function.update (lastStaged past) i fun _ => none
  | (.stage i items, .ok _) :: past =>
    Function.update (lastStaged past) i fun n => items[n]?.or (lastStaged past i n)
  | _ :: past => lastStaged past

variable [∀ i, PlainRecord (R i)]

/-- The bytes of each buffer: zeros when it is allocated, and written over from the front by each
list that is staged. -/
def stagedBytes : List (Entry R) → (i : ι) → List UInt8
  | [] => fun _ => []
  | (.alloc i capacity, .ok _) :: past =>
    Function.update (stagedBytes past) i (List.replicate (capacity * Record.size (R i)) 0)
  | (.stage i items, .ok _) :: past =>
    Function.update (stagedBytes past) i
      (StagingBuffer.overwrite (items.flatMap PlainRecord.encode) (stagedBytes past i))
  | _ :: past => stagedBytes past

end History

/-- How a device follows from the history of a session. -/
structure Counted (config : DeviceConfig) (past : List (Entry R)) (d : Device) : Prop where
  config_eq : d.config = config
  submissions : d.submissions = past.countP Entry.accepted
  budget : ∀ limit, config.failAfterSubmissions = some limit → d.submissions ≤ limit
  transfers : d.transfers = past.countP Entry.transferred
  poisoned : d.poisoned = past.any Entry.stopped

namespace Counted
variable {config : DeviceConfig} {past : List (Entry R)} {d : Device} {entry : Entry R}

/-- Entries that are not counted. -/
theorem uncounted (counted : Counted config past d) (hlaunch : entry.accepted = false)
    (hstage : entry.transferred = false) (hstop : entry.stopped = false) :
    Counted config (entry :: past) d where
  config_eq := counted.config_eq
  submissions := by simpa [List.countP_cons, hlaunch] using counted.submissions
  budget := counted.budget
  transfers := by simpa [List.countP_cons, hstage] using counted.transfers
  poisoned := by simpa [hstop] using counted.poisoned

theorem transferred (counted : Counted config past d) (hlaunch : entry.accepted = false)
    (hstage : entry.transferred = true) (hstop : entry.stopped = false) :
    Counted config (entry :: past) (d.counting 0 1) where
  config_eq := counted.config_eq
  submissions := by simpa [List.countP_cons, hlaunch] using counted.submissions
  budget := counted.budget
  transfers := by simpa [Device.counting, List.countP_cons, hstage] using counted.transfers
  poisoned := by simpa [Device.counting, hstop] using counted.poisoned

/-- A launch is counted before its kernel runs, and stays within the budget. -/
theorem accepted {poisoned : Bool} (counted : Counted config past d)
    (budget : ∀ limit, d.config.failAfterSubmissions = some limit → d.submissions < limit)
    (hlaunch : entry.accepted = true) (hstage : entry.transferred = false)
    (hstop : poisoned = (entry.stopped || d.poisoned)) :
    Counted config (entry :: past) { d.counting 1 0 with poisoned } where
  config_eq := counted.config_eq
  submissions := by simpa [List.countP_cons, hlaunch] using counted.submissions
  budget limit hlimit := by
    rw [← counted.config_eq] at hlimit
    exact budget limit hlimit
  transfers := by simpa [Device.counting, List.countP_cons, hstage] using counted.transfers
  poisoned := by rw [List.any_cons, ← counted.poisoned, hstop]

end Counted

section Buffers
variable [DecidableEq ι] [∀ i, PlainRecord (R i)]

/-- How the buffers follow from the history of a session, as records and as bytes. -/
structure Stored (past : List (Entry R)) (buffers : (i : ι) → StagingBuffer (R i)) : Prop where
  record : ∀ i n, (buffers i).record n = (lastStaged past i n).getD Record.zero
  image : ∀ i, (buffers i).image = stagedBytes past i

namespace Stored
variable {past : List (Entry R)} {buffers : (i : ι) → StagingBuffer (R i)} {i : ι}

theorem allocated (stored : Stored past buffers) (i : ι) (capacity : Nat) (reply : Reply R) :
    Stored ((.alloc i capacity, .ok reply) :: past)
      (Function.update buffers i ⟨capacity, #[]⟩) where
  record j n := by
    by_cases hj : j = i
    · subst hj
      rw [lastStaged, Function.update_self, Function.update_self]
      exact StagingBuffer.record_empty capacity n
    · rw [lastStaged, Function.update_of_ne hj, Function.update_of_ne hj]
      exact stored.record j n
  image j := by
    by_cases hj : j = i
    · subst hj
      rw [stagedBytes, Function.update_self, Function.update_self]
      exact StagingBuffer.image_empty capacity
    · rw [stagedBytes, Function.update_of_ne hj, Function.update_of_ne hj]
      exact stored.image j

theorem staged (stored : Stored past buffers) {items : List (R i)}
    (room : items.length ≤ (buffers i).capacity) (reply : Reply R) :
    Stored ((.stage i items, .ok reply) :: past)
      (Function.update buffers i ((buffers i).put items)) where
  record j n := by
    by_cases hj : j = i
    · subst hj
      rw [lastStaged, Function.update_self, Function.update_self, StagingBuffer.record_put,
        Option.getD_or, stored.record]
    · rw [lastStaged, Function.update_of_ne hj, Function.update_of_ne hj]
      exact stored.record j n
  image j := by
    by_cases hj : j = i
    · subst hj
      rw [stagedBytes, Function.update_self, Function.update_self, StagingBuffer.image_put room,
        stored.image]
    · rw [stagedBytes, Function.update_of_ne hj, Function.update_of_ne hj]
      exact stored.image j

end Stored

end Buffers

namespace Session
variable [DecidableEq ι] [∀ i, PlainRecord (R i)] {config : DeviceConfig} {past : List (Entry R)}
  {s s' : Session R}

/-- How a session follows from its history. -/
structure Follows (config : DeviceConfig) (past : List (Entry R)) (s : Session R) : Prop where
  device : Counted config past s.machine.device
  buffers : Stored past s.buffers

theorem follows_start (config : DeviceConfig) : Follows config [] (start config : Session R) where
  device := ⟨rfl, rfl, fun _ _ => Nat.zero_le _, rfl, rfl⟩
  buffers := ⟨fun _ n => StagingBuffer.record_empty 0 n, fun _ => rfl⟩

/-- A call that is turned away leaves no trace. -/
theorem Follows.refused (follows : Follows config past s) (c : DeviceCall R)
    (cause : ExecutionCause) :
    Follows config ((c, .error (.backend (.execution cause))) :: past) s := by
  cases c with
  | alloc | stage | readBack | launch =>
    exact ⟨follows.device.uncounted rfl rfl rfl, follows.buffers.record, follows.buffers.image⟩

/-- One call preserves what follows from the history. -/
theorem Follows.took (follows : Follows config past s) {c : DeviceCall R}
    {answer : Except Failure (Reply R)} (took : s.Took c answer s') :
    Follows config ((c, answer) :: past) s' := by
  have hdevice := follows.device
  have hbuffers := follows.buffers
  cases took with
  | allocated i capacity =>
    exact ⟨hdevice.uncounted rfl rfl rfl, hbuffers.allocated i capacity .done⟩
  | tooLarge i capacity => exact ⟨hdevice.uncounted rfl rfl rfl, hbuffers.record, hbuffers.image⟩
  | staged i items m room usable hm =>
    have hcounted : Counted config ((.stage i items, .ok .done) :: past) m.device := by
      rw [hm]
      exact hdevice.transferred rfl rfl rfl
    exact ⟨hcounted, hbuffers.staged room .done⟩
  | read i count room usable =>
    exact ⟨hdevice.uncounted rfl rfl rfl, hbuffers.record, hbuffers.image⟩
  | launched range kernel m isOpen hm =>
    have hcounted : Counted config ((.launch range kernel, .ok .done) :: past) m.device := by
      rw [hm]
      exact hdevice.accepted isOpen.budget rfl rfl rfl
    exact ⟨hcounted, hbuffers.record, hbuffers.image⟩
  | stopped range kernel m fault isOpen hm =>
    have hcounted :
        Counted config ((.launch range kernel, .error (.fault fault)) :: past) m.device := by
      rw [hm]
      exact hdevice.accepted isOpen.budget rfl rfl rfl
    exact ⟨hcounted, hbuffers.record, hbuffers.image⟩
  | refused c cause onQueue => exact follows.refused c cause

/-- Any number of calls preserve it. -/
theorem Follows.run (follows : Follows config past s) (calls : List (DeviceCall R)) :
    Follows config (run past s calls).1 (run past s calls).2 := by
  induction calls generalizing past s with
  | nil => exact follows
  | cons c calls ih => exact ih (follows.took (s.took_step c))

/-- What a session and its history promise. -/
structure Promises (config : DeviceConfig) (past : List (Entry R)) (s : Session R) : Prop where
  submissions : s.machine.device.submissions = past.countP Entry.accepted
  budget : ∀ limit, config.failAfterSubmissions = some limit →
    s.machine.device.submissions ≤ limit
  transfers : s.machine.device.transfers = past.countP Entry.transferred
  /-- A call that returns an error changes nothing. -/
  errors : ∀ c e, (s.step c).1 = .error (.backend e) → (s.step c).2 = s
  /-- After a kernel has stopped, the queue answers every call with an error. -/
  stopped : past.any Entry.stopped = true → ∀ c : DeviceCall R, c.onQueue = true →
    ∃ cause, (s.step c).1 = .error (.backend (.execution cause))
  /-- What is read back is what was staged last, or zero. -/
  reads : ∀ i count reply, (s.step (.readBack i count)).1 = .ok reply →
    reply = .records i ((List.range count).map fun n => (lastStaged past i n).getD Record.zero)
  /-- The bytes of the buffer hold the same records. -/
  decodes : ∀ i count reply, (s.step (.readBack i count)).1 = .ok reply →
    reply = .records i ((List.range count).map fun n =>
      PlainRecord.decode
        (((stagedBytes past i).drop (n * Record.size (R i))).take (Record.size (R i))))

theorem Took.unchanged {c : DeviceCall R} {answer : Except Failure (Reply R)} {e : BackendError}
    (took : s.Took c answer s') (herror : answer = .error (.backend e)) : s' = s := by
  cases took with
  | tooLarge | read | refused => rfl
  | allocated | staged | launched | stopped => exact absurd herror (by simp)

theorem Took.of_poisoned {c : DeviceCall R} {answer : Except Failure (Reply R)}
    (took : s.Took c answer s') (poisoned : s.machine.device.poisoned = true)
    (onQueue : c.onQueue = true) : ∃ cause, answer = .error (.backend (.execution cause)) := by
  cases took with
  | allocated | tooLarge => exact absurd onQueue (by simp [DeviceCall.onQueue])
  | staged i items m room usable hm => exact absurd poisoned (by simp [usable])
  | read i count room usable => exact absurd poisoned (by simp [usable])
  | launched range kernel m isOpen hm => exact absurd poisoned (by simp [isOpen.usable])
  | stopped range kernel m fault isOpen hm => exact absurd poisoned (by simp [isOpen.usable])
  | refused c cause onQueue => exact ⟨cause, rfl⟩

theorem Took.of_readBack {i : ι} {count : Nat} {reply : Reply R}
    (took : s.Took (.readBack i count) (.ok reply) s') :
    count ≤ (s.buffers i).capacity ∧
      reply = .records i ((List.range count).map (s.buffers i).record) := by
  cases took with
  | read i count room usable => exact ⟨room, rfl⟩

theorem of_step_readBack {i : ι} {count : Nat} {reply : Reply R}
    (hok : (s.step (.readBack i count)).1 = .ok reply) :
    count ≤ (s.buffers i).capacity ∧
      reply = .records i ((List.range count).map (s.buffers i).record) := by
  have htook := s.took_step (.readBack i count)
  rw [hok] at htook
  exact htook.of_readBack

theorem Follows.promises (follows : Follows config past s) : Promises config past s where
  submissions := follows.device.submissions
  budget := follows.device.budget
  transfers := follows.device.transfers
  errors c e herror := (s.took_step c).unchanged herror
  stopped hstopped c onQueue :=
    (s.took_step c).of_poisoned (follows.device.poisoned.trans hstopped) onQueue
  reads i count reply hok := by
    rw [(of_step_readBack hok).2]
    congr 1
    exact List.map_congr_left fun n _ => follows.buffers.record i n
  decodes i count reply hok := by
    have hread := of_step_readBack hok
    rw [hread.2, ← follows.buffers.image]
    congr 1
    apply List.map_congr_left
    intro n hn
    exact (StagingBuffer.decode_image ((List.mem_range.mp hn).trans_le hread.1)).symm

/-- Words in one buffer and descriptors in another. -/
abbrev Sample : Bool → Type
  | false => UInt64
  | true => Descriptor UInt64

instance : ∀ i, PlainRecord (Sample i)
  | false => inferInstanceAs (PlainRecord UInt64)
  | true => inferInstanceAs (PlainRecord (Descriptor UInt64))

end Session

end TensorConcat
