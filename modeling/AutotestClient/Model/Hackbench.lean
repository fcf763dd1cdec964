import AutotestClient.Shared.Machine
import Mathlib.Data.Fintype.Prod
import Mathlib.Logic.Function.Basic

/-! # The groups of `hackbench`

`main`, the senders and the receivers of `hackbench/src/hackbench.c` as processes or threads
over sockets or pipes. One step is one system call. The bytes of a message are never looked
at, so a channel is the number of bytes in it. -/

namespace AutotestClient.Hackbench

/-- `DATASIZE`. -/
def dataSize : ℕ := 100

/-- The command line, and what one socket or pipe can hold. -/
structure Config where
  numGroups : ℕ
  numFds : ℕ
  loops : ℕ
  processMode : Bool
  capacity : ℕ
  deriving DecidableEq

inductive Role where
  | receiver
  | sender
  deriving DecidableEq

instance : Fintype Role := ⟨{.receiver, .sender}, fun r => by cases r <;> decide⟩

/-- The receiver or the sender of a group with the given index. -/
abbrev Worker (c : Config) := Role × Fin c.numGroups × Fin c.numFds

/-- What became of a worker; `polling` is between the two halves of `ready`. -/
inductive Phase where
  | unborn
  | ready
  | polling
  | running
  | exited
  | killed
  | reaped
  deriving DecidableEq

/-- Where `main` is: creating workers, reading their ready bytes, reaping them, or
finished with an exit status. -/
inductive MainPc where
  | creating (created : ℕ)
  | reading (i : ℕ)
  | reaping (i : ℕ)
  | exited (status : ℕ)
  deriving DecidableEq

/-- The variables of a sender: message `i`, to the receiver `j`, with `done` bytes written. -/
structure Pump (c : Config) where
  i : ℕ
  j : Fin c.numFds
  done : ℕ
  deriving DecidableEq

/-- The variables of a receiver: packet `i`, with `done` bytes read. -/
structure Receipt where
  i : ℕ
  done : ℕ
  deriving DecidableEq

structure State (c : Config) where
  main : MainPc
  phase : Worker c → Phase
  pump : Fin c.numGroups → Fin c.numFds → Pump c
  receipt : Fin c.numGroups → Fin c.numFds → Receipt
  channel : Fin c.numGroups → Fin c.numFds → ℕ
  readyBytes : ℕ
  wakeBytes : ℕ

inductive Label (c : Config) where
  | create (w : Worker c)
  | forkFails
  | created
  | ready (w : Worker c)
  | readReady
  | wake
  | poll (w : Worker c)
  | write (g : Fin c.numGroups) (i : Fin c.numFds) (ret : ℕ)
  | sigpipe (g : Fin c.numGroups) (i : Fin c.numFds)
  | read (g : Fin c.numGroups) (j : Fin c.numFds) (ret : ℕ)
  | readEof (g : Fin c.numGroups) (j : Fin c.numFds)
  | exit (w : Worker c)
  | reap (w : Worker c)
  | report
  deriving DecidableEq

variable {c : Config}

/-- `total_children` after all groups. -/
def Config.totalChildren (c : Config) : ℕ := c.numGroups * (c.numFds * 2)

/-- `num_fds*loops`, a product of two `unsigned int`. -/
def Config.numPackets (c : Config) : ℕ := c.numFds * c.loops % 2 ^ 32

/-- The position of a worker in `pth_tab`: in each group the receivers come first. -/
def number : Worker c → ℕ
  | (.receiver, g, i) => g * (c.numFds * 2) + i
  | (.sender, g, i) => g * (c.numFds * 2) + (c.numFds + i)

/-- `exit` closed the descriptors of such a worker. -/
def Phase.gone : Phase → Bool
  | .exited | .killed | .reaped => true
  | _ => false

/-- Past its half of `ready` that tells `main`. -/
def Phase.announced : Phase → Bool
  | .unborn | .ready => false
  | _ => true

/-- The next message of the two `for` loops. -/
def Pump.next (p : Pump c) : Pump c :=
  if h : p.j + 1 < c.numFds then ⟨p.i, ⟨p.j + 1, h⟩, 0⟩ else ⟨p.i + 1, ⟨0, p.j.pos⟩, 0⟩

/-- `done += ret`, and around `again` or on to the next message. -/
def Pump.add (p : Pump c) (ret : ℕ) : Pump c :=
  if p.done + ret < dataSize then { p with done := p.done + ret } else p.next

def Receipt.add (r : Receipt) (ret : ℕ) : Receipt :=
  if r.done + ret < dataSize then { r with done := r.done + ret } else ⟨r.i + 1, 0⟩

/-- In thread mode the workers end with `main`. -/
def State.workersRun (s : State c) : Bool :=
  c.processMode || match s.main with
    | .exited _ => false
    | _ => true

/-- Only the receiver itself keeps the read end, and threads close nothing. -/
def State.readEndClosed (s : State c) (g : Fin c.numGroups) (j : Fin c.numFds) : Bool :=
  c.processMode && (s.phase (.receiver, g, j)).gone

/-- The write end is with the senders of the group and with the receivers that were
forked after its channel was made. -/
def State.writeEndsClosed (s : State c) (g : Fin c.numGroups) (j : Fin c.numFds) : Prop :=
  c.processMode ∧ (∀ i, (s.phase (.sender, g, i)).gone) ∧
    ∀ k, j < k → (s.phase (.receiver, g, k)).gone

instance (s : State c) (g : Fin c.numGroups) (j : Fin c.numFds) :
    Decidable (s.writeEndsClosed g j) :=
  inferInstanceAs (Decidable (_ ∧ _ ∧ _))

def State.enter (s : State c) (w : Worker c) (ph : Phase) : State c :=
  { s with phase := Function.update s.phase w ph }

def State.setPump (s : State c) (g : Fin c.numGroups) (i : Fin c.numFds) (p : Pump c) : State c :=
  { s with pump := Function.update s.pump g (Function.update (s.pump g) i p) }

def State.setReceipt (s : State c) (g : Fin c.numGroups) (j : Fin c.numFds) (r : Receipt) :
    State c :=
  { s with receipt := Function.update s.receipt g (Function.update (s.receipt g) j r) }

def State.setChannel (s : State c) (g : Fin c.numGroups) (j : Fin c.numFds) (bytes : ℕ) :
    State c :=
  { s with channel := Function.update s.channel g (Function.update (s.channel g) j bytes) }

/-- A sender is at a `write` of the rest of message `p.i`. -/
def State.writes (s : State c) (g : Fin c.numGroups) (i : Fin c.numFds) : Prop :=
  s.workersRun ∧ s.phase (.sender, g, i) = .running ∧ (s.pump g i).i < c.loops

instance (s : State c) (g : Fin c.numGroups) (i : Fin c.numFds) : Decidable (s.writes g i) :=
  inferInstanceAs (Decidable (_ ∧ _ ∧ _))

/-- A receiver is at a `read` of the rest of packet `i`. -/
def State.reads (s : State c) (g : Fin c.numGroups) (j : Fin c.numFds) : Prop :=
  s.workersRun ∧ s.phase (.receiver, g, j) = .running ∧ (s.receipt g j).i < c.numPackets

instance (s : State c) (g : Fin c.numGroups) (j : Fin c.numFds) : Decidable (s.reads g j) :=
  inferInstanceAs (Decidable (_ ∧ _ ∧ _))

/-- The `for` loop of a worker is over. -/
def State.loopOver (s : State c) : Worker c → Bool
  | (.sender, g, i) => decide (c.loops ≤ (s.pump g i).i)
  | (.receiver, g, j) => decide (c.numPackets ≤ (s.receipt g j).i)

/-- How `main` ends without a worker: `barf` exits with 1, and after `pthread_create` it is
`exit(-1)`. -/
def Config.forkStatus (c : Config) : ℕ := if c.processMode then 1 else 255

/-- `wait` takes any child that has ended, `pthread_join` the thread it is given. -/
def State.reapable (s : State c) (w : Worker c) (i : ℕ) : Bool :=
  (s.phase w = .exited || s.phase w = .killed) && (c.processMode || number w = i)

/-- One system call of `main` or of a worker. -/
def step (c : Config) (s : State c) : Label c → Option (State c)
  | .create w =>
      match s.main with
      | .creating k =>
          if number w = k then some { s.enter w .ready with main := .creating (k + 1) } else none
      | _ => none
  -- `fork` or `pthread_create`
  | .forkFails =>
      match s.main with
      | .creating k =>
          if k < c.totalChildren then some { s with main := .exited c.forkStatus } else none
      | _ => none
  | .created =>
      match s.main with
      | .creating k => if c.totalChildren ≤ k then some { s with main := .reading 0 } else none
      | _ => none
  | .ready w =>
      if s.workersRun ∧ s.phase w = .ready ∧ s.readyBytes < c.capacity then
        some { s.enter w .polling with readyBytes := s.readyBytes + 1 }
      else none
  | .readReady =>
      match s.main, s.readyBytes with
      | .reading i, n + 1 =>
          if i < c.totalChildren then
            some { s with main := .reading (i + 1), readyBytes := n }
          else none
      | _, _ => none
  | .wake =>
      match s.main with
      | .reading i =>
          if c.totalChildren ≤ i then
            some { s with main := .reaping 0, wakeBytes := s.wakeBytes + 1 }
          else none
      | _ => none
  -- nobody reads the wake byte, so `poll` finds it for every worker
  | .poll w =>
      if s.workersRun ∧ s.phase w = .polling ∧ 0 < s.wakeBytes then some (s.enter w .running)
      else none
  | .write g i ret =>
      let p := s.pump g i
      if s.writes g i ∧ ¬ s.readEndClosed g p.j ∧ 0 < ret ∧ p.done + ret ≤ dataSize ∧
          s.channel g p.j + ret ≤ c.capacity then
        some ((s.setChannel g p.j (s.channel g p.j + ret)).setPump g i (p.add ret))
      else none
  | .sigpipe g i =>
      if s.writes g i ∧ s.readEndClosed g (s.pump g i).j then
        some (s.enter (.sender, g, i) .killed)
      else none
  | .read g j ret =>
      let r := s.receipt g j
      if s.reads g j ∧ 0 < ret ∧ r.done + ret ≤ dataSize ∧ ret ≤ s.channel g j then
        some ((s.setChannel g j (s.channel g j - ret)).setReceipt g j (r.add ret))
      else none
  -- `read` returned 0: around `again` for ever
  | .readEof g j =>
      if s.reads g j ∧ s.channel g j = 0 ∧ s.writeEndsClosed g j then
        some (s.setReceipt g j ((s.receipt g j).add 0))
      else none
  | .exit w =>
      if s.workersRun ∧ s.phase w = .running ∧ s.loopOver w then some (s.enter w .exited)
      else none
  | .reap w =>
      match s.main with
      | .reaping i =>
          if i < c.totalChildren ∧ s.reapable w i then
            -- `!WIFEXITED(status)`
            if s.phase w = .killed then some { s.enter w .reaped with main := .exited 1 }
            else some { s.enter w .reaped with main := .reaping (i + 1) }
          else none
      | _ => none
  | .report =>
      match s.main with
      | .reaping i => if c.totalChildren ≤ i then some { s with main := .exited 0 } else none
      | _ => none

def machine (c : Config) : Shared.Machine (State c) (Label c) where
  init :=
    { main := .creating 0
      phase := fun _ => .unborn
      pump := fun _ i => ⟨0, ⟨0, i.pos⟩, 0⟩
      receipt := fun _ _ => ⟨0, 0⟩
      channel := fun _ _ => 0
      readyBytes := 0
      wakeBytes := 0 }
  step := step c

/-! ## What was transferred -/

/-- The bytes a sender has written to the receiver `j`. -/
def Pump.written (p : Pump c) (j : Fin c.numFds) : ℕ :=
  dataSize * (p.i + if j < p.j then 1 else 0) + if j = p.j then p.done else 0

/-- The bytes a receiver has read. -/
def Receipt.received (r : Receipt) : ℕ := dataSize * r.i + r.done

end AutotestClient.Hackbench
