import UserThreads.Abstract.Move

/-!
# What the callers promise

The guards under which runs are considered. All of them look at the state
before the step and at the arguments of the call only.
-/

namespace UserThreads

/-- The head slots let the running thread block on `t`: both have one, and the
chain test of `thread_join` does not fire. -/
def slotsAllow (s : State) (t : Tid) : Bool :=
  match (s.threads t).headJoiner, s.running.headJoiner with
  | some slot, some own => !(decide (s.headRefs slot = t) && decide (own = slot))
  | _, _ => false

/-- `thread_join` on `t` gets past all its checks. -/
def JoinBlocks (s : State) (t : Tid) : Prop :=
  (s.threads t).joinedBy = none ∧ t ≠ s.currentThread ∧ (s.threads t).state ≠ .terminated ∧
    slotsAllow s t = true

instance (s : State) (t : Tid) : Decidable (JoinBlocks s t) :=
  inferInstanceAs (Decidable (_ ∧ _ ∧ _ ∧ _))

/-- The thread that the input asks to join. -/
def Input.joinTarget : Input → Option Tid
  | .call (.threadJoin t _) _ => t
  | _ => none

/-- The input is a join that finds no other thread ready, after it has written
`joined_by`. -/
def EmptyExit (s : State) (i : Input) : Prop :=
  ∃ t ∈ i.joinTarget, JoinBlocks s t ∧ s.readyQueue = []

instance (s : State) (i : Input) : Decidable (EmptyExit s i) :=
  inferInstanceAs (Decidable (∃ t ∈ i.joinTarget, JoinBlocks s t ∧ s.readyQueue = []))

/-- The thread argument of a call. -/
def Input.handle : Input → Option Tid
  | .call (.threadYieldTo t) _ => t
  | .call (.threadSetPriority t _) _ => t
  | .call (.threadJoin t _) _ => t
  | .call (.threadSignalSend t _) _ => t
  | _ => none

/-- A thread argument is the handle of a thread that has not been joined. -/
def ValidHandle (s : State) (i : Input) : Prop := ∀ t ∈ i.handle, t ∈ s.handles

instance (s : State) (i : Input) : Decidable (ValidHandle s i) :=
  inferInstanceAs (Decidable (∀ t ∈ i.handle, t ∈ s.handles))

/-- The wait queue that the input initialises. -/
def Input.initialises : Input → Option QueueId
  | .call (.threadMutexInit (some m)) _ => some (.mutex m)
  | .call (.threadCondInit (some c)) _ => some (.cond c)
  | .call (.threadSemInit (some sm) v) _ => if v < 0 then none else some (.sem sm)
  | _ => none

/-- No object is initialised while threads wait on it. -/
def NoReinit (s : State) (i : Input) : Prop := ∀ q ∈ i.initialises, s.waitingQueue q = []

instance (s : State) (i : Input) : Decidable (NoReinit s i) :=
  inferInstanceAs (Decidable (∀ q ∈ i.initialises, s.waitingQueue q = []))

/-- The object that the input asks to destroy. Destroying a condition does
nothing to it. -/
def Input.destroys : Input → Option QueueId
  | .call (.threadMutexDestroy (some m)) _ => some (.mutex m)
  | .call (.threadSemDestroy (some sm)) _ => some (.sem sm)
  | _ => none

/-- The step leaves the object set up as it is: it does not initialise it, and
a request to destroy it is refused. -/
def Keeps (q : QueueId) (s : State) (i : Input) : Prop :=
  i.initialises ≠ some q ∧ (i.destroys = some q → s.waitingQueue q ≠ [])

instance (q : QueueId) (s : State) (i : Input) : Decidable (Keeps q s i) :=
  inferInstanceAs (Decidable (_ ∧ (_ → _)))

/-- The mutex that the input releases: by an unlock, or by a wait. -/
def Input.releases : Input → Option MutexId
  | .call (.threadMutexUnlock m) _ => m
  | .call (.threadCondWait (some _) m) _ => m
  | _ => none

/-- The condition on which the input waits, and the mutex it brings. -/
def Input.waits : Input → Option (CondId × MutexId)
  | .call (.threadCondWait (some c) (some m)) _ => some (c, m)
  | _ => none

/-- The condition that the input broadcasts. -/
def Input.broadcasts : Input → Option CondId
  | .call (.threadCondBroadcast c) _ => c
  | _ => none

/-- The steps of a regular run: valid handles, and no join that gives up after
it has registered itself. -/
def Regular (s : State) (i : Input) : Prop := ValidHandle s i ∧ ¬ EmptyExit s i

instance (s : State) (i : Input) : Decidable (Regular s i) :=
  inferInstanceAs (Decidable (ValidHandle s i ∧ ¬ EmptyExit s i))

/-! Scripted inputs, for runs that are executed. -/

/-- The environment that grants slots and has nothing else to grant. -/
def Env.plain : Env where
  mainSlot := { chunk := true, chunks := true }
  thread := none
  stack := { map := none, mprotect := true, valgrindId := 0 }
  slot := { chunk := true, chunks := true }

/-- A call that needs no memory. -/
def Input.plain (c : Call) : Input := .call c .plain

/-- A resumption that needs no memory. -/
def Input.go : Input := .resume .plain

/-- A creation for which `malloc` returns `n` and `mmap` a mapping of its own. -/
def Input.create (n : Tid) : Input :=
  .call (.threadCreate true true)
    { Env.plain with
      thread := some n
      stack := { map := some (n * 65536), mprotect := true, valgrindId := n } }

/-- The build without guard pages, under the FIFO policy. -/
def Build.fifo : Build := { policy := .fifo, guardPage := false, overflowDetection := false }

end UserThreads
