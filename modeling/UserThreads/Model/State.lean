import Mathlib.Data.List.Basic
import Mathlib.Logic.Function.Basic

/-!
# The data model of the thread library

One `State` holds the globals of `thread.c`, `scheduler.c`, `pool.c` and
`thread_gc.c`, the memory of every `struct thread`, and the memory of the
synchronisation objects. A thread is named by the address of its struct, so a
recycled struct is the same `Tid` with a new `id`.

## Implementation notes

The intrusive `TAILQ` queues are lists; a thread that is in two of them at
once has no faithful list picture, and the scheduler invariant excludes it.
The `count` of a semaphore is an `int`, and its picture here is faithful as long
as it is at most `intMax`.
`point` replaces the saved registers of `struct fast_ctx`: it names the place
inside the library where the thread resumes when it is next dispatched.
`handles`, `lost`, `heap`, `mappings` and `trace` are history variables. No
operation reads them; `heap` and `mappings` stand for what the C library and the
kernel know about the addresses they have given out.
-/

namespace UserThreads

/-- The address of a `struct thread`. -/
abbrev Tid := Nat
/-- A `void *` of the user program. -/
abbrev Value := Nat
/-- The base address of a stack mapping. -/
abbrev Addr := Nat
/-- A `thread **`: the address of a head slot. -/
abbrev SlotRef := Nat
abbrev MutexId := Nat
abbrev SemId := Nat
abbrev CondId := Nat

/-- The static struct of the initial thread. -/
def mainThread : Tid := 0

def maxPooledThreads : Nat := 50000
def headRefChunkSize : Nat := 1024
def maxDeferredStacks : Nat := 16384
def maxPooledStacks : Nat := 131072
def guardSize : Nat := 4096
def maxAllocRetries : Nat := 4096
def threadDefaultPriority : Int := 10
def threadMaxPriority : Int := 100
def threadMinPriority : Int := 0
def threadAging : Int := 2
def threadWait : Int := 1

inductive ThreadState where
  | ready
  | running
  | terminated
  | blocked
  deriving DecidableEq

inductive Errno where
  | einval
  | edeadlk
  | enomem
  | efault
  deriving DecidableEq

/-- The numeric value that `thread_join` returns for a deadlock. -/
def edeadlk : Int := 35

/-- The largest value of a C `int`. -/
def intMax : Int := 2147483647

/-- The two scheduling policies selected at compile time. -/
inductive Policy where
  | fifo
  | prio
  deriving DecidableEq

/-- The compile-time options of a non-preemptive build. -/
structure Build where
  policy : Policy
  guardPage : Bool
  overflowDetection : Bool
  deriving DecidableEq

/-- The wait queues, one in each mutex, semaphore and condition. -/
inductive QueueId where
  | mutex (m : MutexId)
  | sem (sm : SemId)
  | cond (c : CondId)
  deriving DecidableEq

/-- The calls a user program can make. A pointer argument that may be `NULL`
is an `Option`; an output pointer is the Boolean that says it is not `NULL`.
`guardPageFault` is a store below the usable stack, and `exit` ends the
process, also by a return from `main`. -/
inductive Call where
  | threadCreate (newthread func : Bool)
  | threadYield
  | threadYieldTo (target : Option Tid)
  | threadSetPriority (t : Option Tid) (prio : Int)
  | threadExit (retval : Value)
  | threadJoin (t : Option Tid) (retval : Bool)
  | threadMutexInit (m : Option MutexId)
  | threadMutexDestroy (m : Option MutexId)
  | threadMutexLock (m : Option MutexId)
  | threadMutexUnlock (m : Option MutexId)
  | threadCondInit (c : Option CondId)
  | threadCondDestroy (c : Option CondId)
  | threadCondWait (c : Option CondId) (m : Option MutexId)
  | threadCondSignal (c : Option CondId)
  | threadCondBroadcast (c : Option CondId)
  | threadSemInit (sm : Option SemId) (value : Int)
  | threadSemDestroy (sm : Option SemId)
  | threadSemWait (sm : Option SemId)
  | threadSemPost (sm : Option SemId)
  | threadSignalSend (t : Option Tid) (sig : Int)
  | threadSigwait (set : BitVec 32) (sig : Bool)
  | guardPageFault
  | exit
  deriving DecidableEq

/-- Where a thread's execution stands. `user` is user code; every other point
is inside the library, after a context switch or in the stack loop of
`thread_create`, and carries the locals that are live there. -/
inductive Point where
  | user
  | entry
  | yielded (c : Call)
  | create (newth : Tid) (retries : Nat)
  | join (target : Tid) (retval : Bool)
  | mutexLock (m : MutexId)
  | condWait (c : CondId) (m : MutexId)
  | condRelock (c : CondId) (m : MutexId) (code : Int)
  | semWait (sm : SemId)
  | sigwait (set : BitVec 32)
  deriving DecidableEq

/-- The wait queue in which a thread blocked at a point is parked. -/
def Point.queue : Point → Option QueueId
  | .mutexLock m => some (.mutex m)
  | .condRelock _ m _ => some (.mutex m)
  | .condWait c _ => some (.cond c)
  | .semWait sm => some (.sem sm)
  | _ => none

/-- The operations that make a blocked thread ready. -/
inductive Waker where
  | threadExit (dying : Tid)
  | mutexRelease (m : MutexId)
  | semPost (sm : SemId)
  | condSignal (c : CondId)
  | signalSend (sig : Int)
  deriving DecidableEq

/-- The operation that empties a wait queue from its head. -/
def QueueId.waker : QueueId → Waker
  | .mutex m => .mutexRelease m
  | .sem sm => .semPost sm
  | .cond c => .condSignal c

/-- One entry of the history. Threads appear by their `id`, which is never
reused, not by the address of their struct. -/
inductive Event where
  | created (id : Nat) (t : Tid)
  | stateSet (id : Nat) (old new : ThreadState) (point : Point) (waker : Option Waker)
  | exited (id : Nat) (retval : Value)
  | joined (target : Nat) (code : Int) (retval : Option Value)
  | parked (q : QueueId) (id : Nat)
  | woken (q : QueueId) (id : Nat)
  | mutexSet (m : MutexId) (locked : Int)
  | mutexTaken (m : MutexId) (id : Nat)
  | mutexReleased (m : MutexId) (id : Nat)
  | semSet (sm : SemId) (value : Int)
  | semTaken (sm : SemId) (id : Nat)
  | semPosted (sm : SemId) (id : Nat)
  | condSet (c : CondId)
  | signalSent (id : Nat) (sig : Int)
  | signalConsumed (id : Nat) (set : BitVec 32) (sig : Int)
  | returned (id : Nat) (c : Call) (code : Int)
  deriving DecidableEq

structure StackEntry where
  map : Addr
  stack : Addr
  valgrindId : Nat
  deriving DecidableEq

/-- The fields of `struct thread` that the library reads. -/
structure Thread where
  point : Point
  retval : Value
  stackMap : Option Addr
  stackBase : Addr
  joinedBy : Option Tid
  waitingFor : Option Tid
  headJoiner : Option SlotRef
  id : Nat
  state : ThreadState
  valgrindStackId : Nat
  priority : Int
  inReadyQueue : Bool
  inZombieQueue : Bool
  stackOverflow : Bool
  pendingSignals : BitVec 32
  blockedSignals : BitVec 32
  waitedSignals : BitVec 32
  waitingForSignal : Bool
  deriving DecidableEq

/-- The static initialiser of `main_thread`; the other fields are zero. -/
def Thread.main : Thread where
  point := .user
  retval := 0
  stackMap := none
  stackBase := 0
  joinedBy := none
  waitingFor := none
  headJoiner := none
  id := 0
  state := .running
  valgrindStackId := 0
  priority := threadDefaultPriority
  inReadyQueue := false
  inZombieQueue := false
  stackOverflow := false
  pendingSignals := 0
  blockedSignals := 0
  waitedSignals := 0
  waitingForSignal := false

structure State where
  threads : Tid → Thread
  currentThread : Tid
  nextThreadId : Nat
  schedulerInitialized : Bool
  readyQueue : List Tid
  zombieQueue : List Tid
  /-- `thread_pool[0..thread_pool_size)`, the next struct to pop first. -/
  threadPool : List Tid
  /-- `stack_pool[0..stack_pool_size)`, the next stack to pop first. -/
  stackPool : List StackEntry
  deferredStacks : List StackEntry
  headRefs : SlotRef → Tid
  headRefChunksCount : Nat
  headRefChunksCap : Nat
  headRefActiveChunk : Option Nat
  headRefActiveIndex : Nat
  locked : MutexId → Int
  count : SemId → Int
  waitingQueue : QueueId → List Tid
  errno : Option Errno
  ended : Bool
  /-- The threads created, or `main_thread`, and not yet claimed by a join. -/
  handles : List Tid
  /-- The threads that stood in a wait queue when its object was initialised
  again. -/
  lost : QueueId → List Tid
  /-- The structs obtained from `malloc` and not freed. -/
  heap : List Tid
  /-- The stack mappings obtained from `mmap` and not unmapped. -/
  mappings : List Addr
  /-- What has happened so far, the latest entry first. -/
  trace : List Event

/-- The state in which `main` starts. -/
def State.initial : State where
  threads := fun _ => Thread.main
  currentThread := mainThread
  nextThreadId := 1
  schedulerInitialized := false
  readyQueue := []
  zombieQueue := []
  threadPool := []
  stackPool := []
  deferredStacks := []
  headRefs := fun _ => mainThread
  headRefChunksCount := 0
  headRefChunksCap := 0
  headRefActiveChunk := none
  headRefActiveIndex := 0
  locked := fun _ => 0
  count := fun _ => 0
  waitingQueue := fun _ => []
  errno := none
  ended := false
  handles := [mainThread]
  lost := fun _ => []
  heap := []
  mappings := []
  trace := []

namespace State

/-- Rewrite the struct at `t`. -/
def modifyThread (s : State) (t : Tid) (f : Thread → Thread) : State :=
  { s with threads := Function.update s.threads t (f (s.threads t)) }

/-- Add one entry to the history. -/
def emit (s : State) (e : Event) : State :=
  { s with trace := e :: s.trace }

def setErrno (s : State) (e : Errno) : State :=
  { s with errno := some e }

def setPoint (s : State) (t : Tid) (k : Point) : State :=
  s.modifyThread t fun th => { th with point := k }

/-- The assignment `t->state = st`, with the operation that causes it when it
is a wake-up. -/
def setState (s : State) (t : Tid) (st : ThreadState) (w : Option Waker) : State :=
  (s.modifyThread t fun th => { th with state := st }).emit
    (.stateSet (s.threads t).id (s.threads t).state st (s.threads t).point w)

def setLocked (s : State) (m : MutexId) (v : Int) : State :=
  { s with locked := Function.update s.locked m v }

def setCount (s : State) (sm : SemId) (v : Int) : State :=
  { s with count := Function.update s.count sm v }

def setQueue (s : State) (q : QueueId) (l : List Tid) : State :=
  { s with waitingQueue := Function.update s.waitingQueue q l }

/-- `TAILQ_INIT` of a wait queue, which forgets the threads in it. -/
def initQueue (s : State) (q : QueueId) : State :=
  { s with
    waitingQueue := Function.update s.waitingQueue q []
    lost := Function.update s.lost q (s.lost q ++ s.waitingQueue q) }

/-- The running thread's `id`. -/
def self (s : State) : Nat := (s.threads s.currentThread).id

end State

/-- The outcomes the environment chooses in one stretch of library code:
`malloc` of a struct, `mmap` and `mprotect` of a stack, and the two
allocations behind a head slot. -/
structure SlotEnv where
  chunk : Bool
  chunks : Bool
  deriving DecidableEq

structure StackEnv where
  map : Option Addr
  mprotect : Bool
  valgrindId : Nat
  deriving DecidableEq

structure Env where
  mainSlot : SlotEnv
  thread : Option Tid
  stack : StackEnv
  slot : SlotEnv
  deriving DecidableEq

/-- `malloc` and `mmap` never return memory that is still in use. -/
def Env.Fresh (e : Env) (s : State) : Prop :=
  (∀ a ∈ e.thread, a ≠ mainThread ∧ a ∉ s.heap) ∧ ∀ a ∈ e.stack.map, a ∉ s.mappings

instance (e : Env) (s : State) : Decidable (e.Fresh s) :=
  inferInstanceAs (Decidable ((∀ a ∈ e.thread, a ≠ mainThread ∧ a ∉ s.heap) ∧
    ∀ a ∈ e.stack.map, a ∉ s.mappings))

end UserThreads
