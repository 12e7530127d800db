import UserThreads.Abstract.Move
import UserThreads.Transition.Tracked

/-!
# The library invariant

Three groups of facts about the threads that exist, that is, about `handles`:
the queues agree with the records, joiners agree with their targets, and every
struct and stack has exactly one place. Most of what is said about a thread is
said about its own record, in `ThreadOk`, so that a move has to re-establish
it only for the records it writes.
-/

namespace UserThreads

open Transition

/-- The signals a point inside `thread_sigwait` waits for. -/
def Point.sigset : Point → Option (BitVec 32)
  | .sigwait set => some set
  | _ => none

/-- The points at which a thread may be blocked. -/
def Point.Blocking (k : Point) : Prop :=
  k.queue.isSome ∨ k.target.isSome ∨ k.sigset.isSome

/-- The fields of one record agree with each other. -/
structure ThreadOk (th : Thread) : Prop where
  flag : th.inReadyQueue = true ↔ th.state = .ready
  zombie : th.inZombieQueue = true → th.state = .terminated
  waiting : th.waitingFor = th.point.target
  blocking : th.state = .blocked → th.point.Blocking
  suspended : th.state = .ready → th.point ≠ .user
  dead : th.state = .terminated → th.point = .user
  unmasked : th.blockedSignals = 0
  signal : th.waitingForSignal = true ↔ th.state = .blocked ∧ th.point.sigset.isSome
  waited : ∀ set ∈ th.point.sigset, th.waitingForSignal = true →
    th.waitedSignals = set ∧ th.pendingSignals &&& set = 0
  idle : th.waitingForSignal = false → th.waitedSignals = 0

/-- The queues hold the threads whose records say so. -/
structure SchedInv (s : State) : Prop where
  handles_nodup : s.handles.Nodup
  current_mem : s.currentThread ∈ s.handles
  ready : Tracks s.readyQueue s.handles s.threads (·.state = .ready)
  zombie : Tracks s.zombieQueue s.handles s.threads (·.inZombieQueue = true)
  wait : ∀ q, Tracks (s.waitingQueue q ++ s.lost q) s.handles s.threads
    (fun th => th.state = .blocked ∧ th.point.queue = some q)
  running : ∀ t ∈ s.handles, (s.threads t).state = .running → t = s.currentThread
  threads_ok : ∀ t ∈ s.handles, ThreadOk (s.threads t)

/-- `joined_by` and the points inside `thread_join` are inverse to each other,
and a joiner stays blocked while its target lives. -/
structure JoinInv (s : State) : Prop where
  target : ∀ j ∈ s.handles, ∀ t, (s.threads j).point.target = some t →
    t ∈ s.handles ∧ (s.threads t).joinedBy = some j
  joiner : ∀ t ∈ s.handles, ∀ j, (s.threads t).joinedBy = some j →
    j ∈ s.handles ∧ (s.threads j).point.target = some t
  blocked : ∀ j ∈ s.handles, ∀ t, (s.threads j).point.target = some t →
    (s.threads t).state ≠ .terminated → (s.threads j).state = .blocked

/-- The fields that say which threads exist and in which queue each one is. -/
def State.queues (s : State) :=
  (s.handles, s.currentThread, s.readyQueue, s.zombieQueue, s.waitingQueue, s.lost)

/-- The fields that say where structs and stacks are. -/
def State.places (s : State) :=
  (s.handles, s.heap, s.threadPool, s.mappings, s.stackPool, s.deferredStacks)

/-- The structs that threads inside `thread_create` hold. -/
def State.heldStructs (s : State) : List Tid :=
  s.handles.filterMap fun t => (s.threads t).point.held

/-- The mappings that threads own. -/
def State.ownedStacks (s : State) : List Addr :=
  s.handles.filterMap fun t => (s.threads t).stackMap

/-- Every struct from `malloc` and every mapping from `mmap` is in one place. -/
structure MemInv (s : State) : Prop where
  structs : s.heap.Perm
    (s.handles.filter (· ≠ mainThread) ++ (s.threadPool ++ s.heldStructs))
  heap_nodup : s.heap.Nodup
  main_static : mainThread ∉ s.heap
  mapped : s.mappings.Perm
    (s.stackPool.map (·.map) ++ (s.deferredStacks.map (·.map) ++ s.ownedStacks))
  mappings_nodup : s.mappings.Nodup
  main_stack : mainThread ∈ s.handles → (s.threads mainThread).stackMap = none
  threadPool_le : s.threadPool.length ≤ maxPooledThreads
  stackPool_le : s.stackPool.length ≤ maxPooledStacks
  deferred_le : s.deferredStacks.length ≤ maxDeferredStacks

/-- The static struct has no head slot before the set-up, and is no zombie. -/
def MainOk (initialized : Bool) (th : Thread) : Prop :=
  (initialized = false → th.headJoiner = none) ∧ th.inZombieQueue = false

/-- The invariant that the decomposition of the operations relies on. -/
structure Inv (s : State) : Prop where
  sched : SchedInv s
  join : JoinInv s
  mem : MemInv s
  main : MainOk s.schedulerInitialized (s.threads mainThread)
  slots : s.SlotsOk

/-- A struct held inside `thread_create` is no thread, and not in the pool. -/
theorem MemInv.held_fresh {s : State} (h : MemInv s) {t n : Tid} (ht : t ∈ s.handles)
    (hn : (s.threads t).point.held = some n) :
    n ∉ s.handles ∧ n ≠ mainThread ∧ n ∉ s.threadPool := by
  have hheld : n ∈ s.heldStructs := List.mem_filterMap.mpr ⟨t, ht, hn⟩
  have hnd := h.structs.nodup_iff.mp h.heap_nodup
  obtain ⟨_, hnd₂, hdisj⟩ := List.nodup_append.mp hnd
  have hmain : n ≠ mainThread := by
    rintro rfl
    exact h.main_static (h.structs.mem_iff.mpr (by simp [hheld]))
  refine ⟨fun hmem => ?_, hmain, fun hmem => ?_⟩
  · exact hdisj n (by simp [hmem, hmain]) n (by simp [hheld]) rfl
  · exact (List.nodup_append.mp hnd₂).2.2 n hmem n hheld rfl

theorem threadOk_main : ThreadOk Thread.main where
  flag := by simp [Thread.main]
  zombie := by simp [Thread.main]
  waiting := rfl
  blocking := by simp [Thread.main]
  suspended := by simp [Thread.main]
  dead := by simp [Thread.main]
  unmasked := rfl
  signal := by simp [Thread.main]
  waited := by simp [Thread.main]
  idle := fun _ => rfl

theorem inv_initial : Inv State.initial where
  sched := by
    refine ⟨by simp [State.initial], by simp [State.initial], ?_, ?_, fun q => ?_, ?_, ?_⟩
    · exact ⟨List.nodup_nil, by simp [State.initial, Thread.main]⟩
    · exact ⟨List.nodup_nil, by simp [State.initial, Thread.main]⟩
    · exact ⟨List.nodup_nil, by simp [State.initial, Thread.main]⟩
    · intro t ht _
      simpa [State.initial] using ht
    · intro t _
      exact threadOk_main
  join := by
    constructor
    · intro j _ t ht
      simp [State.initial, Thread.main, Point.target] at ht
    · intro t _ j hj
      simp [State.initial, Thread.main] at hj
    · intro j _ t ht
      simp [State.initial, Thread.main, Point.target] at ht
  mem := by
    constructor
    all_goals simp [State.initial, State.heldStructs, State.ownedStacks, Thread.main, Point.held]
  main := ⟨fun _ => rfl, rfl⟩
  slots := by
    intro chunk hchunk
    cases hchunk

end UserThreads
