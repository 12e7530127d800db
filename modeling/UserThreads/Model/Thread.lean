import UserThreads.Model.Scheduler
import UserThreads.Model.Pool

/-!
# Creation, termination and joining

`thread_create`, `thread_exit` and `thread_join` of `thread.c`, and the
guard-page branch of the fault handler in `preemption.c`.
-/

namespace UserThreads

/-- The one-time set-up at the top of `thread_create`; it fails when the main
thread gets no head slot. -/
def schedulerInit (s : State) (e : SlotEnv) : State × Bool :=
  if s.schedulerInitialized then (s, true)
  else
    match threadHeadRefAlloc s mainThread e with
    | (s, none) => (s.modifyThread mainThread fun th => { th with headJoiner := none }, false)
    | (s, some ref) =>
        ({ s.modifyThread mainThread fun th => { th with headJoiner := some ref } with
            schedulerInitialized := true }, true)

/-- The fields `thread_create` writes before it asks for a head slot. -/
def Thread.fresh (th : Thread) (entry : StackEntry) : Thread :=
  { th with
    state := .ready
    retval := 0
    stackMap := some entry.map
    stackBase := entry.stack
    valgrindStackId := entry.valgrindId
    priority := threadDefaultPriority
    inReadyQueue := false
    inZombieQueue := false
    joinedBy := none
    waitingFor := none
    stackOverflow := false
    pendingSignals := 0
    blockedSignals := 0
    waitedSignals := 0
    waitingForSignal := false }

/-- The end of `thread_create`, once it holds a struct and a stack. -/
def createThread (p : Policy) (s : State) (newth : Tid) (entry : StackEntry) (e : SlotEnv) :
    State × Option Int :=
  let s := s.modifyThread newth fun th => th.fresh entry
  match threadHeadRefAlloc s newth e with
  | (s, none) =>
      let s := s.modifyThread newth fun th => { th with headJoiner := none }
      ((stackPoolPush (threadObjRelease s newth) entry).setErrno .enomem, some (-1))
  | (s, some ref) =>
      let id := s.nextThreadId
      let s := { s with nextThreadId := id + 1 }.modifyThread newth fun th =>
        { th with headJoiner := some ref, point := .entry, id := id }
      let s := { s with handles := newth :: s.handles }.emit (.created id newth)
      (threadSchedulerEnqueue p s newth, some 0)

/-- One turn of the stack loop of `thread_create`. When the turn ends in a
yield, the caller is left at the point of the next turn. -/
def createLoop (b : Build) (s : State) (newth : Tid) (retries : Nat) (e : Env) :
    State × Option Int :=
  match stackPoolAlloc b s e.stack with
  | (s, some entry) => createThread b.policy s newth entry e.slot
  | (s, none) =>
      let s := reclaimDeferredStacksAll s
      if s.readyQueue = [] ∨ maxAllocRetries ≤ retries then
        ((threadObjRelease s newth).setErrno .enomem, some (-1))
      else
        let k := Point.create newth (retries + 1)
        ((threadYield b.policy (s.setPoint s.currentThread k) k).1, none)

/-- `thread_create`. The caller's point moves into the stack loop as soon as
it holds a struct. -/
def threadCreate (b : Build) (s : State) (newthread func : Bool) (e : Env) :
    State × Option Int :=
  if newthread = false ∨ func = false then (s.setErrno .einval, some (-1))
  else
    match schedulerInit s e.mainSlot with
    | (s, false) => (s.setErrno .enomem, some (-1))
    | (s, true) =>
        match threadAlloc s e.thread with
        | (s, none) => (s.setErrno .enomem, some (-1))
        | (s, some newth) =>
            let s := s.setPoint s.currentThread (.create newth 0)
            let s := if s.stackPool = [] ∧ s.deferredStacks ≠ [] then
                reclaimDeferredStacksAll s
              else s
            createLoop b s newth 0 e

/-- The part of `thread_exit` that hands the struct and the stack over: the
zombie queue takes the struct unless a joiner blocked on it will claim it. -/
def exitZombie (s : State) (dying : Tid) : State :=
  if dying = mainThread then s
  else
    let s := deferStackReclaim s dying
    match (s.threads dying).joinedBy with
    | none => threadZombieAdd s dying
    | some joiner =>
        if (s.threads joiner).state ≠ .blocked then threadZombieAdd s dying else s

/-- The struct and the stack of a dying thread change hands; nothing else. -/
theorem exitZombie_frame (s : State) (d : Tid) :
    ∃ map base flag deferred zombies, exitZombie s d =
      { s with
        threads := Function.update s.threads d
          { s.threads d with stackMap := map, stackBase := base, inZombieQueue := flag }
        deferredStacks := deferred
        zombieQueue := zombies } := by
  obtain ⟨map, base, deferred, hdefer⟩ := deferStackReclaim_frame s d
  have hadd : threadZombieAdd (deferStackReclaim s d) d =
      { s with
        threads := Function.update s.threads d
          { s.threads d with stackMap := map, stackBase := base, inZombieQueue := true }
        deferredStacks := deferred
        zombieQueue := s.zombieQueue ++ [d] } := by
    rw [hdefer]
    simp [threadZombieAdd, State.modifyThread]
  unfold exitZombie
  by_cases hmain : d = mainThread
  · rw [if_pos hmain]
    exact ⟨_, _, _, s.deferredStacks, s.zombieQueue, by rw [Function.update_eq_self]⟩
  · rw [if_neg hmain]
    dsimp only
    split
    next => exact ⟨_, _, _, _, _, hadd⟩
    next =>
      split
      · exact ⟨_, _, _, _, _, hadd⟩
      · exact ⟨map, base, _, deferred, _, hdefer⟩

/-- The wake-up in `thread_exit`. It does not look at the joiner's state. -/
def exitWake (p : Policy) (s : State) (dying : Tid) : State :=
  match (s.threads dying).joinedBy with
  | none => s
  | some joiner =>
      threadSchedulerEnqueue p (s.setState joiner .ready (some (.threadExit dying))) joiner

/-- `thread_exit`. With no thread left to run the process ends in the final
cleanup. -/
def threadExit (p : Policy) (s : State) (retval : Value) : State :=
  let dying := s.currentThread
  let s := (s.modifyThread dying fun th => { th with retval := retval }).emit
    (.exited s.self retval)
  let s := exitWake p (exitZombie (s.setState dying .terminated none) dying) dying
  match threadSchedulerPickNext s with
  | none => { s with ended := true }
  | some (next, s) => { s with currentThread := next }.setState next .running none

/-- What both paths of `thread_join` do with a terminated target: leave the
zombie queue, recycle the stack if the target still has it, and release the
struct. The main thread has nothing to give back. -/
def claimTarget (s : State) (target : Tid) : State :=
  let s := if target = mainThread then s
    else
      let s := threadZombieRemove s target
      let s := match (s.threads target).stackMap with
        | none => s
        | some map => stackPoolPush s
            { map := map
              stack := (s.threads target).stackBase
              valgrindId := (s.threads target).valgrindStackId }
      threadObjRelease s target
  { s with handles := s.handles.erase target }

theorem claimTarget_main (s : State) :
    claimTarget s mainThread = { s with handles := s.handles.erase mainThread } := by
  simp [claimTarget]

/-- Claiming a thread that is not in the zombie queue touches its record only
in `head_joiner`. -/
theorem claimTarget_eq {s : State} {t : Tid} (hmain : t ≠ mainThread)
    (hzombie : (s.threads t).inZombieQueue = false) :
    claimTarget s t =
      { s with
        threads := Function.update s.threads t { s.threads t with headJoiner := none }
        stackPool :=
          if (s.threads t).stackMap = none ∨ maxPooledStacks ≤ s.stackPool.length then
            s.stackPool
          else
            { map := (s.threads t).stackMap.getD 0
              stack := (s.threads t).stackBase
              valgrindId := (s.threads t).valgrindStackId } :: s.stackPool
        mappings :=
          match (s.threads t).stackMap with
          | none => s.mappings
          | some map => if maxPooledStacks ≤ s.stackPool.length then s.mappings.erase map
              else s.mappings
        threadPool := if s.threadPool.length < maxPooledThreads then t :: s.threadPool
          else s.threadPool
        heap := if s.threadPool.length < maxPooledThreads then s.heap else s.heap.erase t
        handles := s.handles.erase t } := by
  cases hmap : (s.threads t).stackMap with
  | none =>
      simp [claimTarget, hmain, threadZombieRemove, hzombie, hmap, threadObjRelease,
        threadFree_eq, State.modifyThread]
  | some map =>
      simp [claimTarget, hmain, threadZombieRemove, hzombie, hmap, threadObjRelease,
        threadFree_eq, State.modifyThread, stackPoolPush_eq]

/-- The value stored through `retval`, when the caller asked for it. -/
def storedRetval (s : State) (target : Tid) (retval : Bool) : Option Value :=
  if retval then some (s.threads target).retval else none

/-- The immediate path of `thread_join`, for a terminated target. -/
def joinTerminated (s : State) (target : Tid) (retval : Bool) : State × Option Int :=
  ((claimTarget s target).emit
    (.joined (s.threads target).id 0 (storedRetval s target retval)), some 0)

/-- `thread_join` from the assignment of `joined_by` to the switch. `slot` is
the target's head slot. When no thread is ready the caller gets its state and
`waiting_for` back, and nothing else. -/
def joinBlock (s : State) (target : Tid) (slot : SlotRef) (retval : Bool) :
    State × Option Int :=
  let prev := s.currentThread
  let targetIsHead := s.headRefs slot = target
  let s := s.modifyThread target fun th => { th with joinedBy := some prev }
  let s := s.modifyThread prev fun th => { th with headJoiner := some slot }
  let s := if targetIsHead then { s with headRefs := Function.update s.headRefs slot prev } else s
  let s := (s.setState prev .blocked none).modifyThread prev fun th =>
    { th with waitingFor := some target }
  match threadSchedulerPickNext s with
  | none =>
      let s := (s.setState prev .running none).modifyThread prev fun th =>
        { th with waitingFor := none }
      (s.setErrno .edeadlk, some edeadlk)
  | some (next, s) => (swapThread s prev next (.join target retval), none)

/-- `thread_join` up to its context switch. -/
def threadJoin (s : State) (handle : Option Tid) (retval : Bool) : State × Option Int :=
  match handle with
  | none => (s.setErrno .einval, some (-1))
  | some target =>
      if (s.threads target).joinedBy ≠ none then (s.setErrno .einval, some (-1))
      else if target = s.currentThread then (s.setErrno .edeadlk, some edeadlk)
      else if (s.threads target).state = .terminated then joinTerminated s target retval
      else
        match (s.threads target).headJoiner, (s.threads s.currentThread).headJoiner with
        | some slot, some own =>
            if s.headRefs slot = target ∧ own = slot then (s.setErrno .edeadlk, some edeadlk)
            else joinBlock s target slot retval
        | _, _ => (s.setErrno .einval, some (-1))

/-- `thread_join` after its context switch. -/
def joinResume (s : State) (target : Tid) (retval : Bool) : State × Option Int :=
  let s := (s.modifyThread s.currentThread fun th => { th with waitingFor := none }).setState
    s.currentThread .running none
  let stored := storedRetval s target retval
  let id := (s.threads target).id
  if (s.threads target).stackOverflow then
    (((claimTarget s target).setErrno .efault).emit (.joined id (-1) stored), some (-1))
  else ((claimTarget s target).emit (.joined id 0 stored), some 0)

/-- The branch of `sigsegv_handler` for a fault below the current thread's
stack. The main thread has no guard page, so its fault kills the process. -/
def sigsegvHandler (p : Policy) (s : State) : State :=
  if (s.threads s.currentThread).stackMap = none then { s with ended := true }
  else threadExit p (s.modifyThread s.currentThread fun th => { th with stackOverflow := true }) 0

end UserThreads
