import UserThreads.Model.Step

/-!
# The preemptive build

The library compiled with `ENABLE_PREEMPTION`. A timer signal may arrive
wherever `SIGVTALRM` is not blocked, and its handler yields. The code of every
call is cut at the changes of the signal mask: what lies between two of them is
a piece. While the signal is blocked nothing can come between, so a piece inside
a critical section is one step, and its effect is that of the operation in the
other build.

## Implementation notes

`code` is what each thread has still to execute, the innermost call first; in
user code it is empty. Points and the history are kept as in the other build:
a return is entered in the history with the last piece of the call.
`waiting_for`, which no operation reads, is cleared with the claim of the target
in `thread_join` and not before it. Outside critical sections, `thread_create`
is cut at its calls of the recycling helpers, and the set-up and the destruction
of a mutex or a semaphore are cut at their statements.
-/

namespace UserThreads

/-- A piece of library code between two changes of the signal mask. A point is
where the thread is saved when the piece switches. -/
inductive Piece where
  | start
  | yield (k : Point)
  | requeue (next : Tid)
  | yieldTo (target : Tid) (k : Point)
  | setPriority (t : Tid) (prio : Int) (k : Point)
  | createInit (newthread func : Bool)
  | createAlloc
  | createReclaim (newth : Tid)
  | createStack (newth : Tid) (retries : Nat)
  | createRetry (newth : Tid) (retries : Nat)
  | createFill (newth : Tid) (entry : StackEntry)
  | createSlot (newth : Tid) (entry : StackEntry)
  | createPublish (newth : Tid)
  | exit (retval : Value)
  | fault
  | joinCheck (t : Option Tid) (retval : Bool)
  | join (target : Tid) (retval : Bool)
  | joinClaim (target : Tid) (retval : Bool)
  | condWait (c : CondId) (m : MutexId)
  | condRelock (c : CondId) (m : MutexId) (code : Int)
  | sigwait (set : BitVec 32)
  | assign (q : QueueId) (v : Int)
  | tailqInit (q : QueueId)
  | tailqEmpty (c : Call) (q : QueueId) (v : Int)
  | critical (c : Call)
  | direct (c : Call)
  deriving DecidableEq

/-- `preem_block`, `preem_unblock`, the return from the handler to the
interrupted point, a piece, a return that is not part of the piece before it,
and the end of a thread. -/
inductive Stmt where
  | block
  | unblock
  | sigreturn (k : Point)
  | piece (p : Piece)
  | ret (c : Call) (code : Int)
  | dead
  deriving DecidableEq

/-- The statements of `thread_mutex_init` and `thread_sem_init`. -/
def Call.setUp (c : Call) (q : QueueId) (v : Int) : List Stmt :=
  [.piece (.assign q v), .piece (.tailqInit q), .ret c 0]

/-- The code of a call. A call with a bad argument returns before it touches
the mask, and so do the calls that have no critical section. -/
def Call.code (c : Call) : List Stmt :=
  match c with
  | .threadCreate newthread func => [.piece (.createInit newthread func)]
  | .threadYield => [.block, .piece (.yield (.yielded c)), .ret c 0]
  | .threadYieldTo (some t) => [.block, .piece (.yieldTo t (.yielded c)), .ret c 0]
  | .threadSetPriority (some t) prio =>
      [.block, .piece (.setPriority t prio (.yielded c)), .ret c 0]
  | .threadExit retval => [.block, .piece (.exit retval)]
  | .threadJoin t retval => [.piece (.joinCheck t retval)]
  | .threadMutexLock (some _) | .threadMutexUnlock (some _) | .threadCondSignal (some _)
  | .threadCondBroadcast (some _) | .threadSemWait (some _) | .threadSemPost (some _) =>
      [.block, .piece (.critical c)]
  | .threadSignalSend (some _) sig =>
      if sig < threadSignalMin ∨ sig > threadSignalMax then [.piece (.direct c)]
      else [.block, .piece (.critical c)]
  | .threadCondWait (some cond) (some m) => [.block, .piece (.condWait cond m)]
  | .threadSigwait set sig =>
      if set = 0 ∨ sig = false then [.piece (.direct c)] else [.block, .piece (.sigwait set)]
  | .threadMutexInit (some m) => c.setUp (.mutex m) 0
  | .threadMutexDestroy (some m) => [.piece (.tailqEmpty c (.mutex m) (-1))]
  | .threadSemInit (some sm) value =>
      if value < 0 then [.piece (.direct c)] else c.setUp (.sem sm) value
  | .threadSemDestroy (some sm) => [.piece (.tailqEmpty c (.sem sm) 0)]
  | .guardPageFault => [.block, .piece .fault]
  | _ => [.piece (.direct c)]

/-- `thread_entry`, which a new thread starts with. -/
def threadEntry : List Stmt := [.unblock, .piece .start]

/-- Where a thread stands while the handler has yielded on its behalf. -/
def Point.suspended : Point → Point
  | .user => .yielded .threadYield
  | k => k

/-- `preemption_handler`, interrupting a thread at `k`. -/
def preemptionHandler (k : Point) : List Stmt :=
  [.block, .piece (.yield k.suspended), .sigreturn k]

/-- The branch of `thread_yield` that keeps the caller running: the thread that
was picked, and the state without it in the queue. -/
def keptRunning (p : Policy) (s : State) : Option (Tid × State) :=
  match p with
  | .fifo => none
  | .prio =>
      match threadSchedulerPickNext (ageThreads s s.currentThread) with
      | none => none
      | some (next, s') =>
          if next ≠ s.currentThread ∧
              (s'.threads next).priority ≤ (s'.threads s.currentThread).priority then
            some (next, s')
          else none

/-- `thread_set_priority` up to its call of `thread_yield_to`, with the answer
whether it makes that call. -/
def priorityWritten (p : Policy) (s : State) (t : Tid) (prio : Int) : State × Bool :=
  let s := s.modifyThread t fun x => { x with priority := clampPriority prio }
  match p with
  | .fifo => (s, false)
  | .prio =>
      if (s.threads t).state = .ready then
        let s := threadSchedulerEnqueue p (readyRemove s t) t
        (s, decide (t ≠ s.currentThread ∧
          (s.threads t).priority > (s.threads s.currentThread).priority))
      else (s, false)

/-- `thread_join` from its first `preem_block` to its context switch. -/
def joinChecked (s : State) (target : Tid) (retval : Bool) : State × Option Int :=
  if (s.threads target).state = .terminated then joinTerminated s target retval
  else
    match (s.threads target).headJoiner, (s.threads s.currentThread).headJoiner with
    | some slot, some own =>
        if s.headRefs slot = target ∧ own = slot then (s.setErrno .edeadlk, some edeadlk)
        else joinBlock s target slot retval
    | _, _ => (s.setErrno .einval, some (-1))

/-- The assignment that sets up a mutex or a semaphore or marks it as destroyed.
A condition has a queue and nothing else. -/
def State.assigned (s : State) : QueueId → Int → State
  | .mutex m, v => (s.setLocked m v).emit (.mutexSet m v)
  | .sem sm, v => (s.setCount sm v).emit (.semSet sm v)
  | .cond _, _ => s

/-- The end of a critical section: the call returns, or it has switched and
goes on with `suspended` later. -/
def returning (c : Call) (suspended : List Stmt) (r : State × Option Int) :
    State × List Stmt :=
  match r with
  | (s, some code) => (finish c (s, some code), [.unblock])
  | (s, none) => (s, suspended)

/-- A return outside critical sections. -/
def refused (c : Call) (s : State) (code : Int) : State × List Stmt :=
  (finish c (s, some code), [])

/-- What a piece does, and with what its thread goes on. -/
def Piece.perform (b : Build) (s : State) (e : Env) : Piece → State × List Stmt
  | .start => (s.setPoint s.currentThread .user, [])
  | .yield k =>
      match keptRunning b.policy s with
      | some (next, s) => (s, [.unblock, .piece (.requeue next)])
      | none => ((threadYield b.policy s k).1, [.unblock])
  | .requeue next => (threadSchedulerEnqueue b.policy s next, [])
  | .yieldTo target k =>
      if (s.threads target).state ≠ .ready then (s, [.unblock, .block, .piece (.yield k)])
      else ((threadYieldTo b.policy s (some target) k).1, [.unblock])
  | .setPriority t prio k =>
      match priorityWritten b.policy s t prio with
      | (s, true) => (s, [.unblock, .block, .piece (.yieldTo t k)])
      | (s, false) => (s, [.unblock])
  | .createInit newthread func =>
      let c := Call.threadCreate newthread func
      if newthread = false ∨ func = false then refused c (s.setErrno .einval) (-1)
      else
        match schedulerInit s e.mainSlot with
        | (s, false) => refused c (s.setErrno .enomem) (-1)
        | (s, true) => (s, [.piece .createAlloc])
  | .createAlloc =>
      match threadAlloc s e.thread with
      | (s, none) => refused (.threadCreate true true) (s.setErrno .enomem) (-1)
      | (s, some newth) =>
          (s.setPoint s.currentThread (.create newth 0), [.piece (.createReclaim newth)])
  | .createReclaim newth =>
      (if s.stackPool = [] ∧ s.deferredStacks ≠ [] then reclaimDeferredStacksAll s else s,
        [.piece (.createStack newth 0)])
  | .createStack newth retries =>
      match stackPoolAlloc b s e.stack with
      | (s, some entry) => (s, [.piece (.createFill newth entry)])
      | (s, none) => (s, [.piece (.createRetry newth retries)])
  | .createRetry newth retries =>
      let s := reclaimDeferredStacksAll s
      if s.readyQueue = [] ∨ maxAllocRetries ≤ retries then
        refused (.threadCreate true true) ((threadObjRelease s newth).setErrno .enomem) (-1)
      else
        let k := Point.create newth (retries + 1)
        (s.setPoint s.currentThread k,
          [.block, .piece (.yield k), .piece (.createStack newth (retries + 1))])
  | .createFill newth entry =>
      (s.modifyThread newth fun th => th.fresh entry, [.piece (.createSlot newth entry)])
  | .createSlot newth entry =>
      match threadHeadRefAlloc s newth e.slot with
      | (s, none) =>
          let s := s.modifyThread newth fun th => { th with headJoiner := none }
          refused (.threadCreate true true)
            ((stackPoolPush (threadObjRelease s newth) entry).setErrno .enomem) (-1)
      | (s, some ref) =>
          (s.modifyThread newth fun th => { th with headJoiner := some ref },
            [.block, .piece (.createPublish newth)])
  | .createPublish newth =>
      let id := s.nextThreadId
      let s := { s with nextThreadId := id + 1 }.modifyThread newth fun th =>
        { th with point := .entry, id := id }
      let s := { s with handles := newth :: s.handles }.emit (.created id newth)
      returning (.threadCreate true true) [] (threadSchedulerEnqueue b.policy s newth, some 0)
  | .exit retval => (threadExit b.policy s retval, [.dead])
  | .fault => ((enter b s .guardPageFault e).1, [.dead])
  | .joinCheck t retval =>
      let c := Call.threadJoin t retval
      match t with
      | none => refused c (s.setErrno .einval) (-1)
      | some target =>
          if (s.threads target).joinedBy ≠ none then refused c (s.setErrno .einval) (-1)
          else if target = s.currentThread then refused c (s.setErrno .edeadlk) edeadlk
          else (s, [.block, .piece (.join target retval)])
  | .join target retval =>
      returning (.threadJoin (some target) retval)
        [.unblock, .block, .piece (.joinClaim target retval)] (joinChecked s target retval)
  | .joinClaim target retval =>
      returning (.threadJoin (some target) retval) [] (joinResume s target retval)
  | .condWait c m =>
      if s.readyQueue = [] then
        (releaseMutex b.policy s m, [.unblock, .block, .piece (.condRelock c m (-1))])
      else
        ((threadCondWait b.policy s (some c) (some m)).1,
          [.unblock, .block, .piece (.condRelock c m 0)])
  | .condRelock c m code =>
      let call := Call.threadCondWait (some c) (some m)
      returning call [.unblock, .ret call code] (UserThreads.condRelock s c m code)
  | .sigwait set =>
      returning (.threadSigwait set true) [.piece (.sigwait set)] (sigwaitLoop s set)
  | .assign q v => (s.assigned q v, [])
  | .tailqInit q => (s.initQueue q, [])
  | .tailqEmpty c q v =>
      (s, if s.waitingQueue q ≠ [] then [.ret c (-1)] else [.piece (.assign q v), .ret c 0])
  | .critical c => returning c [.unblock, .ret c 0] (enter b s c e)
  | .direct c => (finish c (enter b s c e), [])

/-- The thread that the piece starts. -/
def Piece.started : Piece → Option Tid
  | .createPublish newth => some newth
  | _ => none

/-- The library, whether `SIGVTALRM` is blocked, and the code that each thread
has still to execute. -/
structure Preemptive where
  lib : State
  blocked : Bool
  code : Tid → List Stmt

/-- A call from user code, the timer signal, or the next statement of the
running thread. -/
inductive Stimulus where
  | call (c : Call)
  | tick
  | go (e : Env)
  deriving DecidableEq

namespace Preemptive

def initial : Preemptive where
  lib := State.initial
  blocked := false
  code := fun t => if t = mainThread then [] else [.dead]

/-- The code of the running thread. -/
def running (x : Preemptive) : List Stmt := x.code x.lib.currentThread

/-- The running thread goes on with `l`. -/
def goOn (x : Preemptive) (l : List Stmt) : Preemptive :=
  { x with code := Function.update x.code x.lib.currentThread l }

/-- The running thread executes a piece, and goes on as it says before `rest`. -/
def runPiece (b : Build) (x : Preemptive) (p : Piece) (e : Env) (rest : List Stmt) : Preemptive :=
  let r := p.perform b x.lib e
  let code := match p.started with
    | none => x.code
    | some newth => Function.update x.code newth threadEntry
  { x with lib := r.1, code := Function.update code x.lib.currentThread (r.2 ++ rest) }

/-- The next statement of the running thread. -/
def execute (b : Build) (x : Preemptive) (e : Env) : Option Preemptive :=
  match x.running with
  | [] => none
  | .block :: rest => some { x.goOn rest with blocked := true }
  | .unblock :: rest => some { x.goOn rest with blocked := false }
  | .sigreturn k :: rest =>
      some { x.goOn rest with blocked := false, lib := x.lib.setPoint x.lib.currentThread k }
  | .ret c code :: rest => some { x.goOn rest with lib := finish c (x.lib, some code) }
  | .piece p :: rest => some (x.runPiece b p e rest)
  | .dead :: _ => none

/-- One step of the process. The timer runs once the scheduler is initialised;
the kernel blocks the signal while its handler runs. -/
def step (b : Build) (x : Preemptive) (i : Stimulus) : Option Preemptive :=
  if x.lib.ended then none
  else
    match i with
    | .call c => if x.running = [] then some (x.goOn c.code) else none
    | .tick =>
        if x.blocked = false ∧ x.lib.schedulerInitialized = true then
          some { x.goOn (preemptionHandler (x.lib.threads x.lib.currentThread).point ++ x.running)
            with blocked := true }
        else none
    | .go e => if e.Fresh x.lib then x.execute b e else none

end Preemptive

end UserThreads
