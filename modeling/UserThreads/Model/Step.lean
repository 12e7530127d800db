import UserThreads.Model.Thread
import UserThreads.Model.Sync
import UserThreads.Model.Signal

/-!
# One stretch of execution

Without preemption the library runs from a call, or from a resumption, to the
next return or context switch without interference. `step` executes one such
stretch on behalf of the running thread.
-/

namespace UserThreads

/-- A call of the running thread, or the continuation of the library call in
which it was dispatched, with the environment's outcomes. -/
inductive Input where
  | call (c : Call) (e : Env)
  | resume (e : Env)
  deriving DecidableEq

/-- The return of `code` from the call `c` to user code, when there is one. -/
def finish (c : Call) (r : State × Option Int) : State :=
  match r with
  | (s, none) => s
  | (s, some code) => (s.emit (.returned s.self c code)).setPoint s.currentThread .user

/-- The library code of each call, up to its return or first switch. -/
def enter (b : Build) (s : State) (c : Call) (e : Env) : State × Option Int :=
  match c with
  | .threadCreate newthread func => threadCreate b s newthread func e
  | .threadYield => threadYield b.policy s (.yielded c)
  | .threadYieldTo target => threadYieldTo b.policy s target (.yielded c)
  | .threadSetPriority t prio => threadSetPriority b.policy s t prio (.yielded c)
  | .threadExit retval => (threadExit b.policy s retval, none)
  | .threadJoin t retval => threadJoin s t retval
  | .threadMutexInit m => threadMutexInit s m
  | .threadMutexDestroy m => threadMutexDestroy s m
  | .threadMutexLock m => threadMutexLock s m
  | .threadMutexUnlock m => threadMutexUnlock b.policy s m
  | .threadCondInit c => threadCondInit s c
  | .threadCondDestroy c => threadCondDestroy s c
  | .threadCondWait c m => threadCondWait b.policy s c m
  | .threadCondSignal c => threadCondSignal b.policy s c
  | .threadCondBroadcast c => threadCondBroadcast b.policy s c
  | .threadSemInit sm value => threadSemInit s sm value
  | .threadSemDestroy sm => threadSemDestroy s sm
  | .threadSemWait sm => threadSemWait s sm
  | .threadSemPost sm => threadSemPost b.policy s sm
  | .threadSignalSend t sig => threadSignalSend b.policy s t sig
  | .threadSigwait set sig => threadSigwait s set sig
  | .guardPageFault =>
      if b.overflowDetection then (sigsegvHandler b.policy s, none)
      else ({ s with ended := true }, none)
  | .exit => ({ s with ended := true }, none)

/-- The library code after a switch, at the running thread's point. A fresh
thread enters its start function. -/
def continueAt (b : Build) (s : State) (e : Env) : Point → Option State
  | .user => none
  | .entry => some (s.setPoint s.currentThread .user)
  | .yielded c => some (finish c (s, some 0))
  | .create newth retries =>
      some (finish (.threadCreate true true) (createLoop b s newth retries e))
  | .join target retval =>
      some (finish (.threadJoin (some target) retval) (joinResume s target retval))
  | .mutexLock m => some (finish (.threadMutexLock (some m)) (s, some 0))
  | .condWait c m => some (finish (.threadCondWait (some c) (some m)) (condRelock s c m 0))
  | .condRelock c m code => some (finish (.threadCondWait (some c) (some m)) (s, some code))
  | .semWait sm => some (finish (.threadSemWait (some sm)) (s, some 0))
  | .sigwait set => some (finish (.threadSigwait set true) (sigwaitLoop s set))

/-- One stretch of execution; `none` when the input does not fit the state. -/
def step (b : Build) (s : State) (i : Input) : Option State :=
  if s.ended then none
  else
    match i with
    | .call c e =>
        if (s.threads s.currentThread).point = .user ∧ e.Fresh s then
          some (finish c (enter b s c e))
        else none
    | .resume e =>
        if e.Fresh s then continueAt b s e (s.threads s.currentThread).point else none

end UserThreads
