import UserThreads.Model.Scheduler

/-!
# Mutexes, conditions and semaphores

`thread_mutex.c`, `thread_cond.c` and `thread_sem.c`. The three wait queues
work alike: a thread parks at the tail and is woken from the head, and what it
waited for is transferred with the wake-up.
-/

namespace UserThreads

/-- The running thread blocks at the tail of a wait queue. -/
def park (s : State) (q : QueueId) : State :=
  let prev := s.currentThread
  let s := (s.setState prev .blocked none).setQueue q (s.waitingQueue q ++ [prev])
  s.emit (.parked q (s.threads prev).id)

/-- The head of a wait queue, if there is one, becomes ready. -/
def wakeFirst (p : Policy) (s : State) (q : QueueId) : State :=
  match s.waitingQueue q with
  | [] => s
  | revived :: rest =>
      let s := (s.setQueue q rest).emit (.woken q (s.threads revived).id)
      threadSchedulerEnqueue p (s.setState revived .ready (some q.waker)) revived

/-- `thread_mutex_init`. -/
def threadMutexInit (s : State) (m : Option MutexId) : State × Option Int :=
  match m with
  | none => (s, some (-1))
  | some m => (((s.setLocked m 0).initQueue (.mutex m)).emit (.mutexSet m 0), some 0)

/-- `thread_mutex_destroy`. -/
def threadMutexDestroy (s : State) (m : Option MutexId) : State × Option Int :=
  match m with
  | none => (s, some (-1))
  | some m =>
      if s.waitingQueue (.mutex m) ≠ [] then (s, some (-1))
      else ((s.setLocked m (-1)).emit (.mutexSet m (-1)), some 0)

/-- The body of `thread_mutex_lock`; a caller that parks is saved at `k`. -/
def mutexLock (s : State) (m : MutexId) (k : Point) : State × Option Int :=
  if s.locked m = -1 then (s.setErrno .einval, some (-1))
  else if s.locked m = 0 then ((s.setLocked m 1).emit (.mutexTaken m s.self), some 0)
  else
    match threadSchedulerPickNext s with
    | none => (s, some (-1))
    | some (next, s) => (swapThread (park s (.mutex m)) s.currentThread next k, none)

/-- `thread_mutex_lock`. -/
def threadMutexLock (s : State) (m : Option MutexId) : State × Option Int :=
  match m with
  | none => (s, some (-1))
  | some m => mutexLock s m (.mutexLock m)

/-- The release that `thread_mutex_unlock` and `thread_cond_wait` both write
out: the first waiter becomes the owner, or the mutex becomes free. -/
def releaseMutex (p : Policy) (s : State) (m : MutexId) : State :=
  let s := s.emit (.mutexReleased m s.self)
  if s.waitingQueue (.mutex m) ≠ [] then wakeFirst p s (.mutex m) else s.setLocked m 0

/-- `thread_mutex_unlock`. -/
def threadMutexUnlock (p : Policy) (s : State) (m : Option MutexId) : State × Option Int :=
  match m with
  | none => (s, some (-1))
  | some m =>
      if s.locked m = -1 then (s.setErrno .einval, some (-1))
      else if s.locked m = 0 then (s, some (-1))
      else (releaseMutex p s m, some 0)

/-- `thread_cond_init`. -/
def threadCondInit (s : State) (c : Option CondId) : State × Option Int :=
  match c with
  | none => (s, some (-1))
  | some c => ((s.initQueue (.cond c)).emit (.condSet c), some 0)

/-- `thread_cond_destroy`. -/
def threadCondDestroy (s : State) (c : Option CondId) : State × Option Int :=
  match c with
  | none => (s, some (-1))
  | some c => if s.waitingQueue (.cond c) ≠ [] then (s, some (-1)) else (s, some 0)

/-- The call of `thread_mutex_lock` inside `thread_cond_wait`, whose result is
dropped: the wait returns `code` in any case. -/
def condRelock (s : State) (c : CondId) (m : MutexId) (code : Int) : State × Option Int :=
  match mutexLock s m (.condRelock c m code) with
  | (s, some _) => (s, some code)
  | (s, none) => (s, none)

/-- `thread_cond_wait` up to its context switch. The next thread is picked
before the mutex is released. -/
def threadCondWait (p : Policy) (s : State) (c : Option CondId) (m : Option MutexId) :
    State × Option Int :=
  match c, m with
  | some c, some m =>
      match threadSchedulerPickNext s with
      | none => condRelock (releaseMutex p s m) c m (-1)
      | some (next, s) =>
          let s := park (releaseMutex p s m) (.cond c)
          (swapThread s s.currentThread next (.condWait c m), none)
  | _, _ => (s, some (-1))

/-- `thread_cond_signal`. -/
def threadCondSignal (p : Policy) (s : State) (c : Option CondId) : State × Option Int :=
  match c with
  | none => (s, some (-1))
  | some c => (wakeFirst p s (.cond c), some 0)

/-- The loop of `thread_cond_broadcast`, over as many turns as there are
waiters. -/
def wakeAll (p : Policy) (q : QueueId) : Nat → State → State
  | 0, s => s
  | n + 1, s => if s.waitingQueue q = [] then s else wakeAll p q n (wakeFirst p s q)

/-- `thread_cond_broadcast`. -/
def threadCondBroadcast (p : Policy) (s : State) (c : Option CondId) : State × Option Int :=
  match c with
  | none => (s, some (-1))
  | some c => (wakeAll p (.cond c) (s.waitingQueue (.cond c)).length s, some 0)

/-- `thread_sem_init`. -/
def threadSemInit (s : State) (sm : Option SemId) (value : Int) : State × Option Int :=
  match sm with
  | none => (s, some (-1))
  | some sm =>
      if value < 0 then (s, some (-1))
      else (((s.setCount sm value).initQueue (.sem sm)).emit (.semSet sm value), some 0)

/-- `thread_sem_destroy`. -/
def threadSemDestroy (s : State) (sm : Option SemId) : State × Option Int :=
  match sm with
  | none => (s, some (-1))
  | some sm =>
      if s.waitingQueue (.sem sm) ≠ [] then (s, some (-1))
      else ((s.setCount sm 0).emit (.semSet sm 0), some 0)

/-- `thread_sem_wait` up to its context switch. -/
def threadSemWait (s : State) (sm : Option SemId) : State × Option Int :=
  match sm with
  | none => (s, some (-1))
  | some sm =>
      if s.count sm > 0 then
        ((s.setCount sm (s.count sm - 1)).emit (.semTaken sm s.self), some 0)
      else
        match threadSchedulerPickNext s with
        | none => (s, some (-1))
        | some (next, s) =>
            (swapThread (park s (.sem sm)) s.currentThread next (.semWait sm), none)

/-- `thread_sem_post`. -/
def threadSemPost (p : Policy) (s : State) (sm : Option SemId) : State × Option Int :=
  match sm with
  | none => (s, some (-1))
  | some sm =>
      let s := s.emit (.semPosted sm s.self)
      if s.waitingQueue (.sem sm) ≠ [] then (wakeFirst p s (.sem sm), some 0)
      else (s.setCount sm (s.count sm + 1), some 0)

end UserThreads
