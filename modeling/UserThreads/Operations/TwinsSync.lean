import UserThreads.Operations.Twins

/-!
# Waiting twins

The operations on mutexes, conditions, semaphores and signals, which read lock words,
counters, wait queues and pending sets.
-/

namespace UserThreads

open Transition

namespace Twins

variable {past past' : List Event} {s s' : State}

theorem waitingQueue (h : Twins past past' s s') : s'.waitingQueue = s.waitingQueue := by
  obtain ⟨new, e, -, rfl⟩ := h
  rfl

theorem self (h : Twins past past' s s') : s'.self = s.self := by
  obtain ⟨new, e, -, rfl⟩ := h
  rfl

theorem setQueue (h : Twins past past' s s') (q : QueueId) (l : List Tid) :
    Twins past past' (s.setQueue q l) (s'.setQueue q l) :=
  h.map (·.setQueue q l) (fun _ _ _ => rfl) fun _ => rfl

/-- The entry for the history is made of fields that agree. -/
theorem park (h : Twins past past' s s') (q : QueueId) :
    Twins past past' (UserThreads.park s q) (UserThreads.park s' q) := by
  have hqueued := (h.setState s.currentThread .blocked none).setQueue q
    (s.waitingQueue q ++ [s.currentThread])
  unfold UserThreads.park
  simp only [h.currentThread, h.waitingQueue]
  rw [hqueued.threads]
  exact hqueued.emit _

/-- The head of a wait queue is the same thread in both. -/
theorem wakeFirst (h : Twins past past' s s') (p : Policy) (q : QueueId) :
    Twins past past' (UserThreads.wakeFirst p s q) (UserThreads.wakeFirst p s' q) := by
  unfold UserThreads.wakeFirst
  rw [h.waitingQueue, h.threads]
  split
  · exact h
  · exact ((((h.setQueue q _).emit _).setState _ _ _).enqueue p _)

/-- By induction on the turns that a broadcast may take. -/
theorem wakeAll (h : Twins past past' s s') (p : Policy) (q : QueueId) (n : Nat) :
    Twins past past' (UserThreads.wakeAll p q n s) (UserThreads.wakeAll p q n s') := by
  induction n generalizing s s' with
  | zero => exact h
  | succ n ih =>
      unfold UserThreads.wakeAll
      rw [h.waitingQueue]
      split
      · exact h
      · exact ih (h.wakeFirst p q)

theorem setLocked (h : Twins past past' s s') (m : MutexId) (v : Int) :
    Twins past past' (s.setLocked m v) (s'.setLocked m v) :=
  h.map (·.setLocked m v) (fun _ _ _ => rfl) fun _ => rfl

theorem setCount (h : Twins past past' s s') (sm : SemId) (v : Int) :
    Twins past past' (s.setCount sm v) (s'.setCount sm v) :=
  h.map (·.setCount sm v) (fun _ _ _ => rfl) fun _ => rfl

theorem initQueue (h : Twins past past' s s') (q : QueueId) :
    Twins past past' (s.initQueue q) (s'.initQueue q) :=
  h.map (·.initQueue q) (fun _ _ _ => rfl) fun _ => rfl

theorem locked (h : Twins past past' s s') : s'.locked = s.locked := by
  obtain ⟨new, e, -, rfl⟩ := h
  rfl

theorem count (h : Twins past past' s s') : s'.count = s.count := by
  obtain ⟨new, e, -, rfl⟩ := h
  rfl

/-- The running thread parks in `q`, and the thread picked takes over. -/
theorem parkSwap (h : Twins past past' s s') (q : QueueId) (next : Tid) (k : Point) :
    Twins past past' (swapThread (UserThreads.park s q) s.currentThread next k)
      (swapThread (UserThreads.park s' q) s'.currentThread next k) := by
  rw [h.currentThread]
  exact (h.park q).swap _ _ _

/-- A lock reads the lock word, and whether a thread is ready. -/
theorem mutexLock (h : Twins past past' s s') (m : MutexId) (k : Point) :
    TwinResults past past' (UserThreads.mutexLock s m k) (UserThreads.mutexLock s' m k) := by
  unfold UserThreads.mutexLock
  rw [h.locked, h.self]
  split
  · exact ⟨h.setErrno _, rfl⟩
  · split
    · exact ⟨(h.setLocked m 1).emit _, rfl⟩
    · rcases h.pickNext with ⟨hnone, hnone'⟩ | ⟨next, r, r', hsome, hsome', hr⟩
      · simp only [hnone, hnone']
        exact ⟨h, rfl⟩
      · simp only [hsome, hsome']
        exact ⟨hr.parkSwap _ next k, rfl⟩

/-- A release reads the queue of the mutex. -/
theorem releaseMutex (h : Twins past past' s s') (p : Policy) (m : MutexId) :
    Twins past past' (UserThreads.releaseMutex p s m) (UserThreads.releaseMutex p s' m) := by
  have hemit := h.emit (.mutexReleased m s.self)
  unfold UserThreads.releaseMutex
  simp only [h.self, hemit.waitingQueue]
  split
  · exact hemit.wakeFirst p _
  · exact hemit.setLocked m 0

theorem mutexInit (h : Twins past past' s s') (m : Option MutexId) :
    TwinResults past past' (threadMutexInit s m) (threadMutexInit s' m) := by
  cases m with
  | none => exact ⟨h, rfl⟩
  | some m => exact ⟨((h.setLocked m 0).initQueue _).emit _, rfl⟩

theorem mutexDestroy (h : Twins past past' s s') (m : Option MutexId) :
    TwinResults past past' (threadMutexDestroy s m) (threadMutexDestroy s' m) := by
  unfold threadMutexDestroy
  cases m with
  | none => exact ⟨h, rfl⟩
  | some m =>
      dsimp only
      rw [h.waitingQueue]
      split
      · exact ⟨h, rfl⟩
      · exact ⟨(h.setLocked m (-1)).emit _, rfl⟩

theorem lock (h : Twins past past' s s') (m : Option MutexId) :
    TwinResults past past' (threadMutexLock s m) (threadMutexLock s' m) := by
  cases m with
  | none => exact ⟨h, rfl⟩
  | some m => exact h.mutexLock m _

theorem unlock (h : Twins past past' s s') (p : Policy) (m : Option MutexId) :
    TwinResults past past' (threadMutexUnlock p s m) (threadMutexUnlock p s' m) := by
  unfold threadMutexUnlock
  cases m with
  | none => exact ⟨h, rfl⟩
  | some m =>
      dsimp only
      rw [h.locked]
      split
      · exact ⟨h.setErrno _, rfl⟩
      · split
        · exact ⟨h, rfl⟩
        · exact ⟨h.releaseMutex p m, rfl⟩

theorem condInit (h : Twins past past' s s') (c : Option CondId) :
    TwinResults past past' (threadCondInit s c) (threadCondInit s' c) := by
  cases c with
  | none => exact ⟨h, rfl⟩
  | some c => exact ⟨(h.initQueue _).emit _, rfl⟩

theorem condDestroy (h : Twins past past' s s') (c : Option CondId) :
    TwinResults past past' (threadCondDestroy s c) (threadCondDestroy s' c) := by
  unfold threadCondDestroy
  cases c with
  | none => exact ⟨h, rfl⟩
  | some c =>
      dsimp only
      rw [h.waitingQueue]
      split
      · exact ⟨h, rfl⟩
      · exact ⟨h, rfl⟩

theorem condSignal (h : Twins past past' s s') (p : Policy) (c : Option CondId) :
    TwinResults past past' (threadCondSignal p s c) (threadCondSignal p s' c) := by
  cases c with
  | none => exact ⟨h, rfl⟩
  | some c => exact ⟨h.wakeFirst p _, rfl⟩

theorem condBroadcast (h : Twins past past' s s') (p : Policy) (c : Option CondId) :
    TwinResults past past' (threadCondBroadcast p s c) (threadCondBroadcast p s' c) := by
  unfold threadCondBroadcast
  cases c with
  | none => exact ⟨h, rfl⟩
  | some c =>
      dsimp only
      rw [h.waitingQueue]
      exact ⟨h.wakeAll p _ _, rfl⟩

theorem semInit (h : Twins past past' s s') (sm : Option SemId) (value : Int) :
    TwinResults past past' (threadSemInit s sm value) (threadSemInit s' sm value) := by
  unfold threadSemInit
  cases sm with
  | none => exact ⟨h, rfl⟩
  | some sm =>
      dsimp only
      split
      · exact ⟨h, rfl⟩
      · exact ⟨((h.setCount sm value).initQueue _).emit _, rfl⟩

theorem semDestroy (h : Twins past past' s s') (sm : Option SemId) :
    TwinResults past past' (threadSemDestroy s sm) (threadSemDestroy s' sm) := by
  unfold threadSemDestroy
  cases sm with
  | none => exact ⟨h, rfl⟩
  | some sm =>
      dsimp only
      rw [h.waitingQueue]
      split
      · exact ⟨h, rfl⟩
      · exact ⟨(h.setCount sm 0).emit _, rfl⟩

/-- The lock at the end of a wait drops its code on both sides. -/
theorem condRelock (h : Twins past past' s s') (c : CondId) (m : MutexId) (code : Int) :
    TwinResults past past' (UserThreads.condRelock s c m code)
      (UserThreads.condRelock s' c m code) := by
  have hlock := h.mutexLock m (.condRelock c m code)
  unfold UserThreads.condRelock
  rcases hs : UserThreads.mutexLock s m (.condRelock c m code) with ⟨r, o⟩
  rcases hs' : UserThreads.mutexLock s' m (.condRelock c m code) with ⟨r', o'⟩
  rw [hs, hs'] at hlock
  obtain ⟨htwins, rfl : o = o'⟩ := hlock
  cases o with
  | none => exact ⟨htwins, rfl⟩
  | some code' => exact ⟨htwins, rfl⟩

/-- `thread_cond_wait` looks for a ready thread, and then releases the mutex. -/
theorem condWait (h : Twins past past' s s') (p : Policy) (c : Option CondId)
    (m : Option MutexId) :
    TwinResults past past' (threadCondWait p s c m) (threadCondWait p s' c m) := by
  unfold threadCondWait
  cases c with
  | none => exact ⟨h, rfl⟩
  | some c =>
      cases m with
      | none => exact ⟨h, rfl⟩
      | some m =>
          rcases h.pickNext with ⟨hnone, hnone'⟩ | ⟨next, r, r', hsome, hsome', hr⟩
          · simp only [hnone, hnone']
            exact (h.releaseMutex p m).condRelock c m (-1)
          · simp only [hsome, hsome']
            have hparked := (hr.releaseMutex p m).park (.cond c)
            rw [hparked.currentThread]
            exact ⟨hparked.swap _ _ _, rfl⟩

/-- `thread_sem_wait` reads the counter. -/
theorem semWait (h : Twins past past' s s') (sm : Option SemId) :
    TwinResults past past' (threadSemWait s sm) (threadSemWait s' sm) := by
  unfold threadSemWait
  cases sm with
  | none => exact ⟨h, rfl⟩
  | some sm =>
      simp only [h.count, h.self]
      split
      · exact ⟨(h.setCount sm _).emit _, rfl⟩
      · rcases h.pickNext with ⟨hnone, hnone'⟩ | ⟨next, r, r', hsome, hsome', hr⟩
        · simp only [hnone, hnone']
          exact ⟨h, rfl⟩
        · simp only [hsome, hsome']
          exact ⟨hr.parkSwap _ next _, rfl⟩

/-- `thread_sem_post` reads the queue of the semaphore. -/
theorem semPost (h : Twins past past' s s') (p : Policy) (sm : Option SemId) :
    TwinResults past past' (threadSemPost p s sm) (threadSemPost p s' sm) := by
  unfold threadSemPost
  cases sm with
  | none => exact ⟨h, rfl⟩
  | some sm =>
      have hemit := h.emit (.semPosted sm s.self)
      simp only [h.self, hemit.waitingQueue, hemit.count]
      split
      · exact ⟨hemit.wakeFirst p _, rfl⟩
      · exact ⟨hemit.setCount sm _, rfl⟩

/-- `thread_signal_send` looks at the record of the target. -/
theorem signalSend (h : Twins past past' s s') (p : Policy) (target : Option Tid) (sig : Int) :
    TwinResults past past' (threadSignalSend p s target sig)
      (threadSignalSend p s' target sig) := by
  unfold threadSignalSend
  cases target with
  | none => exact ⟨h.setErrno _, rfl⟩
  | some target =>
      dsimp only
      split
      · exact ⟨h.setErrno _, rfl⟩
      · have hsent := (h.modifyThread target fun th =>
          { th with pendingSignals := th.pendingSignals ||| threadSignalBit sig }).emit
            (.signalSent (s.threads target).id sig)
        rw [h.threads, hsent.threads]
        split
        · refine ⟨?_, rfl⟩
          unfold signalWake
          exact ((hsent.modifyThread target _).setState _ _ _).enqueue p target
        · exact ⟨hsent, rfl⟩

/-- A turn of `thread_sigwait` reads the pending set of its caller. -/
theorem sigwaitLoop (h : Twins past past' s s') (set : BitVec 32) :
    TwinResults past past' (UserThreads.sigwaitLoop s set) (UserThreads.sigwaitLoop s' set) := by
  have hwaiting := h.modifyThread s.currentThread fun th =>
    { th with waitingForSignal := true, waitedSignals := set }
  have hblocked := hwaiting.setState s.currentThread .blocked none
  unfold UserThreads.sigwaitLoop
  simp only [h.currentThread, h.threads, h.self]
  split
  · split
    · exact ⟨h.setErrno _, rfl⟩
    · exact ⟨(h.modifyThread _ _).emit _, rfl⟩
  · rcases hblocked.pickNext with ⟨hnone, hnone'⟩ | ⟨next, r, r', hsome, hsome', hr⟩
    · simp only [hnone, hnone']
      exact ⟨((hblocked.modifyThread _ _).setState _ _ _).setErrno _, rfl⟩
    · simp only [hsome, hsome']
      exact ⟨hr.swap _ _ _, rfl⟩

theorem sigwait (h : Twins past past' s s') (set : BitVec 32) (sig : Bool) :
    TwinResults past past' (threadSigwait s set sig) (threadSigwait s' set sig) := by
  unfold threadSigwait
  split
  · exact ⟨h.setErrno _, rfl⟩
  · exact h.sigwaitLoop set

end Twins

end UserThreads
