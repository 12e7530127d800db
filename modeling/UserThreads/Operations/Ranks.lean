import UserThreads.Abstract.Ranks
import UserThreads.Operations.Step

/-!
# The operations as shifts of the ready queue

Which shifts each operation performs on the queue and the priorities, in the
order in which the code performs them.
-/

namespace UserThreads

open Transition Relation Ranks

section Frame

variable {p : Policy} {i : Input} {d : Tid} {s s' : State}

theorem ranks_eq {r : Ranks} (hq : s.readyQueue = r.queue)
    (hp : ∀ u, (s.threads u).priority = r.priority u) : s.ranks = r := by
  cases r
  subst hq
  exact congrArg _ (funext hp)

/-- A record may be written as long as the priority stays. -/
theorem ranks_modifyThread {t : Tid} {f : Thread → Thread}
    (hf : (f (s.threads t)).priority = (s.threads t).priority) :
    (s.modifyThread t f).ranks = s.ranks := by
  apply ranks_eq
  · rfl
  · exact fun u => proj_update Thread.priority hf u

@[simp] theorem ranks_modify {t : Tid} {f : Thread → Thread}
    (hf : ∀ th, (f th).priority = th.priority) : (s.modifyThread t f).ranks = s.ranks :=
  ranks_modifyThread (hf _)

@[simp] theorem ranks_setPoint (t : Tid) (k : Point) : (s.setPoint t k).ranks = s.ranks :=
  ranks_modifyThread rfl

@[simp] theorem ranks_setState (t : Tid) (st : ThreadState) (w : Option Waker) :
    (s.setState t st w).ranks = s.ranks := by
  have hmodify : (s.modifyThread t fun th => { th with state := st }).ranks = s.ranks :=
    ranks_modifyThread rfl
  exact hmodify

@[simp] theorem ranks_emit (e : Event) : (s.emit e).ranks = s.ranks := rfl

@[simp] theorem ranks_setErrno (e : Errno) : (s.setErrno e).ranks = s.ranks := rfl

@[simp] theorem ranks_setQueue (q : QueueId) (l : List Tid) :
    (s.setQueue q l).ranks = s.ranks := rfl

theorem ranks_headRefs (refs : SlotRef → Tid) : State.ranks { s with headRefs := refs } = s.ranks :=
  rfl

/-- A switch changes neither the queue nor a priority. -/
@[simp] theorem ranks_swapThread (prev next : Tid) (k : Point) :
    (swapThread s prev next k).ranks = s.ranks := by
  have hpoint : (s.setPoint prev k).ranks = s.ranks := ranks_setPoint prev k
  unfold swapThread
  rw [ranks_setState]
  exact hpoint

theorem swapThread_currentThread (prev next : Tid) (k : Point) :
    (swapThread s prev next k).currentThread = next := rfl

/-- Parking is no scheduling. -/
@[simp] theorem ranks_park (q : QueueId) : (park s q).ranks = s.ranks := by
  unfold park
  simp

theorem ranks_picked (next : Tid) (rest : List Tid) :
    (s.picked next rest).ranks = { s.ranks with queue := rest } := by
  have hflag : ∀ u, ((s.picked next rest).threads u).priority = (s.threads u).priority := by
    intro u
    refine proj_update Thread.priority ?_ u
    rfl
  apply ranks_eq
  · rfl
  · exact hflag

theorem ranks_stackPoolPush (entry : StackEntry) : (stackPoolPush s entry).ranks = s.ranks := by
  rw [stackPoolPush_eq]
  rfl

theorem ranks_threadObjRelease (t : Tid) : (threadObjRelease s t).ranks = s.ranks := by
  unfold threadObjRelease
  split
  · rfl
  · have hcleared : (s.modifyThread t fun th => { th with headJoiner := none }).ranks = s.ranks :=
      ranks_modifyThread rfl
    rw [threadFree_eq]
    exact hcleared

theorem ranks_threadZombieRemove (t : Tid) : (threadZombieRemove s t).ranks = s.ranks := by
  obtain ⟨queue, heq⟩ := threadZombieRemove_frame s t
  rw [heq]
  exact ranks_modifyThread (s := s) (f := fun th => { th with inZombieQueue := false }) rfl

/-- A join that claims its target moves nobody. -/
theorem ranks_claimTarget (t : Tid) : (claimTarget s t).ranks = s.ranks := by
  have hforget : ∀ r : State, State.ranks { r with handles := r.handles.erase t } = r.ranks :=
    fun _ => rfl
  unfold claimTarget
  rw [hforget]
  split
  · rfl
  · rw [ranks_threadObjRelease]
    split
    · exact ranks_threadZombieRemove t
    · rw [ranks_stackPoolPush]
      exact ranks_threadZombieRemove t

/-- The return of a call is no scheduling. -/
theorem ranks_finish (c : Call) (r : State × Option Int) :
    (finish c r).ranks = r.1.ranks ∧ (finish c r).currentThread = r.1.currentThread := by
  obtain ⟨s, o⟩ := r
  cases o with
  | none => exact ⟨rfl, rfl⟩
  | some code => exact ⟨ranks_setPoint (s := s.emit _) _ _, rfl⟩

/-- An enqueue inserts, unless the flag is already set. -/
theorem enqueue_shifts (s : State) (t : Tid) :
    Shifts p i d s.ranks (threadSchedulerEnqueue p s t).ranks := by
  unfold threadSchedulerEnqueue
  split
  · exact .refl
  · refine .single ?_
    have hflag : ∀ r : State, (r.modifyThread t fun th => { th with inReadyQueue := true }).ranks =
        r.ranks := fun r => ranks_modifyThread rfl
    dsimp only
    rw [hflag]
    cases p with
    | fifo => exact .enqueue t
    | prio => exact .enqueue t

/-- The head is picked to run at the end of the stretch. -/
theorem pick_shifts {rest : List Tid} (hq : s.readyQueue = d :: rest) :
    Shifts p i d s.ranks (s.picked d rest).ranks := by
  rw [ranks_picked]
  exact .single (.pick rest hq)

theorem Shifts.of_eq {r r' : Ranks} (h : r' = r) : Shifts p i d r r' := h ▸ .refl

end Frame

/-! Waking and blocking. -/

section Sync

variable {p : Policy} {i : Input} {d : Tid} {s : State}

/-- A wake-up is an enqueue. -/
theorem wakeFirst_shifts (s : State) (q : QueueId) :
    Shifts p i d s.ranks (wakeFirst p s q).ranks := by
  unfold wakeFirst
  split
  · exact .refl
  next t rest hq =>
    have henqueue := enqueue_shifts (p := p) (i := i) (d := d)
      (((s.setQueue q rest).emit (.woken q (s.threads t).id)).setState t .ready (some q.waker)) t
    simpa using henqueue

/-- A broadcast enqueues one waiter after the other. -/
theorem wakeAll_shifts (q : QueueId) (n : Nat) (s : State) :
    Shifts p i d s.ranks (wakeAll p q n s).ranks := by
  induction n generalizing s with
  | zero => exact .refl
  | succ n ih =>
      unfold wakeAll
      split
      · exact .refl
      · exact (wakeFirst_shifts s q).trans (ih _)

/-- A hand-over enqueues the new owner. -/
theorem releaseMutex_shifts (s : State) (m : MutexId) :
    Shifts p i d s.ranks (releaseMutex p s m).ranks := by
  unfold releaseMutex
  dsimp only
  split
  · exact wakeFirst_shifts (s.emit _) _
  · exact .refl

/-- The shifts of a call that returns, or switches to the thread it picked. -/
def Scheduled (p : Policy) (i : Input) (s : State) (r : State × Option Int) : Prop :=
  Shifts p i r.1.currentThread s.ranks r.1.ranks

theorem Scheduled.of_eq {r : State × Option Int} (h : r.1.ranks = s.ranks) : Scheduled p i s r :=
  Shifts.of_eq h

/-- The caller parks, and the thread picked takes over. -/
theorem park_scheduled {next : Tid} {rest : List Tid} (hq : s.readyQueue = next :: rest)
    (q : QueueId) (k : Point) :
    Scheduled p i s (swapThread (park (s.picked next rest) q) s.currentThread next k, none) := by
  unfold Scheduled
  rw [swapThread_currentThread, ranks_swapThread, ranks_park]
  exact pick_shifts hq

/-- A lock picks the next thread when it blocks. -/
theorem mutexLock_scheduled (s : State) (m : MutexId) (k : Point) :
    Scheduled p i s (mutexLock s m k) := by
  unfold mutexLock
  split
  · exact .of_eq rfl
  · split
    · exact .of_eq rfl
    · cases hq : s.readyQueue with
      | nil =>
          rw [threadSchedulerPickNext_nil hq]
          exact .of_eq rfl
      | cons next rest =>
          rw [threadSchedulerPickNext_cons hq]
          exact park_scheduled hq _ k

theorem threadMutexUnlock_scheduled (s : State) (m : Option MutexId) :
    Scheduled p i s (threadMutexUnlock p s m) := by
  unfold threadMutexUnlock
  split
  · exact .of_eq rfl
  · split
    · exact .of_eq rfl
    · split
      · exact .of_eq rfl
      · exact releaseMutex_shifts s _

theorem condRelock_scheduled (s : State) (c : CondId) (m : MutexId) (code : Int) :
    Scheduled p i s (condRelock s c m code) := by
  have hlock := mutexLock_scheduled (p := p) (i := i) s m (.condRelock c m code)
  unfold condRelock
  split
  next heq =>
    rw [heq] at hlock
    exact hlock
  next heq =>
    rw [heq] at hlock
    exact hlock

/-- A wait picks the next thread before it releases the mutex. -/
theorem threadCondWait_scheduled (s : State) (c : Option CondId) (m : Option MutexId) :
    Scheduled p i s (threadCondWait p s c m) := by
  unfold threadCondWait
  split
  next c m =>
    cases hq : s.readyQueue with
    | nil =>
        rw [threadSchedulerPickNext_nil hq]
        exact (releaseMutex_shifts s m).trans (condRelock_scheduled _ c m (-1))
    | cons next rest =>
        rw [threadSchedulerPickNext_cons hq]
        unfold Scheduled
        dsimp only
        rw [swapThread_currentThread, ranks_swapThread, ranks_park]
        exact (pick_shifts hq).trans (releaseMutex_shifts _ m)
  next => exact .of_eq rfl

theorem threadSemWait_scheduled (s : State) (sm : Option SemId) :
    Scheduled p i s (threadSemWait s sm) := by
  unfold threadSemWait
  split
  · exact .of_eq rfl
  · split
    · exact .of_eq rfl
    · cases hq : s.readyQueue with
      | nil =>
          rw [threadSchedulerPickNext_nil hq]
          exact .of_eq rfl
      | cons next rest =>
          rw [threadSchedulerPickNext_cons hq]
          exact park_scheduled hq _ _

/-- A post enqueues the thread it grants its unit to. -/
theorem threadSemPost_scheduled (s : State) (sm : Option SemId) :
    Scheduled p i s (threadSemPost p s sm) := by
  unfold threadSemPost
  split
  · exact .of_eq rfl
  next sm =>
    dsimp only
    split
    · exact wakeFirst_shifts (s.emit _) _
    · exact .of_eq rfl

/-- A signal enqueues the thread it wakes. -/
theorem threadSignalSend_scheduled (s : State) (target : Option Tid) (sig : Int) :
    Scheduled p i s (threadSignalSend p s target sig) := by
  unfold threadSignalSend
  split
  · exact .of_eq rfl
  next target =>
    dsimp only
    split
    · exact .of_eq rfl
    · split
      · unfold Scheduled signalWake
        refine (Shifts.of_eq ?_).trans (enqueue_shifts _ target)
        simp
      · apply Scheduled.of_eq
        simp

/-- A wait for a signal picks the next thread when nothing is pending. -/
theorem sigwaitLoop_scheduled (s : State) (set : BitVec 32) :
    Scheduled p i s (sigwaitLoop s set) := by
  unfold sigwaitLoop
  dsimp only
  split
  · split
    · exact .of_eq rfl
    · apply Scheduled.of_eq
      simp
  · cases hq : s.readyQueue with
    | nil =>
        rw [threadSchedulerPickNext_nil (by exact hq)]
        apply Scheduled.of_eq
        simp
    | cons next rest =>
        rw [threadSchedulerPickNext_cons (by exact hq)]
        unfold Scheduled
        dsimp only
        rw [swapThread_currentThread, ranks_swapThread]
        refine (Shifts.of_eq ?_).trans (pick_shifts (by exact hq))
        simp

theorem threadSigwait_scheduled (s : State) (set : BitVec 32) (sig : Bool) :
    Scheduled p i s (threadSigwait s set sig) := by
  unfold threadSigwait
  split
  · exact .of_eq rfl
  · exact sigwaitLoop_scheduled s set

theorem ranks_threadMutexInit (s : State) (m : Option MutexId) :
    (threadMutexInit s m).1.ranks = s.ranks := by
  cases m with
  | none => rfl
  | some m => rfl

theorem ranks_threadMutexDestroy (s : State) (m : Option MutexId) :
    (threadMutexDestroy s m).1.ranks = s.ranks := by
  unfold threadMutexDestroy
  split
  · rfl
  · split
    · rfl
    · rfl

theorem ranks_threadCondInit (s : State) (c : Option CondId) :
    (threadCondInit s c).1.ranks = s.ranks := by
  cases c with
  | none => rfl
  | some c => rfl

theorem ranks_threadCondDestroy (s : State) (c : Option CondId) :
    (threadCondDestroy s c).1.ranks = s.ranks := by
  unfold threadCondDestroy
  split
  · rfl
  · split
    · rfl
    · rfl

theorem ranks_threadSemInit (s : State) (sm : Option SemId) (value : Int) :
    (threadSemInit s sm value).1.ranks = s.ranks := by
  unfold threadSemInit
  split
  · rfl
  · split
    · rfl
    · rfl

theorem ranks_threadSemDestroy (s : State) (sm : Option SemId) :
    (threadSemDestroy s sm).1.ranks = s.ranks := by
  unfold threadSemDestroy
  split
  · rfl
  · split
    · rfl
    · rfl

end Sync

end UserThreads
