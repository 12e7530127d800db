import UserThreads.History.Queues
import UserThreads.Operations.WritesStep

/-!
# Operations that leave synchronisation objects alone

Scheduling, creation, joining, the end of a thread and signals, in any state: they
touch no mutex, semaphore or condition, and the history speaks of none.
-/

namespace UserThreads

open Transition

/-- No object is touched, and the history speaks of none. -/
structure Quiet (s s' : State) : Prop where
  waitingQueue : s'.waitingQueue = s.waitingQueue
  locked : s'.locked = s.locked
  count : s'.count = s.count
  trace : ∃ l, s'.trace = l ++ s.trace ∧ ∀ e ∈ l, e.queue = none

/-- The memory of the objects, and the history. -/
def State.objects (s : State) := (s.waitingQueue, s.locked, s.count, s.trace)

namespace Quiet

variable {s s₁ s' : State}

theorem of_eq (h : s'.objects = s.objects) : Quiet s s' where
  waitingQueue := congrArg (·.1) h
  locked := congrArg (·.2.1) h
  count := congrArg (·.2.2.1) h
  trace := ⟨[], congrArg (·.2.2.2) h, by simp⟩

theorem refl (s : State) : Quiet s s := of_eq rfl

theorem trans (h : Quiet s s₁) (h' : Quiet s₁ s') : Quiet s s' where
  waitingQueue := h'.waitingQueue.trans h.waitingQueue
  locked := h'.locked.trans h.locked
  count := h'.count.trans h.count
  trace := by
    obtain ⟨l, htrace, hnew⟩ := h.trace
    obtain ⟨l', htrace', hnew'⟩ := h'.trace
    refine ⟨l' ++ l, by rw [htrace', htrace, List.append_assoc], fun e he => ?_⟩
    rcases List.mem_append.mp he with he | he
    · exact hnew' e he
    · exact hnew e he

/-- What comes first touches neither the objects nor the history. -/
theorem after (h : Quiet s₁ s') (heq : s₁.objects = s.objects) : Quiet s s' :=
  (of_eq heq).trans h

/-- Seen from any queue, nothing has happened. -/
theorem apart (h : Quiet s s') (q : QueueId) : Apart q s s' := by
  obtain ⟨l, htrace, hnew⟩ := h.trace
  exact .quiet h.waitingQueue h.locked h.count htrace hnew

theorem emit (s : State) {e : Event} (he : e.queue = none) : Quiet s (s.emit e) where
  waitingQueue := rfl
  locked := rfl
  count := rfl
  trace := ⟨[e], rfl, by simpa using he⟩

theorem setState (s : State) (t : Tid) (st : ThreadState) (w : Option Waker) :
    Quiet s (s.setState t st w) :=
  (emit (s.modifyThread t fun th => { th with state := st }) rfl).after rfl

theorem enqueue (p : Policy) (s : State) (t : Tid) : Quiet s (threadSchedulerEnqueue p s t) := by
  unfold threadSchedulerEnqueue
  split
  · exact refl s
  · exact of_eq rfl

/-- To make a thread READY touches no object. -/
theorem ready (p : Policy) (s : State) (t : Tid) (w : Option Waker) :
    Quiet s (threadSchedulerEnqueue p (s.setState t .ready w) t) :=
  (setState s t .ready w).trans (enqueue p _ t)

theorem pick {next : Tid} (h : threadSchedulerPickNext s = some (next, s')) : Quiet s s' := by
  unfold threadSchedulerPickNext at h
  split at h
  · cases h
  · cases h
    exact of_eq rfl

theorem swap (s : State) (prev next : Tid) (k : Point) : Quiet s (swapThread s prev next k) :=
  (setState { s.setPoint prev k with currentThread := next } next .running none).after rfl

theorem age (s : State) (prev : Tid) : Quiet s (ageThreads s prev) := by
  have hwaiting : ∀ (l : List Tid) (r : State),
      Quiet r (l.foldl (fun r t => r.modifyThread t Thread.ageWaiting) r) := by
    intro l
    induction l with
    | nil => exact refl
    | cons t rest ih => exact fun r => (ih (r.modifyThread t Thread.ageWaiting)).after rfl
  unfold ageThreads
  dsimp only
  split
  · exact (hwaiting s.readyQueue s).trans (of_eq rfl)
  · exact hwaiting s.readyQueue s

/-- Scheduling touches no object. -/
theorem threadYield (p : Policy) (s : State) (k : Point) : Quiet s (threadYield p s k).1 := by
  unfold UserThreads.threadYield
  extract_lets prev s₁
  have hage : Quiet s s₁ := by
    cases p with
    | fifo => exact refl s
    | prio => exact age s s.currentThread
  split
  next => exact hage
  next next s₂ hpick =>
    have hpicked := hage.trans (pick hpick)
    split
    · exact hpicked
    · split
      · exact hpicked.trans (enqueue p _ _)
      · split
        · exact hpicked.trans ((ready p _ _ _).trans (swap _ _ _ _))
        · exact hpicked.trans (swap _ _ _ _)

theorem threadYieldTo (p : Policy) (s : State) (target : Option Tid) (k : Point) :
    Quiet s (threadYieldTo p s target k).1 := by
  unfold UserThreads.threadYieldTo
  split
  next => exact of_eq rfl
  next target =>
    split
    · exact threadYield p s k
    · have hremoved : Quiet s (readyRemove (threadSchedulerEnqueue p
          (s.setState s.currentThread .ready none) s.currentThread) target) :=
        (ready p s s.currentThread none).trans (of_eq rfl)
      exact hremoved.trans (swap _ _ _ _)

theorem keptRunning {p : Policy} {next : Tid} (h : keptRunning p s = some (next, s')) :
    Quiet s s' := by
  cases p with
  | fifo => cases h
  | prio =>
      unfold UserThreads.keptRunning at h
      dsimp only at h
      split at h
      · cases h
      next next' s₁ hpick =>
        split at h
        · cases h
          exact (age s s.currentThread).trans (pick hpick)
        · cases h

theorem priorityWritten (p : Policy) (s : State) (t : Tid) (prio : Int) :
    Quiet s (priorityWritten p s t prio).1 := by
  unfold UserThreads.priorityWritten
  extract_lets s₁
  have hset : Quiet s s₁ := of_eq rfl
  split
  · exact hset
  · split
    · have hremoved : Quiet s₁ (readyRemove s₁ t) := of_eq rfl
      exact hset.trans (hremoved.trans (enqueue .prio _ t))
    · exact hset

theorem threadHeadRefAlloc (s : State) (owner : Tid) (e : SlotEnv) :
    Quiet s (threadHeadRefAlloc s owner e).1 := by
  have hnew : Quiet s (threadHeadRefAlloc.newChunk s owner e).1 := by
    unfold threadHeadRefAlloc.newChunk
    split
    · exact refl s
    · split
      · exact refl s
      · exact of_eq rfl
  unfold UserThreads.threadHeadRefAlloc
  split
  · split
    · exact of_eq rfl
    · exact hnew
  · exact hnew

theorem schedulerInit (s : State) (e : SlotEnv) : Quiet s (schedulerInit s e).1 := by
  have hslot := threadHeadRefAlloc s mainThread e
  unfold UserThreads.schedulerInit
  split
  · exact refl s
  · rcases halloc : UserThreads.threadHeadRefAlloc s mainThread e with ⟨s', _ | ref⟩
    · rw [halloc] at hslot
      exact hslot.trans (of_eq rfl)
    · rw [halloc] at hslot
      exact hslot.trans (of_eq rfl)

theorem threadAlloc (s : State) (fresh : Option Tid) : Quiet s (threadAlloc s fresh).1 := by
  unfold UserThreads.threadAlloc
  split
  · exact of_eq rfl
  · split
    · exact refl s
    · exact of_eq rfl

theorem reclaimDeferredStacksAll (s : State) : Quiet s (reclaimDeferredStacksAll s) := by
  obtain ⟨-, pool, mappings, deferred, -, heq⟩ :=
    reclaimDeferredStacksBatch_moves (i := .resume .plain) maxDeferredStacks s
  unfold UserThreads.reclaimDeferredStacksAll
  rw [heq]
  exact of_eq rfl

theorem stackPoolAlloc (b : Build) (s : State) (e : StackEnv) :
    Quiet s (stackPoolAlloc b s e).1 := by
  unfold UserThreads.stackPoolAlloc
  split
  · exact of_eq rfl
  · split
    · exact refl s
    · split
      · exact refl s
      · exact of_eq rfl

theorem stackPoolPush (s : State) (entry : StackEntry) : Quiet s (stackPoolPush s entry) := by
  rw [stackPoolPush_eq]
  exact of_eq rfl

theorem threadObjRelease (s : State) (t : Tid) : Quiet s (threadObjRelease s t) := by
  unfold UserThreads.threadObjRelease
  split
  · exact refl s
  · rw [threadFree_eq]
    exact of_eq rfl

/-- Nor does a join that claims its target. -/
theorem claimTarget (s : State) (t : Tid) : Quiet s (claimTarget s t) := by
  have hremove : Quiet s (threadZombieRemove s t) := by
    unfold threadZombieRemove
    split
    · exact of_eq rfl
    · exact refl s
  have hforget : ∀ r : State, Quiet s r → Quiet s { r with handles := r.handles.erase t } :=
    fun r hr => hr.trans (of_eq rfl)
  unfold UserThreads.claimTarget
  apply hforget
  split
  · exact refl s
  · extract_lets s₁ s₂
    have hrecycled : Quiet s₁ s₂ := by
      unfold s₂
      split
      · exact refl s₁
      · exact stackPoolPush s₁ _
    exact (hremove.trans hrecycled).trans (threadObjRelease s₂ t)

/-- Nor does what comes before it in `thread_join`. -/
theorem joinChecked (s : State) (t : Tid) (retval : Bool) : Quiet s (joinChecked s t retval).1 := by
  unfold UserThreads.joinChecked
  split
  · exact (claimTarget s t).trans (emit _ rfl)
  · split
    · split
      · exact of_eq rfl
      · unfold joinBlock
        extract_lets prev targetIsHead s₁ s₂ s₃ s₄
        have h₃ : Quiet s s₃ := by
          unfold s₃
          split
          · exact of_eq rfl
          · exact of_eq rfl
        have h₄ : Quiet s s₄ := (h₃.trans (setState s₃ prev .blocked none)).trans (of_eq rfl)
        split
        next => exact (h₄.trans (setState s₄ prev .running none)).trans (of_eq rfl)
        next next s₅ hpick => exact h₄.trans ((pick hpick).trans (swap _ _ _ _))
    · exact of_eq rfl

theorem joinResume (s : State) (t : Tid) (retval : Bool) : Quiet s (joinResume s t retval).1 := by
  unfold UserThreads.joinResume
  extract_lets s₁ stored id
  have hback : Quiet s s₁ := (setState (s.modifyThread s.currentThread fun th =>
    { th with waitingFor := none }) s.currentThread .running none).after rfl
  have hclaimed := hback.trans (claimTarget s₁ t)
  split
  · exact hclaimed.trans
      ((emit ((UserThreads.claimTarget s₁ t).setErrno .efault) rfl).after rfl)
  · exact hclaimed.trans (emit _ rfl)

/-- The end of a thread wakes a joiner and no waiter. -/
theorem threadExit (p : Policy) (s : State) (v : Value) : Quiet s (threadExit p s v) := by
  unfold UserThreads.threadExit
  extract_lets dying s₁ s₂
  have hleft : Quiet s s₁ :=
    (emit (s.modifyThread dying fun th => { th with retval := v }) rfl).after rfl
  have hzombie : Quiet s₁ (exitZombie (s₁.setState dying .terminated none) dying) := by
    obtain ⟨map, base, flag, deferred, zombies, heq⟩ :=
      exitZombie_frame (s₁.setState dying .terminated none) dying
    rw [heq]
    exact (setState s₁ dying .terminated none).trans (of_eq rfl)
  have hwoken : Quiet s s₂ := by
    refine (hleft.trans hzombie).trans ?_
    unfold s₂ exitWake
    split
    · exact refl _
    · exact ready p _ _ _
  split
  next => exact hwoken.trans (of_eq rfl)
  next next s₃ hpick =>
    exact (hwoken.trans (pick hpick)).trans
      ((setState { s₃ with currentThread := next } next .running none).after rfl)

theorem sigwaitLoop (s : State) (set : BitVec 32) : Quiet s (sigwaitLoop s set).1 := by
  unfold UserThreads.sigwaitLoop
  extract_lets current available chosen s₁
  split
  · split
    · exact of_eq rfl
    · exact (emit (s.modifyThread current fun th =>
        { th with
          pendingSignals := th.pendingSignals &&& ~~~threadSignalBit chosen }) rfl).after rfl
  · have hwaits : Quiet s s₁ := (setState (s.modifyThread current fun th =>
      { th with waitingForSignal := true, waitedSignals := set }) current .blocked none).after rfl
    split
    next =>
      have hback : Quiet s₁ ((s₁.modifyThread current fun th =>
          { th with waitingForSignal := false, waitedSignals := 0 }).setState current .running
            none) :=
        (setState (s₁.modifyThread current fun th =>
          { th with waitingForSignal := false, waitedSignals := 0 }) current .running
            none).after rfl
      exact (hwaits.trans hback).trans (of_eq rfl)
    next next s₂ hpick => exact hwaits.trans ((pick hpick).trans (swap _ _ _ _))

/-- A signal wakes a thread in `thread_sigwait` and no waiter. -/
theorem threadSignalSend (p : Policy) (s : State) (t : Option Tid) (sig : Int) :
    Quiet s (threadSignalSend p s t sig).1 := by
  unfold UserThreads.threadSignalSend
  split
  next => exact of_eq rfl
  next target =>
    split
    · exact of_eq rfl
    · extract_lets bit s₁ th
      have hsent : Quiet s s₁ := (emit (s.modifyThread target fun th =>
        { th with pendingSignals := th.pendingSignals ||| bit }) rfl).after rfl
      split
      · have hawake : Quiet s₁ (signalWake p s₁ target sig) := (ready p (s₁.modifyThread target
          fun th => { th with waitingForSignal := false, waitedSignals := 0 }) target
            (some (.signalSend sig))).after rfl
        exact hsent.trans hawake
      · exact hsent

theorem finish (c : Call) (r : State × Option Int) : Quiet r.1 (finish c r) := by
  obtain ⟨s, _ | code⟩ := r
  · exact refl s
  · exact (emit s rfl).trans (of_eq rfl)

end Quiet

end UserThreads
