import UserThreads.Operations.Advance

/-!
# Who stands where

The points of the threads, the running thread and the handles, through every
operation. An operation moves no thread but the running one, and leaves that one
at a known point when it switches.
-/

namespace UserThreads

open Transition

/-- The point of every thread. -/
def State.points (s : State) : Tid → Point := fun t => (s.threads t).point

/-- The points, the running thread, and the threads that exist. -/
def State.outline (s : State) : (Tid → Point) × Tid × List Tid :=
  (s.points, s.currentThread, s.handles)

section Frame

variable {s s' : State} {p : Policy}

/-- The helpers of `thread_create` write no record. -/
theorem outline_of_schedule (h : s'.schedule = s.schedule ∧ s'.threads = s.threads) :
    s'.outline = s.outline := by
  obtain ⟨hschedule, hthreads⟩ := h
  have hcurrent : s'.currentThread = s.currentThread := congrArg Prod.fst hschedule
  have hhandles : s'.handles = s.handles := congrArg (·.2.2.1) hschedule
  unfold State.outline State.points
  rw [hthreads, hcurrent, hhandles]

/-- Nor do they change the running thread. -/
theorem running_of_schedule (h : s'.schedule = s.schedule ∧ s'.threads = s.threads) :
    s'.running = s.running := by
  obtain ⟨hschedule, hthreads⟩ := h
  have hcurrent : s'.currentThread = s.currentThread := congrArg Prod.fst hschedule
  unfold State.running
  rw [hthreads, hcurrent]

/-- A write to a record that keeps the point. -/
theorem outline_modify {t : Tid} {f : Thread → Thread}
    (hf : (f (s.threads t)).point = (s.threads t).point) :
    (s.modifyThread t f).outline = s.outline := by
  have hpoints : (s.modifyThread t f).points = s.points :=
    funext fun u => proj_update Thread.point hf u
  unfold State.outline
  rw [hpoints]
  rfl

@[simp] theorem outline_emit (e : Event) : (s.emit e).outline = s.outline := rfl

@[simp] theorem outline_setErrno (e : Errno) : (s.setErrno e).outline = s.outline := rfl

@[simp] theorem outline_setLocked (m : MutexId) (v : Int) : (s.setLocked m v).outline = s.outline :=
  rfl

@[simp] theorem outline_setCount (sm : SemId) (v : Int) : (s.setCount sm v).outline = s.outline :=
  rfl

@[simp] theorem outline_setQueue (q : QueueId) (l : List Tid) :
    (s.setQueue q l).outline = s.outline := rfl

@[simp] theorem outline_setState (t : Tid) (st : ThreadState) (w : Option Waker) :
    (s.setState t st w).outline = s.outline := by
  have hmodify : (s.modifyThread t fun th => { th with state := st }).outline = s.outline :=
    outline_modify rfl
  exact hmodify

/-- A thread gets to another point. -/
theorem outline_setPoint (t : Tid) (k : Point) :
    (s.setPoint t k).outline = (Function.update s.points t k, s.currentThread, s.handles) := by
  have hpoints : (s.setPoint t k).points = Function.update s.points t k := by
    funext u
    by_cases hu : u = t
    · subst hu
      simp [State.points, State.setPoint, State.modifyThread]
    · simp [State.points, State.setPoint, State.modifyThread, hu]
  unfold State.outline
  rw [hpoints]
  rfl

/-- A switch saves one point, and another thread runs. -/
theorem outline_swapThread (prev next : Tid) (k : Point) :
    (swapThread s prev next k).outline = (Function.update s.points prev k, next, s.handles) := by
  have hpoint := outline_setPoint (s := s) prev k
  have hstate : (swapThread s prev next k).outline =
      ({ s.setPoint prev k with currentThread := next } : State).outline := outline_setState _ _ _
  rw [hstate]
  unfold State.outline at hpoint ⊢
  rw [Prod.mk.injEq] at hpoint
  exact Prod.ext hpoint.1 rfl

@[simp] theorem outline_picked (next : Tid) (rest : List Tid) :
    (s.picked next rest).outline = s.outline :=
  outline_modify (s := { s with readyQueue := rest })
    (f := fun th => { th with inReadyQueue := false }) rfl

@[simp] theorem outline_readyRemove (t : Tid) : (readyRemove s t).outline = s.outline :=
  outline_modify (s := { s with readyQueue := s.readyQueue.erase t }) rfl

/-- Who gets ready does not move. -/
@[simp] theorem outline_enqueue (t : Tid) : (threadSchedulerEnqueue p s t).outline = s.outline := by
  unfold threadSchedulerEnqueue
  split
  · rfl
  · exact outline_modify rfl

@[simp] theorem outline_park (q : QueueId) : (park s q).outline = s.outline := by
  unfold park
  simp

/-- A thread that is woken stays at the point where it parked. -/
@[simp] theorem outline_wakeFirst (q : QueueId) : (wakeFirst p s q).outline = s.outline := by
  unfold wakeFirst
  split
  · rfl
  · simp

/-- By induction on the turns of a broadcast. -/
@[simp] theorem outline_wakeAll (q : QueueId) (n : Nat) :
    (wakeAll p q n s).outline = s.outline := by
  induction n generalizing s with
  | zero => rfl
  | succ n ih =>
      unfold wakeAll
      split
      · rfl
      · rw [ih, outline_wakeFirst]

@[simp] theorem outline_releaseMutex (m : MutexId) : (releaseMutex p s m).outline = s.outline := by
  unfold releaseMutex
  dsimp only
  split
  · rw [outline_wakeFirst, outline_emit]
  · rw [outline_setLocked, outline_emit]

/-- Aging writes priorities. -/
theorem outline_ageThreads (prev : Tid) : (ageThreads s prev).outline = s.outline := by
  obtain ⟨f, rq, -, heq⟩ := Reprioritized.ageThreads s prev
  rw [heq]
  rfl

@[simp] theorem outline_signalWake (t : Tid) (sig : Int) :
    (signalWake p s t sig).outline = s.outline := by
  have hmodify : (s.modifyThread t fun th =>
      { th with waitingForSignal := false, waitedSignals := 0 }).outline = s.outline :=
    outline_modify rfl
  unfold signalWake
  rw [outline_enqueue, outline_setState]
  exact hmodify

/-- The stack and the struct of a dying thread change hands. -/
theorem outline_exitZombie (d : Tid) : (exitZombie s d).outline = s.outline := by
  obtain ⟨map, base, deferred, heq⟩ := deferStackReclaim_frame s d
  have hdefer : (deferStackReclaim s d).outline = s.outline := by
    rw [heq]
    exact outline_modify (s := { s with deferredStacks := deferred })
      (f := fun th => { th with stackMap := map, stackBase := base }) rfl
  have hadd : (threadZombieAdd (deferStackReclaim s d) d).outline = s.outline :=
    (outline_modify (s := { deferStackReclaim s d with
      zombieQueue := (deferStackReclaim s d).zombieQueue ++ [d] }) rfl).trans hdefer
  unfold exitZombie
  dsimp only
  split
  · rfl
  · split
    · exact hadd
    · split
      · exact hadd
      · exact hdefer

@[simp] theorem outline_exitWake (d : Tid) : (exitWake p s d).outline = s.outline := by
  unfold exitWake
  split
  · rfl
  · simp

/-- A struct goes back to the pool with its point in it. -/
theorem outline_threadObjRelease (t : Tid) : (threadObjRelease s t).outline = s.outline := by
  unfold threadObjRelease
  split
  · rfl
  · have hcleared : (s.modifyThread t fun th => { th with headJoiner := none }).outline =
        s.outline := outline_modify rfl
    rw [threadFree_eq]
    exact hcleared

/-- The set-up gives a slot to the main thread. -/
theorem outline_schedulerInit (e : SlotEnv) : (schedulerInit s e).1.outline = s.outline := by
  have hslot := outline_of_schedule (schedule_threadHeadRefAlloc s mainThread e)
  have hhead : ∀ (r : State) (head : Option SlotRef), (r.modifyThread mainThread fun th =>
      { th with headJoiner := head }).outline = r.outline := fun r head => outline_modify rfl
  unfold schedulerInit
  split
  · rfl
  · rcases halloc : threadHeadRefAlloc s mainThread e with ⟨s', _ | ref⟩
    · rw [halloc] at hslot
      exact (hhead s' none).trans hslot
    · rw [halloc] at hslot
      exact (hhead s' (some ref)).trans hslot

/-- A claim takes the target out of the handles. -/
theorem outline_claimTarget (t : Tid) :
    (claimTarget s t).outline = (s.points, s.currentThread, s.handles.erase t) := by
  have hforget : ∀ r : State, r.outline = s.outline →
      ({ r with handles := r.handles.erase t } : State).outline =
        (s.points, s.currentThread, s.handles.erase t) := by
    intro r hr
    unfold State.outline at hr
    simp only [Prod.mk.injEq] at hr
    obtain ⟨hpoints, hcurrent, hhandles⟩ := hr
    unfold State.outline
    rw [← hpoints, hcurrent, hhandles]
    rfl
  have hremove : (threadZombieRemove s t).outline = s.outline := by
    obtain ⟨queue, heq⟩ := threadZombieRemove_frame s t
    rw [heq]
    exact outline_modify (s := { s with zombieQueue := queue })
      (f := fun th => { th with inZombieQueue := false }) rfl
  unfold claimTarget
  apply hforget
  split
  · rfl
  · rw [outline_threadObjRelease]
    split
    · exact hremove
    · rw [stackPoolPush_eq]
      exact hremove

end Frame

/-- The two ends of a critical section: the call returns with every thread where
it was, or it switches and leaves the running thread at `k`. -/
inductive Leaves (k : Point) (s : State) : State × Option Int → Prop
  | returns {s' : State} (code : Int) (hpoints : s'.points = s.points)
      (hcurrent : s'.currentThread = s.currentThread) (hhandles : s'.handles ⊆ s.handles) :
      Leaves k s (s', some code)
  | switches {s' : State} (hpoints : s'.points = Function.update s.points s.currentThread k)
      (hhandles : s'.handles ⊆ s.handles) : Leaves k s (s', none)

section Leaves

variable {s s' : State} {k : Point} {p : Policy}

/-- An operation that moves nobody returns. -/
theorem Leaves.stay (h : s'.outline = s.outline) (code : Int) : Leaves k s (s', some code) := by
  unfold State.outline at h
  simp only [Prod.mk.injEq] at h
  obtain ⟨hpoints, hcurrent, hhandles⟩ := h
  exact .returns code hpoints hcurrent (by rw [hhandles]; exact List.Subset.refl _)

/-- An operation that moves nobody, and then switches. -/
theorem Leaves.swap {next : Tid} (h : s'.outline = s.outline) (k : Point) :
    Leaves k s (swapThread s' s.currentThread next k, none) := by
  have hswap := outline_swapThread (s := s') s.currentThread next k
  unfold State.outline at h hswap
  simp only [Prod.mk.injEq] at h hswap
  obtain ⟨hpoints, -, hhandles⟩ := h
  obtain ⟨hpoints', -, hhandles'⟩ := hswap
  refine .switches ?_ ?_
  · rw [hpoints', hpoints]
  · rw [hhandles', hhandles]
    exact List.Subset.refl _

/-- The thread picked does not run yet. -/
theorem outline_pickNext {next : Tid} (h : threadSchedulerPickNext s = some (next, s')) :
    s'.outline = s.outline := by
  cases hq : s.readyQueue with
  | nil =>
      rw [threadSchedulerPickNext_nil hq] at h
      cases h
  | cons next rest =>
      rw [threadSchedulerPickNext_cons hq] at h
      cases h
      exact outline_picked next rest

/-- A yield keeps its caller, or leaves it at `k`. -/
theorem threadYield_leaves (p : Policy) (s : State) (k : Point) :
    Leaves k s (threadYield p s k) := by
  unfold threadYield
  extract_lets prev s₁
  have hage : s₁.outline = s.outline := by
    cases p with
    | fifo => rfl
    | prio => exact outline_ageThreads s.currentThread
  split
  next => exact .stay hage 0
  next next s' hpick =>
    have hs' := (outline_pickNext hpick).trans hage
    split
    · exact .stay hs' 0
    · split
      · exact .stay ((outline_enqueue next).trans hs') 0
      · split
        · exact .swap (by simpa using hs') k
        · exact .swap hs' k

theorem threadYieldTo_leaves (p : Policy) (s : State) (t : Tid) (k : Point) :
    Leaves k s (threadYieldTo p s (some t) k) := by
  unfold threadYieldTo
  dsimp only
  split
  · exact threadYield_leaves p s k
  · exact .swap (by simp) k

/-- A lock is taken or refused, or its caller parks at `k`. -/
theorem mutexLock_leaves (s : State) (m : MutexId) (k : Point) : Leaves k s (mutexLock s m k) := by
  unfold mutexLock
  split
  · exact .stay (outline_setErrno _) _
  · split
    · exact .stay ((outline_emit _).trans (outline_setLocked _ _)) _
    · split
      next => exact .stay rfl _
      next next s' hpick =>
        have hs' := outline_pickNext hpick
        have hcurrent : s'.currentThread = s.currentThread := congrArg (·.2.1) hs'
        rw [hcurrent]
        exact .swap ((outline_park _).trans hs') k

/-- The lock at the end of a wait has a point of its own. -/
theorem condRelock_leaves (s : State) (c : CondId) (m : MutexId) (code : Int) :
    Leaves (.condRelock c m code) s (condRelock s c m code) := by
  have hlock := mutexLock_leaves s m (.condRelock c m code)
  unfold condRelock
  rcases heq : mutexLock s m (.condRelock c m code) with ⟨s', _ | code'⟩
  · rw [heq] at hlock
    exact hlock
  · rw [heq] at hlock
    cases hlock with
    | returns _ hpoints hcurrent hhandles => exact .returns code hpoints hcurrent hhandles

/-- With a thread ready, a wait parks. -/
theorem threadCondWait_leaves (p : Policy) {s : State} (hq : s.readyQueue ≠ []) (c : CondId)
    (m : MutexId) : Leaves (.condWait c m) s (threadCondWait p s (some c) (some m)) := by
  obtain ⟨next, rest, hq⟩ := List.exists_cons_of_ne_nil hq
  have hparked : (park (releaseMutex p (s.picked next rest) m) (.cond c)).outline = s.outline := by
    simp
  have hcurrent : (park (releaseMutex p (s.picked next rest) m) (.cond c)).currentThread =
      s.currentThread := congrArg (·.2.1) hparked
  unfold threadCondWait
  simp only [threadSchedulerPickNext_cons hq]
  rw [hcurrent]
  exact .swap hparked _

/-- A wait on a semaphore takes a unit, gives up, or parks. -/
theorem threadSemWait_leaves (s : State) (sm : SemId) :
    Leaves (.semWait sm) s (threadSemWait s (some sm)) := by
  unfold threadSemWait
  dsimp only
  split
  · exact .stay ((outline_emit _).trans (outline_setCount _ _)) _
  · split
    next => exact .stay rfl _
    next next s' hpick =>
      have hs' := outline_pickNext hpick
      have hcurrent : s'.currentThread = s.currentThread := congrArg (·.2.1) hs'
      rw [hcurrent]
      exact .swap ((outline_park _).trans hs') _

/-- A turn of `thread_sigwait` consumes a signal, gives up, or blocks. -/
theorem sigwaitLoop_leaves (s : State) (set : BitVec 32) :
    Leaves (.sigwait set) s (sigwaitLoop s set) := by
  have hwait : ∀ (r : State) (f : Thread → Thread) (st : ThreadState),
      (∀ th, (f th).point = th.point) →
      ((r.modifyThread s.currentThread f).setState s.currentThread st none).outline = r.outline :=
    fun r f st hf => (outline_setState _ _ _).trans (outline_modify (hf _))
  unfold sigwaitLoop
  dsimp only
  split
  · split
    · exact .stay (outline_setErrno _) _
    · refine .stay ((outline_emit _).trans ?_) _
      exact outline_modify rfl
  · have hblocked := hwait s (fun th => { th with waitingForSignal := true, waitedSignals := set })
      .blocked fun _ => rfl
    split
    next =>
      refine .stay ((outline_setErrno _).trans ((hwait _ _ _ ?_).trans hblocked)) _
      exact fun _ => rfl
    next next s' hpick => exact .swap ((outline_pickNext hpick).trans hblocked) _

/-- A claim, and then writes that move no thread. -/
theorem Leaves.claim {t : Tid} (h : s'.outline = (s.points, s.currentThread, s.handles.erase t))
    (code : Int) : Leaves k s (s', some code) := by
  unfold State.outline at h
  simp only [Prod.mk.injEq] at h
  obtain ⟨hpoints, hcurrent, hhandles⟩ := h
  exact .returns code hpoints hcurrent (by rw [hhandles]; exact List.erase_subset)

/-- A join that registers itself blocks, or gives up. -/
theorem joinBlock_leaves (s : State) (t : Tid) (slot : SlotRef) (retval : Bool) :
    Leaves (.join t retval) s (joinBlock s t slot retval) := by
  unfold joinBlock
  extract_lets prev targetIsHead s₁ s₂ s₃ s₄
  have hs₁ : s₁.outline = s.outline := outline_modify rfl
  have hs₂ : s₂.outline = s.outline := Eq.trans (outline_modify rfl) hs₁
  have hs₃ : s₃.outline = s.outline := by
    unfold s₃
    split
    · exact hs₂
    · exact hs₂
  have hs₄ : s₄.outline = s.outline :=
    Eq.trans (outline_modify rfl) ((outline_setState _ _ _).trans hs₃)
  split
  next =>
    refine .stay ((outline_setErrno _).trans (Eq.trans (outline_modify ?_) ?_)) _
    · rfl
    · exact (outline_setState _ _ _).trans hs₄
  next next s' hpick => exact .swap ((outline_pickNext hpick).trans hs₄) _

/-- A join past its checks, on a target that has terminated or lives. -/
theorem joinChecked_leaves (s : State) (t : Tid) (retval : Bool) :
    Leaves (.join t retval) s (joinChecked s t retval) := by
  unfold joinChecked
  split
  · exact .claim ((outline_emit _).trans (outline_claimTarget t)) 0
  · split
    · split
      · exact .stay (outline_setErrno _) _
      · exact joinBlock_leaves s t _ retval
    · exact .stay (outline_setErrno _) _

/-- The end of a join returns. -/
theorem joinResume_leaves (s : State) (t : Tid) (retval : Bool) :
    Leaves k s (joinResume s t retval) := by
  have hback : ((s.modifyThread s.currentThread fun th => { th with waitingFor := none }).setState
      s.currentThread .running none).outline = s.outline :=
    (outline_setState _ _ _).trans (outline_modify rfl)
  unfold State.outline at hback
  simp only [Prod.mk.injEq] at hback
  obtain ⟨hpoints, hcurrent, hhandles⟩ := hback
  unfold joinResume
  extract_lets s₁ stored id
  have hclaim : (claimTarget s₁ t).outline = (s.points, s.currentThread, s.handles.erase t) := by
    rw [outline_claimTarget, hpoints, hcurrent, hhandles]
  split
  · exact .claim ((outline_emit _).trans ((outline_setErrno _).trans hclaim)) _
  · exact .claim ((outline_emit _).trans hclaim) _

/-- The calls that are one critical section. -/
theorem enter_leaves {c : Call} (hc : c.code = [.block, .piece (.critical c)]) (b : Build)
    (s : State) (e : Env) : ∃ k : Point, k.Settled ∧ Leaves k s (enter b s c e) := by
  cases Call.critical_of_code hc with
  | mutexLock m => exact ⟨_, ⟨rfl, rfl⟩, mutexLock_leaves s m (.mutexLock m)⟩
  | mutexUnlock m =>
      refine ⟨.user, ⟨rfl, rfl⟩, ?_⟩
      simp only [enter, threadMutexUnlock]
      split
      · exact .stay (outline_setErrno _) _
      · split
        · exact .stay rfl _
        · exact .stay (outline_releaseMutex m) _
  | condSignal c => exact ⟨.user, ⟨rfl, rfl⟩, .stay (outline_wakeFirst _) _⟩
  | condBroadcast c => exact ⟨.user, ⟨rfl, rfl⟩, .stay (outline_wakeAll _ _) _⟩
  | semWait sm => exact ⟨_, ⟨rfl, rfl⟩, threadSemWait_leaves s sm⟩
  | semPost sm =>
      refine ⟨.user, ⟨rfl, rfl⟩, ?_⟩
      simp only [enter, threadSemPost]
      split
      · exact .stay ((outline_wakeFirst _).trans (outline_emit _)) _
      · exact .stay ((outline_setCount _ _).trans (outline_emit _)) _
  | signalSend t sig hsig =>
      have hsent : ((s.modifyThread t fun th =>
          { th with pendingSignals := th.pendingSignals ||| threadSignalBit sig }).emit
            (.signalSent (s.threads t).id sig)).outline = s.outline :=
        (outline_emit _).trans (outline_modify rfl)
      refine ⟨.user, ⟨rfl, rfl⟩, ?_⟩
      simp only [enter, threadSignalSend]
      split
      · exact .stay (outline_setErrno _) _
      · split
        · exact .stay ((outline_signalWake _ _).trans hsent) _
        · exact .stay hsent _

/-- The dying thread stays where it was. -/
theorem threadExit_outline (p : Policy) (s : State) (v : Value) :
    (threadExit p s v).points = s.points ∧ (threadExit p s v).handles = s.handles := by
  have hdead : (exitWake p (exitZombie (((s.modifyThread s.currentThread fun th =>
      { th with retval := v }).emit (.exited s.self v)).setState s.currentThread .terminated none)
        s.currentThread) s.currentThread).outline = s.outline := by
    rw [outline_exitWake, outline_exitZombie, outline_setState, outline_emit]
    exact outline_modify rfl
  unfold threadExit
  dsimp only
  split
  next =>
    unfold State.outline at hdead
    simp only [Prod.mk.injEq] at hdead
    exact ⟨hdead.1, hdead.2.2⟩
  next next s' hpick =>
    have hs' := (outline_pickNext hpick).trans hdead
    unfold State.outline at hs'
    simp only [Prod.mk.injEq] at hs'
    have hnext := outline_setState (s := { s' with currentThread := next }) next .running none
    unfold State.outline at hnext
    simp only [Prod.mk.injEq] at hnext
    exact ⟨hnext.1.trans hs'.1, hnext.2.2.trans hs'.2.2⟩

end Leaves

end UserThreads
