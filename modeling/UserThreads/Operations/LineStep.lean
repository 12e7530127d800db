import UserThreads.Operations.LineExit

/-!
# Steps in line

Yields and creations let threads join the line, and no step of the FIFO library that
is not a direct switch serves anybody but its head.
-/

namespace UserThreads

open Transition

/-! Yielding and creation. -/

/-- A head slot is taken without a look at the threads. -/
theorem threadHeadRefAlloc_lineup (s : State) (owner : Tid) (e : SlotEnv) :
    (threadHeadRefAlloc s owner e).1.lineup = s.lineup := by
  have hnew : (threadHeadRefAlloc.newChunk s owner e).1.lineup = s.lineup := by
    unfold threadHeadRefAlloc.newChunk
    split
    · rfl
    · split
      · rfl
      · rfl
  unfold threadHeadRefAlloc
  split
  · split
    · rfl
    · exact hnew
  · exact hnew

theorem stackPoolAlloc_lineup (b : Build) (s : State) (e : StackEnv) :
    (stackPoolAlloc b s e).1.lineup = s.lineup := by
  unfold stackPoolAlloc
  split
  · rfl
  · split
    · rfl
    · split
      · rfl
      · rfl

theorem reclaimDeferredStacksAll_lineup (s : State) :
    (reclaimDeferredStacksAll s).lineup = s.lineup := by
  obtain ⟨-, pool, mappings, deferred, -, heq⟩ :=
    reclaimDeferredStacksBatch_moves (i := .go) maxDeferredStacks s
  unfold reclaimDeferredStacksAll
  rw [heq]
  rfl

/-- What a yield finds: a line, and a caller that is not in it. -/
structure Queueing (s : State) : Prop where
  lined : Lined [] s
  runs : s.running.state = .running
  flag : s.running.inReadyQueue = false

theorem Inv.queueing {s : State} (h : Inv s) (hrun : s.running.state = .running)
    (ho : s.InOrder) : Queueing s :=
  ⟨h.lined ho, hrun, h.flag_false h.sched.current_mem (by rw [← State.running, hrun]; simp)⟩

section Yield

variable {s s' : State} (h : Queueing s)
include h

namespace Queueing

theorem frame (hlineup : s'.lineup = s.lineup) : Queueing s' := by
  obtain ⟨hthreads, hrest⟩ := Prod.mk.inj hlineup
  obtain ⟨hcur, -⟩ := Prod.mk.inj hrest
  have hrunning : s'.running = s.running := by
    rw [State.running, hthreads, hcur]
    rfl
  exact ⟨h.lined.globals hlineup, hrunning ▸ h.runs, hrunning ▸ h.flag⟩

theorem modify (t : Tid) {f : Thread → Thread}
    (hf : (f (s.threads t)).id = (s.threads t).id ∧ (f (s.threads t)).state = (s.threads t).state)
    (hflag : (f (s.threads t)).inReadyQueue = (s.threads t).inReadyQueue) :
    Queueing (s.modifyThread t f) :=
  ⟨h.lined.modify hf, (proj_update Thread.state hf.2 s.currentThread).trans h.runs,
    (proj_update Thread.inReadyQueue hflag s.currentThread).trans h.flag⟩

theorem setPoint (t : Tid) (k : Point) : Queueing (s.setPoint t k) :=
  h.modify t ⟨rfl, rfl⟩ rfl

theorem stackPoolAlloc (b : Build) (e : StackEnv) : Queueing (stackPoolAlloc b s e).1 :=
  h.frame (stackPoolAlloc_lineup b s e)

theorem reclaimDeferredStacksAll : Queueing (reclaimDeferredStacksAll s) :=
  h.frame (reclaimDeferredStacksAll_lineup s)

theorem threadAlloc (fresh : Option Tid) : Queueing (threadAlloc s fresh).1 := by
  unfold UserThreads.threadAlloc
  split
  · exact h.frame rfl
  · split
    · exact h
    · exact h.frame rfl

theorem threadHeadRefAlloc (owner : Tid) (e : SlotEnv) :
    Queueing (threadHeadRefAlloc s owner e).1 :=
  h.frame (threadHeadRefAlloc_lineup s owner e)

theorem schedulerInit (e : SlotEnv) : Queueing (schedulerInit s e).1 := by
  have hslot := h.threadHeadRefAlloc mainThread e
  unfold UserThreads.schedulerInit
  split
  · exact h
  · rcases halloc : UserThreads.threadHeadRefAlloc s mainThread e with ⟨s', _ | ref⟩
    · rw [halloc] at hslot
      exact hslot.modify (f := fun th => { th with headJoiner := none }) mainThread ⟨rfl, rfl⟩ rfl
    · rw [halloc] at hslot
      exact (hslot.modify (f := fun th => { th with headJoiner := some ref }) mainThread
        ⟨rfl, rfl⟩ rfl).frame rfl

end Queueing

/-- The caller joins behind all others, and the first in the line takes over. -/
theorem threadYield_inOrder (k : Point) : (threadYield .fifo s k).1.InOrder := by
  unfold threadYield
  dsimp only
  cases hq : s.readyQueue with
  | nil =>
      rw [threadSchedulerPickNext_nil hq]
      exact h.lined.order
  | cons next rest =>
      have hne : next ≠ s.currentThread := by
        rintro rfl
        have hready := h.lined.ready s.currentThread (by simp [hq])
        rw [← State.running, h.runs] at hready
        cases hready
      have hstill : ((s.picked next rest).threads s.currentThread).state = .running :=
        (proj_update Thread.state (by rfl) s.currentThread).trans h.runs
      have hflag : ((s.picked next rest).threads s.currentThread).inReadyQueue = false :=
        picked_flag h.flag
      rw [threadSchedulerPickNext_cons hq]
      simp only [hne, reduceCtorEq, false_and, if_false, hstill, if_true]
      exact ((h.lined.picked hq).enqueue hflag none).swap _ _

omit h in
/-- A new thread joins when it gets its id. -/
theorem createThread_inOrder (hl : Lined [] s) {n : Tid} (hn : n ∉ s.readyQueue)
    (entry : StackEntry) (e : SlotEnv) : (createThread .fifo s n entry e).1.InOrder := by
  have hne : ∀ u ∈ s.readyQueue, u ≠ n := fun u hu e => hn (e ▸ hu)
  have hfilled : Lined [] (s.modifyThread n fun th => th.fresh entry) := by
    refine hl.quiet rfl rfl fun u hu => ?_
    simp [State.modifyThread, hne u hu]
  have hlineup := threadHeadRefAlloc_lineup (s.modifyThread n fun th => th.fresh entry) n e
  unfold createThread
  dsimp only
  rcases halloc : threadHeadRefAlloc (s.modifyThread n fun th => th.fresh entry) n e with ⟨r, o⟩
  rw [halloc] at hlineup
  have hgiven : Lined [] r := hfilled.globals hlineup
  have hthreads : r.threads = (s.modifyThread n fun th => th.fresh entry).threads :=
    congrArg (·.1) hlineup
  have hq : r.readyQueue = s.readyQueue := congrArg (·.2.2.1) hlineup
  have hrecord : r.threads n = (s.threads n).fresh entry := by
    rw [hthreads]
    simp [State.modifyThread]
  cases o with
  | none =>
      have hcleared : Lined [] (r.modifyThread n fun th => { th with headJoiner := none }) :=
        hgiven.modify ⟨rfl, rfl⟩
      refine Lined.order (Lined.setErrno ?_ _)
      rw [stackPoolPush_eq]
      exact (hcleared.threadObjRelease n).globals rfl
  | some ref =>
      refine Lined.order (hgiven.join (e := .created r.nextThreadId n) ?_ rfl rfl ?_ ?_ ?_ ?_)
      · rfl
      · rfl
      · intro u hu
        have hun : u ≠ n := hne u (hq ▸ hu)
        simpa [State.emit, State.modifyThread, hun] using hgiven.ready u hu
      · simp [State.emit, State.modifyThread, hrecord, Thread.fresh]
      · simp [State.emit, State.modifyThread, hrecord, Thread.fresh]

/-- One turn of the stack loop. -/
theorem createLoop_inOrder {n : Tid} (hn : n ∉ s.readyQueue) {b : Build} (hb : b.policy = .fifo)
    (retries : Nat) (e : Env) : (createLoop b s n retries e).1.InOrder := by
  have hstack := h.stackPoolAlloc b e.stack
  have hq : (stackPoolAlloc b s e.stack).1.readyQueue = s.readyQueue :=
    congrArg (·.2.2.1) (stackPoolAlloc_lineup b s e.stack)
  unfold createLoop
  rcases halloc : stackPoolAlloc b s e.stack with ⟨r, _ | entry⟩
  · rw [halloc] at hstack
    have hback := hstack.reclaimDeferredStacksAll
    dsimp only
    split
    · exact ((hback.lined.threadObjRelease n).setErrno _).order
    · rw [hb]
      exact threadYield_inOrder (hback.setPoint _ _) _
  · rw [halloc] at hstack hq
    rw [hb]
    exact createThread_inOrder hstack.lined (fun hmem => hn (hq ▸ hmem)) entry e.slot

end Yield

/-! Every step. -/

/-- The thread to which the input asks to yield. -/
def Input.yieldTarget : Input → Option Tid
  | .call (.threadYieldTo t) _ => t
  | _ => none

/-- `thread_yield_to` finds its target ready and switches to it at once. -/
def DirectSwitch (s : State) (i : Input) : Prop :=
  ∃ t ∈ i.yieldTarget, (s.threads t).state = .ready

instance (s : State) (i : Input) : Decidable (DirectSwitch s i) :=
  inferInstanceAs (Decidable (∃ t ∈ i.yieldTarget, _))

section Step

variable {b : Build} {i : Input} {s s' : State} (hb : b.policy = .fifo) (h : Inv s)
  (hrun : s.running.state = .running) (ho : s.InOrder)
include hb h hrun ho

theorem threadCreate_inOrder (huser : s.running.point = .user) (newthread func : Bool) (e : Env)
    (hfresh : e.Fresh s) : (threadCreate b s newthread func e).1.InOrder := by
  have hc := h.queueing hrun ho
  unfold threadCreate
  split
  · exact (hc.lined.setErrno _).order
  obtain ⟨hm, hrun₁, huser₁, hheap, -⟩ := schedulerInit_moves (i := .go) h hrun huser e.mainSlot
  have h₁ := h.moves hm
  have hc₁ := hc.schedulerInit e.mainSlot
  have hstruct := hfresh.1
  rw [← hheap] at hstruct
  have hinit := schedulerInit_initialized (s := s) (e := e.mainSlot)
  generalize schedulerInit s e.mainSlot = init at hrun₁ huser₁ h₁ hc₁ hstruct hinit
  obtain ⟨s₁, ok⟩ := init
  cases ok with
  | false => exact (hc₁.lined.setErrno _).order
  | true =>
      cases halloc : (threadAlloc s₁ e.thread).2 with
      | none =>
          dsimp only
          rw [threadAlloc_none halloc]
          exact (hc₁.lined.setErrno _).order
      | some n =>
          obtain ⟨hm₂, hcur₂, -, hrec₂⟩ :=
            threadAlloc_moves (i := .go) hrun₁ huser₁ hstruct halloc (hinit rfl)
          have h₂ := h₁.moves hm₂
          have hc₂ := (hc₁.threadAlloc e.thread).setPoint s₁.currentThread (.create n 0)
          have hpair : threadAlloc s₁ e.thread = ((threadAlloc s₁ e.thread).1, some n) := by
            rw [← halloc]
          dsimp only
          rw [hpair]
          simp only [hcur₂]
          generalize (threadAlloc s₁ e.thread).1.setPoint s₁.currentThread (.create n 0) = s₂
            at h₂ hc₂ hrec₂
          have hpoint : s₂.running.point = .create n 0 := by rw [hrec₂]
          obtain ⟨hn, -, -⟩ := h₂.mem.held_fresh h₂.sched.current_mem
            (congrArg Point.held hpoint)
          have hout : n ∉ s₂.readyQueue := fun hmem => hn ((h₂.sched.ready.mem_iff n).mp hmem).1
          split
          · have hq : (reclaimDeferredStacksAll s₂).readyQueue = s₂.readyQueue :=
              congrArg (·.2.2.1) (reclaimDeferredStacksAll_lineup s₂)
            exact createLoop_inOrder hc₂.reclaimDeferredStacksAll (hq ▸ hout) hb 0 e
          · exact createLoop_inOrder hc₂ hout hb 0 e

theorem enter_inOrder (c : Call) (e : Env) (huser : s.running.point = .user) (hfresh : e.Fresh s)
    (hi : i = .call c e) (hvalid : ValidHandle s i) (hdirect : ¬ DirectSwitch s i) :
    (enter b s c e).1.InOrder := by
  have hl := h.lined ho
  have hc := h.queueing hrun ho
  subst hi
  unfold enter
  rw [hb]
  cases c with
  | threadCreate newthread func =>
      exact threadCreate_inOrder hb h hrun ho huser newthread func e hfresh
  | threadYield => exact threadYield_inOrder hc _
  | threadYieldTo target =>
      cases target with
      | none => exact (hl.setErrno _).order
      | some t =>
          have hready : (s.threads t).state ≠ .ready := fun hready => hdirect ⟨t, rfl, hready⟩
          simp only [threadYieldTo, hready, ne_eq, not_false_eq_true, if_true]
          exact threadYield_inOrder hc _
  | threadSetPriority target prio =>
      cases target with
      | none => exact ho
      | some t => exact (hl.modify (f := fun th => { th with priority := clampPriority prio })
          ⟨rfl, rfl⟩).order
  | threadExit retval => exact threadExit_inOrder h hrun ho retval
  | threadJoin t retval => exact threadJoin_inOrder h hrun ho t retval
  | threadMutexInit m =>
      cases m with
      | none => exact ho
      | some m => exact hl.object (e := .mutexSet m 0) rfl rfl rfl
  | threadMutexDestroy m =>
      unfold threadMutexDestroy
      dsimp only
      split
      · exact ho
      · split
        · exact ho
        · exact hl.object (e := .mutexSet _ (-1)) rfl rfl rfl
  | threadMutexLock m =>
      cases m with
      | none => exact ho
      | some m => exact mutexLock_inOrder h hrun ho m _
  | threadMutexUnlock m => exact threadMutexUnlock_inOrder h ho m
  | threadCondInit c =>
      cases c with
      | none => exact ho
      | some c => exact hl.object (e := .condSet c) rfl rfl rfl
  | threadCondDestroy c =>
      unfold threadCondDestroy
      dsimp only
      split
      · exact ho
      · split
        · exact ho
        · exact ho
  | threadCondWait c m => exact threadCondWait_inOrder h hrun ho c m
  | threadCondSignal c => exact threadCondSignal_inOrder h ho c
  | threadCondBroadcast c => exact threadCondBroadcast_inOrder h hrun ho c
  | threadSemInit sm v =>
      unfold threadSemInit
      dsimp only
      split
      · exact ho
      · split
        · exact ho
        · exact hl.object (e := .semSet _ v) rfl rfl rfl
  | threadSemDestroy sm =>
      unfold threadSemDestroy
      dsimp only
      split
      · exact ho
      · split
        · exact ho
        · exact hl.object (e := .semSet _ 0) rfl rfl rfl
  | threadSemWait sm => exact threadSemWait_inOrder h hrun ho sm
  | threadSemPost sm => exact threadSemPost_inOrder h ho sm
  | threadSignalSend t sig =>
      exact threadSignalSend_inOrder h ho t sig fun t' ht => hvalid t' (by rw [ht]; rfl)
  | threadSigwait set sig =>
      unfold threadSigwait
      dsimp only
      split
      · exact (hl.setErrno _).order
      · exact sigwaitLoop_inOrder h hrun ho set
  | guardPageFault =>
      dsimp only
      split
      · exact sigsegvHandler_inOrder h hrun ho
      · exact ho
  | exit => exact ho

theorem continueAt_inOrder (e : Env) (hs : continueAt b s e s.running.point = some s') :
    s'.InOrder := by
  have hl := h.lined ho
  cases hk : s.running.point with
  | user =>
      rw [hk] at hs
      cases hs
  | entry =>
      rw [hk] at hs
      cases hs
      exact (hl.setPoint _ _).order
  | yielded c =>
      rw [hk] at hs
      cases hs
      exact State.InOrder.finish (r := (s, some 0)) ho c
  | create n retries =>
      rw [hk] at hs
      cases hs
      obtain ⟨hn, -, -⟩ := h.mem.held_fresh h.sched.current_mem (congrArg Point.held hk)
      have hout : n ∉ s.readyQueue := fun hmem => hn ((h.sched.ready.mem_iff n).mp hmem).1
      exact (createLoop_inOrder (h.queueing hrun ho) hout hb retries e).finish _
  | join t retval =>
      rw [hk] at hs
      cases hs
      exact (joinResume_inOrder h hrun ho t retval).finish _
  | mutexLock m =>
      rw [hk] at hs
      cases hs
      exact State.InOrder.finish (r := (s, some 0)) ho _
  | condWait c m =>
      rw [hk] at hs
      cases hs
      exact (condRelock_inOrder h hrun ho c m 0).finish _
  | condRelock c m code =>
      rw [hk] at hs
      cases hs
      exact State.InOrder.finish (r := (s, some code)) ho _
  | semWait sm =>
      rw [hk] at hs
      cases hs
      exact State.InOrder.finish (r := (s, some 0)) ho _
  | sigwait set =>
      rw [hk] at hs
      cases hs
      exact (sigwaitLoop_inOrder h hrun ho set).finish _

end Step

/-- A step that does not switch directly keeps the line in order. -/
theorem State.InOrder.step {b : Build} {i : Input} {s s' : State} (hb : b.policy = .fifo)
    (h : Sound s) (ho : s.InOrder) (hg : Regular s i) (hdirect : ¬ DirectSwitch s i)
    (hs : UserThreads.step b s i = some s') : s'.InOrder := by
  have hrun := h.runs (ended_of_step hs)
  cases i with
  | call c e =>
      obtain ⟨huser, hfresh, rfl⟩ := step_call_fresh hs
      exact (enter_inOrder hb h.inv hrun ho c e huser hfresh rfl hg.1 hdirect).finish c
  | resume e =>
      exact continueAt_inOrder hb h.inv hrun ho e (step_resume hs)

end UserThreads
