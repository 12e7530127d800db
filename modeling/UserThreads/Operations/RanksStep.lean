import UserThreads.Operations.RanksYield

/-!
# Steps as shifts

`thread_create`, whose stack loop may yield, and with it every step of the library.
-/

namespace UserThreads

open Transition Relation Ranks

/-! Creation. -/

section Create

variable {p : Policy} {i : Input} {s : State}

theorem ranks_threadHeadRefAlloc (s : State) (owner : Tid) (e : SlotEnv) :
    (threadHeadRefAlloc s owner e).1.ranks = s.ranks ∧
      (threadHeadRefAlloc s owner e).1.currentThread = s.currentThread := by
  have hnew : (threadHeadRefAlloc.newChunk s owner e).1.ranks = s.ranks ∧
      (threadHeadRefAlloc.newChunk s owner e).1.currentThread = s.currentThread := by
    unfold threadHeadRefAlloc.newChunk
    split
    · exact ⟨rfl, rfl⟩
    · split
      · exact ⟨rfl, rfl⟩
      · exact ⟨rfl, rfl⟩
  unfold threadHeadRefAlloc
  split
  · split
    · exact ⟨rfl, rfl⟩
    · exact hnew
  · exact hnew

theorem ranks_fresh (n : Tid) (entry : StackEntry) :
    (s.modifyThread n fun th => th.fresh entry).ranks =
      s.ranks.setPriority n threadDefaultPriority := by
  refine ranks_eq rfl fun u => ?_
  by_cases hu : u = n
  · subst u
    simp [State.modifyThread, Ranks.setPriority, Thread.fresh]
  · rw [setPriority_of_ne _ hu]
    exact congrArg Thread.priority (Function.update_of_ne hu _ _)

/-- A new thread gets the default priority and a place in the queue. -/
theorem createThread_scheduled {n : Tid} (hout : n ∉ s.readyQueue) (entry : StackEntry)
    (e : SlotEnv) : Scheduled p i s (createThread p s n entry e) := by
  have hrank : ∀ d, Shifts p i d s.ranks (s.modifyThread n fun th => th.fresh entry).ranks := by
    intro d
    rw [ranks_fresh]
    exact .single (.rank n _ (by decide) fun _ => hout)
  obtain ⟨hslot, -⟩ := ranks_threadHeadRefAlloc (s.modifyThread n fun th => th.fresh entry) n e
  unfold Scheduled createThread
  dsimp only
  rcases halloc : threadHeadRefAlloc (s.modifyThread n fun th => th.fresh entry) n e with ⟨r, o⟩
  rw [halloc] at hslot
  cases o with
  | none =>
      refine (hrank _).trans (Shifts.of_eq ?_)
      simp [ranks_stackPoolPush, ranks_threadObjRelease, hslot]
  | some ref =>
      refine (hrank _).trans (Relation.ReflTransGen.trans (Shifts.of_eq ?_) (enqueue_shifts _ n))
      rw [← hslot]
      exact ranks_eq rfl fun u => proj_update Thread.priority (by rfl) u

theorem ranks_reclaim (budget : Nat) (s : State) :
    (reclaimDeferredStacksBatch budget s).ranks = s.ranks ∧
      (reclaimDeferredStacksBatch budget s).currentThread = s.currentThread ∧
      (reclaimDeferredStacksBatch budget s).threads = s.threads := by
  obtain ⟨-, pool, mappings, deferred, -, heq⟩ :=
    reclaimDeferredStacksBatch_moves (i := .go) budget s
  rw [heq]
  exact ⟨rfl, rfl, rfl⟩

theorem CanYield.congr {s' : State} (hc : CanYield s) (hq : s'.readyQueue = s.readyQueue)
    (hcur : s'.currentThread = s.currentThread) (hstate : s'.running.state = s.running.state)
    (hflag : s'.running.inReadyQueue = s.running.inReadyQueue) : CanYield s' :=
  ⟨hq ▸ hc.nodup, by rw [hq, hcur]; exact hc.out, hstate.trans hc.runs, hflag.trans hc.flag⟩

/-- A call that yields when it does not return. -/
structure YieldsOrReturns (p : Policy) (i : Input) (s : State) (r : State × Option Int) : Prop where
  yields : r.2 = none → Yielding p s.currentThread r.1.currentThread s.ranks r.1.ranks
  returns : r.2 ≠ none → Scheduled p i s r

theorem YieldsOrReturns.of_scheduled {r : State × Option Int} (h : Scheduled p i s r)
    (hr : r.2 ≠ none) : YieldsOrReturns p i s r :=
  ⟨fun hnone => absurd hnone hr, fun _ => h⟩

/-- One turn of the stack loop yields, or creates the thread, or gives up. -/
theorem createLoop_ranks (hc : CanYield s) {n : Tid} (hout : n ∉ s.readyQueue) (b : Build)
    (retries : Nat) (e : Env) : YieldsOrReturns b.policy i s (createLoop b s n retries e) := by
  have halloc : (stackPoolAlloc b s e.stack).1.ranks = s.ranks ∧
      (stackPoolAlloc b s e.stack).1.currentThread = s.currentThread ∧
      (stackPoolAlloc b s e.stack).1.threads = s.threads := by
    unfold stackPoolAlloc
    split
    · exact ⟨rfl, rfl, rfl⟩
    · split
      · exact ⟨rfl, rfl, rfl⟩
      · split
        · exact ⟨rfl, rfl, rfl⟩
        · exact ⟨rfl, rfl, rfl⟩
  unfold createLoop
  rcases hpair : stackPoolAlloc b s e.stack with ⟨r, o⟩
  rw [hpair] at halloc
  obtain ⟨hranks, hcur, hthreads⟩ := halloc
  cases o with
  | some entry =>
      have hqueue : r.readyQueue = s.readyQueue := congrArg Ranks.queue hranks
      have hcreate := createThread_scheduled (p := b.policy) (i := i) (s := r)
        (by rw [hqueue]; exact hout) entry e.slot
      unfold Scheduled at hcreate
      rw [hranks] at hcreate
      refine .of_scheduled hcreate ?_
      unfold createThread
      dsimp only
      split
      · simp
      · simp
  | none =>
      obtain ⟨hback, hcur', hthreads'⟩ := ranks_reclaim maxDeferredStacks r
      dsimp only
      split
      · refine .of_scheduled (.of_eq ?_) (by simp)
        rw [ranks_setErrno, ranks_threadObjRelease]
        exact hback.trans hranks
      · refine ⟨fun _ => ?_, fun hsome => absurd rfl hsome⟩
        have hback' : ∀ k, ((reclaimDeferredStacksAll r).setPoint
            (reclaimDeferredStacksAll r).currentThread k).ranks = s.ranks := fun k => by
          rw [ranks_setPoint]
          exact hback.trans hranks
        have hrecord : (reclaimDeferredStacksAll r).running = s.running := by
          unfold State.running reclaimDeferredStacksAll
          rw [hthreads', hcur', hthreads, hcur]
        have hcan : ∀ k, CanYield ((reclaimDeferredStacksAll r).setPoint
            (reclaimDeferredStacksAll r).currentThread k) := fun k => by
          refine hc.congr (congrArg Ranks.queue (hback' k)) (hcur'.trans hcur) ?_ ?_
          · rw [← hrecord]
            simp [State.running, State.setPoint, State.modifyThread]
          · rw [← hrecord]
            simp [State.running, State.setPoint, State.modifyThread]
        have hyield := threadYield_yielding (p := b.policy) (hcan (.create n (retries + 1)))
          (.create n (retries + 1))
        rw [hback'] at hyield
        have hcaller : ((reclaimDeferredStacksAll r).setPoint
            (reclaimDeferredStacksAll r).currentThread (.create n (retries + 1))).currentThread =
              s.currentThread := hcur'.trans hcur
        rw [hcaller] at hyield
        exact hyield

theorem ranks_schedulerInit (s : State) (e : SlotEnv) :
    (schedulerInit s e).1.ranks = s.ranks ∧
      (schedulerInit s e).1.currentThread = s.currentThread := by
  obtain ⟨hranks, hcur⟩ := ranks_threadHeadRefAlloc s mainThread e
  unfold schedulerInit
  split
  · exact ⟨rfl, rfl⟩
  · rcases halloc : threadHeadRefAlloc s mainThread e with ⟨r, o⟩
    rw [halloc] at hranks hcur
    cases o with
    | none =>
        refine ⟨Eq.trans ?_ hranks, hcur⟩
        exact ranks_eq rfl fun u => proj_update Thread.priority (by rfl) u
    | some ref =>
        refine ⟨Eq.trans ?_ hranks, hcur⟩
        exact ranks_eq rfl fun u => proj_update Thread.priority (by rfl) u

theorem ranks_threadAlloc (s : State) (a : Option Tid) :
    (threadAlloc s a).1.ranks = s.ranks ∧
      (threadAlloc s a).1.currentThread = s.currentThread := by
  unfold threadAlloc
  split
  · exact ⟨rfl, rfl⟩
  · split
    · exact ⟨rfl, rfl⟩
    · exact ⟨rfl, rfl⟩

/-- `thread_create` yields from its stack loop, or returns. -/
theorem threadCreate_ranks (h : Inv s) (hrun : s.running.state = .running)
    (huser : s.running.point = .user) (b : Build) (newthread func : Bool) (e : Env)
    (hfresh : e.Fresh s) : YieldsOrReturns b.policy i s (threadCreate b s newthread func e) := by
  unfold threadCreate
  split
  · exact .of_scheduled (.of_eq rfl) (by simp)
  obtain ⟨hm, hrun₁, huser₁, hheap, hmap⟩ := schedulerInit_moves (i := .go) h hrun huser e.mainSlot
  have h₁ := h.moves hm
  obtain ⟨hranks₁, hcur₁⟩ := ranks_schedulerInit s e.mainSlot
  have hstruct := hfresh.1
  rw [← hheap] at hstruct
  have hinit := schedulerInit_initialized (s := s) (e := e.mainSlot)
  generalize schedulerInit s e.mainSlot = init at hrun₁ huser₁ h₁ hranks₁ hcur₁ hstruct hinit
  obtain ⟨s₁, ok⟩ := init
  cases ok with
  | false => exact .of_scheduled (.of_eq hranks₁) (by simp)
  | true =>
      cases halloc : (threadAlloc s₁ e.thread).2 with
      | none =>
          dsimp only
          rw [threadAlloc_none halloc]
          exact .of_scheduled (.of_eq hranks₁) (by simp)
      | some n =>
          obtain ⟨hm₂, hcur₂, -, hrec₂⟩ :=
            threadAlloc_moves (i := .go) hrun₁ huser₁ hstruct halloc (hinit rfl)
          have h₂ := h₁.moves hm₂
          obtain ⟨hranks₂, -⟩ := ranks_threadAlloc s₁ e.thread
          have hpair : threadAlloc s₁ e.thread = ((threadAlloc s₁ e.thread).1, some n) := by
            rw [← halloc]
          dsimp only
          rw [hpair]
          simp only [hcur₂]
          generalize hs₂ : (threadAlloc s₁ e.thread).1.setPoint s₁.currentThread (.create n 0) = s₂
            at h₂ hrec₂
          have hranks : s₂.ranks = s.ranks := by
            rw [← hs₂, ranks_setPoint, hranks₂, hranks₁]
          have hcur : s₂.currentThread = s.currentThread := by
            rw [← hs₂]
            exact hcur₂.trans hcur₁
          -- Whether or not deferred stacks are reclaimed first.
          have hloop : ∀ s₃ : State, Inv s₃ → s₃.running = s₂.running → s₃.ranks = s₂.ranks →
              s₃.currentThread = s₂.currentThread →
              YieldsOrReturns b.policy i s (createLoop b s₃ n 0 e) := by
            intro s₃ h₃ hrec₃ hranks₃ hcur₃
            have hpoint₃ : s₃.running.point = .create n 0 := by rw [hrec₃, hrec₂]
            have hrun₃ : s₃.running.state = .running := by rw [hrec₃, hrec₂, ← hrun₁]
            obtain ⟨hn, -, -⟩ := h₃.mem.held_fresh h₃.sched.current_mem
              (congrArg Point.held hpoint₃)
            have hout : n ∉ s₃.readyQueue := fun hmem => hn ((h₃.sched.ready.mem_iff n).mp hmem).1
            obtain ⟨hyields, hreturns⟩ :=
              createLoop_ranks (i := i) (h₃.canYield hrun₃) hout b 0 e
            unfold Scheduled at hreturns
            rw [hcur₃, hranks₃, hcur, hranks] at hyields
            rw [hranks₃, hranks] at hreturns
            exact ⟨hyields, hreturns⟩
          split
          · obtain ⟨hback, hcur', hthreads'⟩ := ranks_reclaim maxDeferredStacks s₂
            have hmoves := (reclaimDeferredStacksBatch_moves (i := .go) maxDeferredStacks s₂).1
            refine hloop _ (h₂.moves hmoves) ?_ hback hcur'
            unfold State.running reclaimDeferredStacksAll
            rw [hthreads', hcur']
          · exact hloop s₂ h₂ rfl rfl rfl

end Create

/-! Every step. -/

/-- The step executes `thread_yield`: called by the user, as the fallback of
`thread_yield_to`, or from the stack loop of `thread_create`. -/
def executesYield (b : Build) (s : State) : Input → Bool
  | .call .threadYield _ => true
  | .call (.threadYieldTo (some t)) _ => decide ((s.threads t).state ≠ .ready)
  | .call (.threadCreate newthread func) e => (threadCreate b s newthread func e).2.isNone
  | .resume e =>
      match s.running.point with
      | .create n retries => (createLoop b s n retries e).2.isNone
      | _ => false
  | _ => false

/-- What a step does to the ready queue and the priorities. -/
structure StepRanks (b : Build) (s : State) (i : Input) (s' : State) : Prop where
  yields : executesYield b s i = true →
    Yielding b.policy s.currentThread s'.currentThread s.ranks s'.ranks
  shifts : executesYield b s i = false → Shifts b.policy i s'.currentThread s.ranks s'.ranks

namespace StepRanks

variable {b : Build} {i : Input} {s s' : State} {r : State × Option Int}

theorem of_scheduled (h : Scheduled b.policy i s r) (hi : executesYield b s i = false) (c : Call) :
    StepRanks b s i (finish c r) := by
  obtain ⟨hranks, hcur⟩ := ranks_finish c r
  refine ⟨fun hyield => ?_, fun _ => ?_⟩
  · rw [hi] at hyield
    cases hyield
  · rw [hranks, hcur]
    exact h

theorem of_yielding (h : Yielding b.policy s.currentThread r.1.currentThread s.ranks r.1.ranks)
    (hi : executesYield b s i = true) (c : Call) : StepRanks b s i (finish c r) := by
  obtain ⟨hranks, hcur⟩ := ranks_finish c r
  refine ⟨fun _ => ?_, fun hno => ?_⟩
  · rw [hranks, hcur]
    exact h
  · rw [hi] at hno
    cases hno

theorem of_yieldsOrReturns (h : YieldsOrReturns b.policy i s r)
    (hi : executesYield b s i = r.2.isNone) (c : Call) : StepRanks b s i (finish c r) := by
  cases hr : r.2 with
  | none => exact of_yielding (h.yields hr) (by rw [hi, hr]; rfl) c
  | some code => exact of_scheduled (h.returns (by simp [hr])) (by rw [hi, hr]; rfl) c

end StepRanks

section Step

variable {b : Build} {i : Input} {s s' : State} (h : Inv s) (hrun : s.running.state = .running)
include h hrun

theorem enter_ranks (c : Call) (e : Env) (huser : s.running.point = .user) (hfresh : e.Fresh s)
    (hi : i = .call c e) : StepRanks b s i (finish c (enter b s c e)) := by
  subst hi
  cases c with
  | threadCreate newthread func =>
      exact .of_yieldsOrReturns (threadCreate_ranks h hrun huser b newthread func e hfresh) rfl _
  | threadYield => exact .of_yielding (threadYield_yielding (h.canYield hrun) _) rfl _
  | threadYieldTo target =>
      cases target with
      | none => exact .of_scheduled (s := s) (.of_eq rfl) rfl _
      | some t =>
          by_cases hready : (s.threads t).state = .ready
          · refine .of_scheduled (yieldTo_scheduled hready _) ?_ _
            simp [executesYield, hready]
          · have hyield : enter b s (.threadYieldTo (some t)) e =
                threadYield b.policy s (.yielded (.threadYieldTo (some t))) := by
              simp [enter, threadYieldTo, hready]
            rw [hyield]
            refine .of_yielding (threadYield_yielding (h.canYield hrun) _) ?_ _
            simp [executesYield, hready]
  | threadSetPriority t prio =>
      cases t with
      | none => exact .of_scheduled (s := s) (.of_eq rfl) rfl _
      | some t => exact .of_scheduled (threadSetPriority_scheduled h rfl prio _) rfl _
  | threadExit retval =>
      refine .of_scheduled (s := s) ?_ rfl _
      exact threadExit_shifts s retval
  | threadJoin t retval => exact .of_scheduled (threadJoin_scheduled s t retval) rfl _
  | threadMutexInit m => exact .of_scheduled (.of_eq (ranks_threadMutexInit s m)) rfl _
  | threadMutexDestroy m => exact .of_scheduled (.of_eq (ranks_threadMutexDestroy s m)) rfl _
  | threadMutexLock m =>
      cases m with
      | none => exact .of_scheduled (s := s) (.of_eq rfl) rfl _
      | some m => exact .of_scheduled (mutexLock_scheduled s m _) rfl _
  | threadMutexUnlock m => exact .of_scheduled (threadMutexUnlock_scheduled s m) rfl _
  | threadCondInit c => exact .of_scheduled (.of_eq (ranks_threadCondInit s c)) rfl _
  | threadCondDestroy c => exact .of_scheduled (.of_eq (ranks_threadCondDestroy s c)) rfl _
  | threadCondWait c m => exact .of_scheduled (threadCondWait_scheduled s c m) rfl _
  | threadCondSignal c =>
      cases c with
      | none => exact .of_scheduled (s := s) (.of_eq rfl) rfl _
      | some c =>
          refine .of_scheduled (s := s) ?_ rfl _
          exact wakeFirst_shifts s (.cond c)
  | threadCondBroadcast c =>
      cases c with
      | none => exact .of_scheduled (s := s) (.of_eq rfl) rfl _
      | some c =>
          refine .of_scheduled (s := s) ?_ rfl _
          exact wakeAll_shifts (.cond c) _ s
  | threadSemInit sm value => exact .of_scheduled (.of_eq (ranks_threadSemInit s sm value)) rfl _
  | threadSemDestroy sm => exact .of_scheduled (.of_eq (ranks_threadSemDestroy s sm)) rfl _
  | threadSemWait sm => exact .of_scheduled (threadSemWait_scheduled s sm) rfl _
  | threadSemPost sm => exact .of_scheduled (threadSemPost_scheduled s sm) rfl _
  | threadSignalSend t sig => exact .of_scheduled (threadSignalSend_scheduled s t sig) rfl _
  | threadSigwait set sig => exact .of_scheduled (threadSigwait_scheduled s set sig) rfl _
  | guardPageFault =>
      refine .of_scheduled (s := s) ?_ rfl _
      simp only [enter]
      split
      · exact sigsegvHandler_shifts s
      · exact .of_eq rfl
  | exit => exact .of_scheduled (s := s) (.of_eq rfl) rfl _

theorem continueAt_ranks (e : Env) (hi : i = .resume e)
    (hs : continueAt b s e s.running.point = some s') : StepRanks b s i s' := by
  subst hi
  have hreturn : ∀ c code, executesYield b s (.resume e) = false →
      StepRanks b s (.resume e) (finish c (s, some code)) := fun c code hno =>
    .of_scheduled (s := s) (.of_eq rfl) hno c
  cases hk : s.running.point with
  | user =>
      rw [hk] at hs
      cases hs
  | entry =>
      rw [hk] at hs
      cases hs
      refine ⟨fun hyield => ?_, fun _ => Shifts.of_eq (ranks_setPoint _ _)⟩
      simp [executesYield, hk] at hyield
  | yielded c =>
      rw [hk] at hs
      cases hs
      exact hreturn c 0 (by simp [executesYield, hk])
  | create n retries =>
      rw [hk] at hs
      cases hs
      obtain ⟨hn, -, -⟩ := h.mem.held_fresh h.sched.current_mem (congrArg Point.held hk)
      have hout : n ∉ s.readyQueue := fun hmem => hn ((h.sched.ready.mem_iff n).mp hmem).1
      refine .of_yieldsOrReturns (createLoop_ranks (h.canYield hrun) hout b retries e) ?_ _
      simp [executesYield, hk]
  | join target retval =>
      rw [hk] at hs
      cases hs
      exact .of_scheduled (joinResume_scheduled s target retval) (by simp [executesYield, hk]) _
  | mutexLock m =>
      rw [hk] at hs
      cases hs
      exact hreturn _ 0 (by simp [executesYield, hk])
  | condWait c m =>
      rw [hk] at hs
      cases hs
      exact .of_scheduled (condRelock_scheduled s c m 0) (by simp [executesYield, hk]) _
  | condRelock c m code =>
      rw [hk] at hs
      cases hs
      exact hreturn _ code (by simp [executesYield, hk])
  | semWait sm =>
      rw [hk] at hs
      cases hs
      exact hreturn _ 0 (by simp [executesYield, hk])
  | sigwait set =>
      rw [hk] at hs
      cases hs
      exact .of_scheduled (sigwaitLoop_scheduled s set) (by simp [executesYield, hk]) _

end Step

/-- Every step is a yield, or a sequence of shifts. -/
theorem step_ranks {b : Build} {s s' : State} {i : Input} (h : Sound s)
    (hs : step b s i = some s') : StepRanks b s i s' := by
  have hrun := h.runs (ended_of_step hs)
  cases i with
  | call c e =>
      obtain ⟨huser, hfresh, rfl⟩ := step_call_fresh hs
      exact enter_ranks h.inv hrun c e huser hfresh rfl
  | resume e => exact continueAt_ranks h.inv hrun e rfl (step_resume hs)

end UserThreads
