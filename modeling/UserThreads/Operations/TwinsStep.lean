import UserThreads.Operations.TwinsCreate

/-!
# Steps of twins

Exits and joins, and with them every step and every run.
-/

namespace UserThreads

open Transition

namespace Twins

variable {past past' : List Event} {s s' : State}

theorem zombieAdd (h : Twins past past' s s') (t : Tid) :
    Twins past past' (threadZombieAdd s t) (threadZombieAdd s' t) :=
  h.map (threadZombieAdd · t) (fun _ _ _ => rfl) fun _ => rfl

/-- Whether a dying thread becomes a zombie is decided by the record of its joiner. -/
theorem exitZombie (h : Twins past past' s s') (dying : Tid) :
    Twins past past' (UserThreads.exitZombie s dying) (UserThreads.exitZombie s' dying) := by
  have hdeferred := h.deferStack dying
  unfold UserThreads.exitZombie
  split
  · exact h
  · dsimp only
    rw [hdeferred.threads]
    split
    · exact hdeferred.zombieAdd dying
    · split
      · exact hdeferred.zombieAdd dying
      · exact hdeferred

/-- The joiner is read off the record of the dying thread. -/
theorem exitWake (h : Twins past past' s s') (p : Policy) (dying : Tid) :
    Twins past past' (UserThreads.exitWake p s dying) (UserThreads.exitWake p s' dying) := by
  unfold UserThreads.exitWake
  rw [h.threads]
  split
  · exact h
  · exact (h.setState _ _ _).enqueue p _

theorem finalCleanup (h : Twins past past' s s') :
    Twins past past' { s with ended := true } { s' with ended := true } :=
  h.map ({ · with ended := true }) (fun _ _ _ => rfl) fun _ => rfl

/-- `thread_exit` ends the process in both, or in neither. -/
theorem exit (h : Twins past past' s s') (p : Policy) (retval : Value) :
    Twins past past' (threadExit p s retval) (threadExit p s' retval) := by
  have hleft := ((((h.modifyThread s.currentThread fun th => { th with retval := retval }).emit
    (.exited s.self retval)).setState s.currentThread .terminated none).exitZombie
      s.currentThread).exitWake p s.currentThread
  unfold threadExit
  simp only [h.currentThread, h.self]
  rcases hleft.pickNext with ⟨hnone, hnone'⟩ | ⟨next, r, r', hsome, hsome', hr⟩
  · simp only [hnone, hnone']
    exact hleft.finalCleanup
  · simp only [hsome, hsome']
    refine Twins.setState ?_ _ _ _
    exact hr.map ({ · with currentThread := next }) (fun _ _ _ => rfl) fun _ => rfl

/-- The handler looks at the stack of the running thread. -/
theorem fault (h : Twins past past' s s') (p : Policy) :
    Twins past past' (sigsegvHandler p s) (sigsegvHandler p s') := by
  have hflagged := (h.modifyThread s.currentThread fun th =>
    { th with stackOverflow := true }).exit p 0
  have hmap : (s'.threads s'.currentThread).stackMap = (s.threads s.currentThread).stackMap := by
    rw [h.threads, h.currentThread]
  rw [← h.currentThread] at hflagged
  unfold sigsegvHandler
  rw [hmap]
  split
  · exact h.finalCleanup
  · rw [h.currentThread] at hflagged ⊢
    exact hflagged

/-- The stack a terminated target still has goes to the pool. -/
theorem recycle (h : Twins past past' s s') (t : Tid) :
    Twins past past'
      (match (s.threads t).stackMap with
        | none => s
        | some map => stackPoolPush s
            { map := map, stack := (s.threads t).stackBase
              valgrindId := (s.threads t).valgrindStackId })
      (match (s.threads t).stackMap with
        | none => s'
        | some map => stackPoolPush s'
            { map := map, stack := (s.threads t).stackBase
              valgrindId := (s.threads t).valgrindStackId }) := by
  split
  · exact h
  · exact h.push _

/-- The target of a join is released. -/
theorem claim (h : Twins past past' s s') (t : Tid) :
    Twins past past' (claimTarget s t) (claimTarget s' t) := by
  have hforget : ∀ {r r' : State}, Twins past past' r r' →
      Twins past past' { r with handles := r.handles.erase t }
        { r' with handles := r'.handles.erase t } := fun hr =>
    hr.map (fun r => { r with handles := r.handles.erase t }) (fun _ _ _ => rfl) fun _ => rfl
  unfold claimTarget
  apply hforget
  split
  · exact h
  · have hremoved := h.zombieRemove t
    dsimp only
    rw [hremoved.threads]
    exact (hremoved.recycle t).release t

theorem storedRetval_eq (h : Twins past past' s s') (t : Tid) (retval : Bool) :
    storedRetval s' t retval = storedRetval s t retval := by
  unfold storedRetval
  rw [h.threads]

/-- The switch of a join, or its way out when no thread is ready. -/
theorem joinSwitch (h : Twins past past' s s') (target : Tid) (retval : Bool) (prev : Tid) :
    TwinResults past past'
      (match threadSchedulerPickNext s with
        | none => (((s.setState prev .running none).modifyThread prev fun th =>
            { th with waitingFor := none }).setErrno .edeadlk, some edeadlk)
        | some (next, s) => (swapThread s prev next (.join target retval), none))
      (match threadSchedulerPickNext s' with
        | none => (((s'.setState prev .running none).modifyThread prev fun th =>
            { th with waitingFor := none }).setErrno .edeadlk, some edeadlk)
        | some (next, s) => (swapThread s prev next (.join target retval), none)) := by
  rcases h.pickNext with ⟨hnone, hnone'⟩ | ⟨next, r, r', hsome, hsome', hr⟩
  · simp only [hnone, hnone']
    exact ⟨((h.setState _ _ _).modifyThread _ _).setErrno _, rfl⟩
  · simp only [hsome, hsome']
    exact ⟨hr.swap _ _ _, rfl⟩

/-- A join writes its marks before it looks for a ready thread. -/
theorem joinBlock (h : Twins past past' s s') (target : Tid) (slot : SlotRef) (retval : Bool) :
    TwinResults past past' (UserThreads.joinBlock s target slot retval)
      (UserThreads.joinBlock s' target slot retval) := by
  have hmarked := (h.modifyThread target fun th =>
    { th with joinedBy := some s.currentThread }).modifyThread s.currentThread fun th =>
      { th with headJoiner := some slot }
  unfold UserThreads.joinBlock
  rw [h.currentThread, h.headRefs]
  by_cases hhead : s.headRefs slot = target
  · have hmerged := hmarked.map
      (fun r => { r with headRefs := Function.update r.headRefs slot s.currentThread })
      (fun _ _ _ => rfl) fun _ => rfl
    simp only [hhead, if_true]
    exact ((hmerged.setState s.currentThread .blocked none).modifyThread s.currentThread
      fun th => { th with waitingFor := some target }).joinSwitch target retval _
  · simp only [hhead, if_false]
    exact ((hmarked.setState s.currentThread .blocked none).modifyThread s.currentThread
      fun th => { th with waitingFor := some target }).joinSwitch target retval _

/-- All the checks of `thread_join` are on records and slots. -/
theorem join (h : Twins past past' s s') (t : Option Tid) (retval : Bool) :
    TwinResults past past' (threadJoin s t retval) (threadJoin s' t retval) := by
  unfold threadJoin
  cases t with
  | none => exact ⟨h.setErrno _, rfl⟩
  | some t =>
      simp only [h.threads, h.currentThread, h.headRefs]
      split
      · exact ⟨h.setErrno _, rfl⟩
      · split
        · exact ⟨h.setErrno _, rfl⟩
        · split
          · unfold joinTerminated
            rw [h.threads, h.storedRetval_eq]
            exact ⟨(h.claim t).emit _, rfl⟩
          · split
            · split
              · exact ⟨h.setErrno _, rfl⟩
              · exact h.joinBlock t _ retval
            · exact ⟨h.setErrno _, rfl⟩

/-- The end of a join reads the record of the target. -/
theorem joinResume (h : Twins past past' s s') (t : Tid) (retval : Bool) :
    TwinResults past past' (UserThreads.joinResume s t retval)
      (UserThreads.joinResume s' t retval) := by
  have hback := (h.modifyThread s.currentThread fun th =>
    { th with waitingFor := none }).setState s.currentThread .running none
  unfold UserThreads.joinResume
  simp only [h.currentThread, hback.threads, hback.storedRetval_eq]
  split
  · exact ⟨((hback.claim t).setErrno _).emit _, rfl⟩
  · exact ⟨(hback.claim t).emit _, rfl⟩

/-- Both return to user code with the same code, or neither does. -/
theorem finish {r r' : State × Option Int} (h : TwinResults past past' r r') (c : Call) :
    Twins past past' (UserThreads.finish c r) (UserThreads.finish c r') := by
  obtain ⟨r, o⟩ := r
  obtain ⟨r', o'⟩ := r'
  obtain ⟨htwins, rfl : o = o'⟩ := h
  cases o with
  | none => exact htwins
  | some code =>
      have hself := Twins.self htwins
      have hcurrent := Twins.currentThread htwins
      unfold UserThreads.finish
      dsimp only at hself hcurrent ⊢
      rw [hself, hcurrent]
      exact (Twins.emit htwins _).setPoint _ _

/-- Every call does the same in both. -/
theorem enter (h : Twins past past' s s') (b : Build) (c : Call) (e : Env) :
    TwinResults past past' (UserThreads.enter b s c e) (UserThreads.enter b s' c e) := by
  cases c with
  | threadCreate newthread func => exact h.create b newthread func e
  | threadYield => exact h.yield b.policy _
  | threadYieldTo target => exact h.yieldTo b.policy target _
  | threadSetPriority t prio => exact h.setPriority b.policy t prio _
  | threadExit retval => exact ⟨h.exit b.policy retval, rfl⟩
  | threadJoin t retval => exact h.join t retval
  | threadMutexInit m => exact h.mutexInit m
  | threadMutexDestroy m => exact h.mutexDestroy m
  | threadMutexLock m => exact h.lock m
  | threadMutexUnlock m => exact h.unlock b.policy m
  | threadCondInit c => exact h.condInit c
  | threadCondDestroy c => exact h.condDestroy c
  | threadCondWait c m => exact h.condWait b.policy c m
  | threadCondSignal c => exact h.condSignal b.policy c
  | threadCondBroadcast c => exact h.condBroadcast b.policy c
  | threadSemInit sm value => exact h.semInit sm value
  | threadSemDestroy sm => exact h.semDestroy sm
  | threadSemWait sm => exact h.semWait sm
  | threadSemPost sm => exact h.semPost b.policy sm
  | threadSignalSend t sig => exact h.signalSend b.policy t sig
  | threadSigwait set sig => exact h.sigwait set sig
  | guardPageFault =>
      simp only [UserThreads.enter]
      split
      · exact ⟨h.fault b.policy, rfl⟩
      · exact ⟨h.finalCleanup, rfl⟩
  | exit => exact ⟨h.finalCleanup, rfl⟩

/-- So does the code after every switch. -/
theorem continueAt (h : Twins past past' s s') (b : Build) (e : Env) (k : Point) :
    UserThreads.continueAt b s e k = none ∧ UserThreads.continueAt b s' e k = none ∨
      ∃ r r', UserThreads.continueAt b s e k = some r ∧ UserThreads.continueAt b s' e k = some r' ∧
        Twins past past' r r' := by
  have hreturn : ∀ c code, Twins past past' (UserThreads.finish c (s, some code))
      (UserThreads.finish c (s', some code)) := fun c code => by
    apply Twins.finish
    exact ⟨h, rfl⟩
  cases k with
  | user => exact Or.inl ⟨rfl, rfl⟩
  | entry =>
      refine Or.inr ⟨_, _, rfl, rfl, ?_⟩
      rw [h.currentThread]
      exact h.setPoint _ _
  | yielded c => exact Or.inr ⟨_, _, rfl, rfl, hreturn c 0⟩
  | create newth retries =>
      exact Or.inr ⟨_, _, rfl, rfl, Twins.finish (h.createLoop b newth retries e) _⟩
  | join target retval => exact Or.inr ⟨_, _, rfl, rfl, Twins.finish (h.joinResume target retval) _⟩
  | mutexLock m => exact Or.inr ⟨_, _, rfl, rfl, hreturn _ 0⟩
  | condWait c m => exact Or.inr ⟨_, _, rfl, rfl, Twins.finish (h.condRelock c m 0) _⟩
  | condRelock c m code => exact Or.inr ⟨_, _, rfl, rfl, hreturn _ code⟩
  | semWait sm => exact Or.inr ⟨_, _, rfl, rfl, hreturn _ 0⟩
  | sigwait set => exact Or.inr ⟨_, _, rfl, rfl, Twins.finish (h.sigwaitLoop set) _⟩

/-- The environment is as fresh for one as for the other. -/
theorem fresh_iff (h : Twins past past' s s') (e : Env) : e.Fresh s' ↔ e.Fresh s := by
  obtain ⟨new, _, -, rfl⟩ := h
  exact Iff.rfl

/-- One step from twins: refused to both, or taken by both. -/
theorem step (h : Twins past past' s s') (b : Build) (i : Input) :
    UserThreads.step b s i = none ∧ UserThreads.step b s' i = none ∨
      ∃ r r', UserThreads.step b s i = some r ∧ UserThreads.step b s' i = some r' ∧
        Twins past past' r r' := by
  have hended : s'.ended = s.ended := by
    obtain ⟨new, _, -, rfl⟩ := h
    rfl
  unfold UserThreads.step
  rw [hended]
  split
  · exact Or.inl ⟨rfl, rfl⟩
  · cases i with
    | call c e =>
        simp only [h.threads, h.currentThread, h.fresh_iff]
        split
        · exact Or.inr ⟨_, _, rfl, rfl, Twins.finish (h.enter b c e) c⟩
        · exact Or.inl ⟨rfl, rfl⟩
    | resume e =>
        simp only [h.threads, h.currentThread, h.fresh_iff]
        split
        · exact h.continueAt b e _
        · exact Or.inl ⟨rfl, rfl⟩

/-- Whole runs from twins: every list of inputs is refused to both, or takes
both to twins again. -/
theorem run (h : Twins past past' s s') (b : Build) (inputs : List Input) :
    runSteps b s inputs = none ∧ runSteps b s' inputs = none ∨
      ∃ r r', runSteps b s inputs = some r ∧ runSteps b s' inputs = some r' ∧
        Twins past past' r r' := by
  induction inputs generalizing s s' with
  | nil => exact Or.inr ⟨s, s', rfl, rfl, h⟩
  | cons i rest ih =>
      unfold runSteps
      rcases h.step b i with ⟨hnone, hnone'⟩ | ⟨r, r', hsome, hsome', hr⟩
      · rw [hnone, hnone']
        exact Or.inl ⟨rfl, rfl⟩
      · rw [hsome, hsome']
        exact ih hr

end Twins

end UserThreads
