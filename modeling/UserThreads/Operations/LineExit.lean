import UserThreads.Operations.Line

/-!
# Signals, exits and joins in line

A signal and an exit may let a thread join the line, and a join serves its head.
-/

namespace UserThreads

open Transition

/-! Signals, termination and joining. -/

section Exit

variable {s : State} (h : Inv s) (hrun : s.running.state = .running) (ho : s.InOrder)
include h hrun ho

omit hrun in
/-- A waiter that a signal wakes joins the end of the line. -/
theorem threadSignalSend_inOrder (target : Option Tid) (sig : Int)
    (ht : ∀ t, target = some t → t ∈ s.handles) :
    (threadSignalSend .fifo s target sig).1.InOrder := by
  have hl := h.lined ho
  unfold threadSignalSend
  split
  · exact (hl.setErrno _).order
  next t =>
    dsimp only
    split
    · exact (hl.setErrno _).order
    · have hsent : Lined [] ((s.modifyThread t fun th =>
          { th with pendingSignals := th.pendingSignals ||| threadSignalBit sig }).emit
            (.signalSent (s.threads t).id sig)) :=
        (hl.modify (by exact ⟨rfl, rfl⟩)).emit rfl rfl
      split
      next hwake =>
        have hb : (s.threads t).state = .blocked := by
          simpa [State.emit, State.modifyThread] using hwake.1
        have hflag := h.flag_false (ht t rfl) (by simp [hb])
        refine (Lined.enqueue (hsent.modify ?_) ?_ _).order
        · exact ⟨rfl, rfl⟩
        · simpa [State.emit, State.modifyThread] using hflag
      next => exact hsent.order

/-- A thread that starts to wait for a signal is served by the head of the line. -/
theorem sigwaitLoop_inOrder (set : BitVec 32) : (sigwaitLoop s set).1.InOrder := by
  have hl := h.lined ho
  unfold sigwaitLoop
  dsimp only
  split
  · split
    · exact (hl.setErrno _).order
    · refine (Lined.emit (hl.modify ?_) rfl rfl).order
      exact ⟨rfl, rfl⟩
  · have hwaits : Lined [] (s.modifyThread s.currentThread fun th =>
        { th with waitingForSignal := true, waitedSignals := set }) := hl.modify ⟨rfl, rfl⟩
    have hstate : ((s.modifyThread s.currentThread fun th =>
        { th with waitingForSignal := true, waitedSignals := set }).threads
          s.currentThread).state = .running := by
      simpa [State.modifyThread, State.running] using hrun
    have hblocked : Lined [] ((s.modifyThread s.currentThread fun th =>
        { th with waitingForSignal := true, waitedSignals := set }).setState s.currentThread
          .blocked none) := hwaits.setState (by simp [hstate]) (by simp) none
    cases hq : s.readyQueue with
    | nil =>
        rw [threadSchedulerPickNext_nil (by exact hq)]
        refine (Lined.setErrno (Lined.setState (hblocked.modify ?_) ?_ (by simp) none) _).order
        · exact ⟨rfl, rfl⟩
        · simp [State.setState, State.emit, State.modifyThread]
    | cons next rest =>
        rw [threadSchedulerPickNext_cons (by exact hq)]
        exact (hblocked.picked hq).swap _ _

/-- The joiner that an exit wakes joins the line before its head is served. -/
theorem threadExit_inOrder (retval : Value) : (threadExit .fifo s retval).InOrder := by
  have hl := h.lined ho
  have hrec : Lined [] ((s.modifyThread s.currentThread fun th => { th with retval := retval }).emit
      (.exited s.self retval)) := (hl.modify (by exact ⟨rfl, rfl⟩)).emit rfl rfl
  have hdead : Lined [] (s.terminate retval) := by
    rw [← terminate_eq]
    refine hrec.setState ?_ (by simp) none
    have hr : (s.threads s.currentThread).state = .running := hrun
    simp [State.emit, State.modifyThread, hr]
  obtain ⟨map, base, flag, deferred, zombies, heq⟩ :=
    exitZombie_frame (s.terminate retval) s.currentThread
  have hzombie : Lined [] (exitZombie (s.terminate retval) s.currentThread) := by
    rw [heq]
    exact hdead.quiet rfl rfl fun u _ =>
      ⟨proj_update Thread.id (by rfl) u, proj_update Thread.state (by rfl) u⟩
  have hwake : Lined [] (exitWake .fifo (exitZombie (s.terminate retval) s.currentThread)
      s.currentThread) := by
    unfold exitWake
    split
    next => exact hzombie
    next j hj =>
      rw [heq] at hj
      obtain ⟨hmem, hb, hne⟩ := h.joiner_blocked hrun (j := j)
        (by simpa [State.terminate, State.running] using hj)
      refine hzombie.enqueue ?_ _
      rw [heq]
      simpa [State.terminate, hne] using h.flag_false hmem (by simp [hb])
  unfold threadExit
  simp only [terminate_eq]
  generalize exitWake .fifo (exitZombie (s.terminate retval) s.currentThread) s.currentThread = r
    at hwake
  by_cases hq : r.readyQueue = []
  · rw [threadSchedulerPickNext_nil hq]
    exact hwake.order
  · obtain ⟨next, rest, hq⟩ := List.exists_cons_of_ne_nil hq
    rw [threadSchedulerPickNext_cons hq]
    exact (hwake.picked hq).dispatch

/-- A stack overflow ends the thread as an exit does. -/
theorem sigsegvHandler_inOrder : (sigsegvHandler .fifo s).InOrder := by
  unfold sigsegvHandler
  split
  · exact ho
  · have hover : Move .go s (s.modifyThread s.currentThread fun th =>
        { th with stackOverflow := true }) := .overflow hrun
    refine threadExit_inOrder (h.move hover) ?_ ((h.lined ho).modify ⟨rfl, rfl⟩).order 0
    simpa [State.running, State.modifyThread] using hrun

omit h hrun ho in
theorem Lined.threadObjRelease {called : List Tid} (hl : Lined called s) (t : Tid) :
    Lined called (threadObjRelease s t) := by
  unfold UserThreads.threadObjRelease
  split
  · exact hl
  · rw [threadFree_eq]
    exact (hl.modify (t := t) (f := fun th => { th with headJoiner := none })
      ⟨rfl, rfl⟩).globals rfl

omit h hrun ho in
theorem Lined.claimTarget (hl : Lined [] s) (t : Tid) : Lined [] (claimTarget s t) := by
  obtain ⟨queue, hremove⟩ := threadZombieRemove_frame s t
  have hremoved : Lined [] (threadZombieRemove s t) := by
    rw [hremove]
    exact hl.quiet rfl rfl fun u _ =>
      ⟨proj_update Thread.id (by rfl) u, proj_update Thread.state (by rfl) u⟩
  have hpush : ∀ r entry, Lined [] r → Lined [] (stackPoolPush r entry) := by
    intro r entry hr
    rw [stackPoolPush_eq]
    exact hr.globals rfl
  have hforget : ∀ r : State, Lined [] r → Lined [] { r with handles := r.handles.erase t } :=
    fun r hr => hr.globals rfl
  unfold UserThreads.claimTarget
  apply hforget
  split
  · exact hl
  · apply Lined.threadObjRelease
    split
    · exact hremoved
    · exact hpush _ _ hremoved

omit hrun in
theorem joinTerminated_inOrder (t : Tid) (retval : Bool) :
    (joinTerminated s t retval).1.InOrder :=
  (((h.lined ho).claimTarget t).emit rfl rfl).order

/-- A join that blocks lets the head of the line run. -/
theorem joinBlock_inOrder (t : Tid) (slot : SlotRef) (retval : Bool) :
    (joinBlock s t slot retval).1.InOrder := by
  have hl := h.lined ho
  unfold joinBlock
  extract_lets prev targetIsHead s₁ s₂ s₃ s₄
  have hnamed : Lined [] s₂ := by
    refine Lined.modify (hl.modify ?_) ?_
    · exact ⟨rfl, rfl⟩
    · exact ⟨rfl, rfl⟩
  have hhead : Lined [] s₃ := by
    unfold s₃
    split
    · exact hnamed.globals rfl
    · exact hnamed
  have hthreads : s₃.threads = s₂.threads := by
    unfold s₃
    split
    · rfl
    · rfl
  have hstate : (s₃.threads prev).state = .running := by
    rw [hthreads, ← hrun]
    have htarget : (s₁.threads prev).state = (s.threads prev).state :=
      proj_update Thread.state (by rfl) prev
    exact (proj_update Thread.state (by rfl) prev).trans htarget
  have hblocked : Lined [] s₄ := by
    refine Lined.modify (hhead.setState ?_ (by simp) none) ?_
    · simp [hstate]
    · exact ⟨rfl, rfl⟩
  by_cases hq : s₄.readyQueue = []
  · rw [threadSchedulerPickNext_nil hq]
    refine (Lined.setErrno (Lined.modify (hblocked.setState ?_ (by simp) none) ?_) _).order
    · simp [s₄, State.setState, State.emit, State.modifyThread]
    · exact ⟨rfl, rfl⟩
  · obtain ⟨next, rest, hq⟩ := List.exists_cons_of_ne_nil hq
    rw [threadSchedulerPickNext_cons hq]
    exact (hblocked.picked hq).swap _ _

theorem threadJoin_inOrder (target : Option Tid) (retval : Bool) :
    (threadJoin s target retval).1.InOrder := by
  have hl := h.lined ho
  unfold threadJoin
  split
  · exact (hl.setErrno _).order
  next t =>
    split
    · exact (hl.setErrno _).order
    · split
      · exact (hl.setErrno _).order
      · split
        · exact joinTerminated_inOrder h ho t retval
        · split
          · split
            · exact (hl.setErrno _).order
            · exact joinBlock_inOrder h hrun ho t _ retval
          · exact (hl.setErrno _).order

/-- A joiner is served already when it claims its target. -/
theorem joinResume_inOrder (t : Tid) (retval : Bool) : (joinResume s t retval).1.InOrder := by
  have hl := h.lined ho
  unfold joinResume
  extract_lets s₁ stored id
  have hback : Lined [] s₁ := by
    refine Lined.setState (hl.modify ?_) ?_ (by simp) none
    · exact ⟨rfl, rfl⟩
    · have hr : (s.threads s.currentThread).state = .running := hrun
      simp [State.modifyThread, hr]
  split
  · exact (((hback.claimTarget t).setErrno _).emit (e := .joined id (-1) stored) rfl rfl).order
  · exact ((hback.claimTarget t).emit (e := .joined id 0 stored) rfl rfl).order

end Exit

end UserThreads
