import UserThreads.Operations.Dispatch

/-!
# Signals as moves
-/

namespace UserThreads

open Transition

/-- The wake-up of a thread blocked in `thread_sigwait`. -/
theorem signalWake_eq (p : Policy) {s : State} {t : Tid} (sig : Int)
    (hout : (s.threads t).inReadyQueue = false) :
    ∃ rq, rq.Perm (t :: s.readyQueue) ∧ signalWake p s t sig =
      { s with
        threads := Function.update s.threads t
          { s.threads t with
            waitingForSignal := false
            waitedSignals := 0
            state := .ready
            inReadyQueue := true }
        readyQueue := rq
        trace := .stateSet (s.threads t).id (s.threads t).state .ready (s.threads t).point
          (some (.signalSend sig)) :: s.trace } := by
  have hout' : (((s.modifyThread t fun th =>
      { th with waitingForSignal := false, waitedSignals := 0 }).setState t .ready
        (some (.signalSend sig))).threads t).inReadyQueue = false := by
    simpa [State.setState, State.emit, State.modifyThread] using hout
  obtain ⟨rq, hrq, heq⟩ := threadSchedulerEnqueue_eq p hout'
  refine ⟨rq, hrq, ?_⟩
  simp only [signalWake, heq]
  simp [State.setState, State.emit, State.modifyThread]

/-- Pending signals may change in any record without the caller noticing. -/
theorem State.running_pending (s : State) (t : Tid) (g : Thread → BitVec 32) (e : Event) :
    ((s.modifyThread t fun th => { th with pendingSignals := g th }).emit e).running.state =
        s.running.state ∧
      ((s.modifyThread t fun th => { th with pendingSignals := g th }).emit e).running.point =
        s.running.point := by
  by_cases ht : s.currentThread = t
  · subst t
    simp [State.running, State.emit, State.modifyThread]
  · simp [State.running, State.emit, State.modifyThread, ht]

/-- No signal is masked, so every pending one is available. -/
theorem Inv.available {s : State} (h : Inv s) (set : BitVec 32) :
    (s.threads s.currentThread).pendingSignals &&& set &&&
      ~~~(s.threads s.currentThread).blockedSignals = s.running.pendingSignals &&& set := by
  have hmask : ~~~(0 : BitVec 32) = BitVec.allOnes 32 := by decide
  rw [(h.sched.threads_ok _ h.sched.current_mem).unmasked, hmask, BitVec.and_allOnes]
  rfl

section

variable {i : Input} {s : State} (h : Inv s) (hrun : s.running.state = .running)
include h hrun

theorem threadSignalSend_served (p : Policy) (t : Option Tid) (sig : Int)
    (huser : s.running.point = .user) (ht : ∀ t', t = some t' → t' ∈ s.handles) :
    Served i s (threadSignalSend p s t sig) := by
  have hold := settled_of_user huser
  cases t with
  | none => exact .refuse hrun hold _ _
  | some t =>
      have hmem := ht t rfl
      unfold threadSignalSend
      by_cases hsig : sig < threadSignalMin ∨ sig > threadSignalMax
      · simp only [hsig, if_true]
        exact .refuse hrun hold _ _
      have hrange : 1 ≤ sig ∧ sig ≤ 32 := by
        simp only [threadSignalMin, threadSignalMax] at hsig
        omega
      simp only [hsig, if_false]
      split
      next hwake =>
        simp only [State.emit, State.modifyThread, Function.update_self] at hwake
        obtain ⟨hb, hw, hset⟩ := hwake
        have hne : s.currentThread ≠ t := by
          rintro rfl
          rw [State.running, hb] at hrun
          cases hrun
        have hout : (((s.modifyThread t fun th =>
            { th with pendingSignals := th.pendingSignals ||| threadSignalBit sig }).emit
              (.signalSent (s.threads t).id sig)).threads t).inReadyQueue = false := by
          simpa [State.emit, State.modifyThread] using h.flag_false hmem (by simp [hb])
        obtain ⟨rq, hrq, heq⟩ := signalWake_eq p sig hout
        have hmove := Move.signalWake (i := i) t sig rq hrange hmem hb hw hset hrq
        rw [heq]
        refine .stay (.of_moves (.single ?_)) ?_ ?_ _
        · simpa [State.emit, State.modifyThread] using hmove
        · simpa [State.running, State.emit, State.modifyThread, hne] using hrun
        · simpa [State.running, State.emit, State.modifyThread, hne] using hold
      next hno =>
        simp only [State.emit, State.modifyThread, Function.update_self] at hno
        obtain ⟨hstate, hpoint⟩ := s.running_pending t
          (fun th => th.pendingSignals ||| threadSignalBit sig) (.signalSent (s.threads t).id sig)
        exact .stay (.of_moves (.single (.signalSend t sig hrange hmem hno)))
          (hstate.trans hrun) (hpoint ▸ hold) _

/-- A running thread does not wait for a signal. -/
theorem Inv.signal_idle :
    s.running.waitingForSignal = false ∧ s.running.waitedSignals = 0 := by
  have hok := h.sched.threads_ok _ h.sched.current_mem
  have hflag : s.running.waitingForSignal = false := by
    rw [← Bool.not_eq_true]
    intro hw
    have hb := (hok.signal.mp hw).1
    rw [State.running, hb] at hrun
    cases hrun
  exact ⟨hflag, hok.idle hflag⟩

/-- One turn of the loop of `thread_sigwait`. -/
theorem sigwaitLoop_served (set : BitVec 32) (hold : s.running.point.Settled) :
    Served i s (sigwaitLoop s set) := by
  unfold sigwaitLoop
  simp only [h.available set]
  split
  next havailable =>
    split
    · exact .refuse hrun hold _ _
    next hpos =>
      obtain ⟨hstate, hpoint⟩ := s.running_pending s.currentThread
        (fun th => th.pendingSignals &&& ~~~threadSignalBit
          (threadSignalPickOne (s.running.pendingSignals &&& set)))
        (.signalConsumed s.self set (threadSignalPickOne (s.running.pendingSignals &&& set)))
      exact .stay (.of_moves (.single (.signalConsume set _ hrun rfl (Int.not_lt.mp hpos))))
        (hstate.trans hrun) (hpoint ▸ hold) _
  next hnone =>
    have hpending : s.running.pendingSignals &&& set = 0 := by simpa using hnone
    cases hq : s.readyQueue with
    | nil =>
        obtain ⟨hflag, hwaited⟩ := h.signal_idle hrun
        rw [threadSchedulerPickNext_nil (by exact hq)]
        have hback : { s.running with
            waitingForSignal := false
            waitedSignals := 0
            state := .running } = s.threads s.currentThread := by
          rw [← hflag, ← hwaited, ← hrun]
          rfl
        have heq : ((((s.modifyThread s.currentThread fun th =>
            { th with waitingForSignal := true, waitedSignals := set }).setState s.currentThread
              .blocked none).modifyThread s.currentThread fun th =>
                { th with waitingForSignal := false, waitedSignals := 0 }).setState s.currentThread
                  .running none) =
            (s.emit (.stateSet s.self .running .blocked s.running.point none)).emit
              (.stateSet s.self .blocked .running s.running.point none) := by
          have hr : (s.threads s.currentThread).state = .running := hrun
          simp only [State.running] at hback
          simp [State.setState, State.emit, State.modifyThread, State.self, State.running, hr]
          exact hback
        simp only [heq]
        exact .stay (.of_moves (.tail (.single (.sigwaitGiveUp hrun)) (.errno (some .edeadlk))))
          hrun hold _
    | cons next rest =>
        obtain ⟨-, hne⟩ := h.ready_head hrun hq
        rw [threadSchedulerPickNext_cons (by exact hq)]
        have hblock : Move i s (s.sigwaitAt set) := .sigwaitAt set hrun hold hpending
        have hdispatch := Moves.dispatch (i := i) (s := s.sigwaitAt set)
          (by simp [State.sigwaitAt, State.running]) hq
        have heq : swapThread (((s.modifyThread s.currentThread fun th =>
            { th with waitingForSignal := true, waitedSignals := set }).setState s.currentThread
              .blocked none).picked next rest) s.currentThread next (.sigwait set) =
            (s.sigwaitAt set).dispatch next rest := by
          simp [swapThread, State.picked, State.setState, State.emit, State.modifyThread,
            State.setPoint, State.sigwaitAt, State.dispatch, State.self, State.running, hne,
            hne.symm, Function.update_comm hne]
        simp only [heq]
        exact .switch (.of_moves ((Relation.ReflTransGen.single hblock).trans hdispatch))
          (State.dispatch_running _ _ _)

theorem threadSigwait_served (set : BitVec 32) (sig : Bool) (huser : s.running.point = .user) :
    Served i s (threadSigwait s set sig) := by
  unfold threadSigwait
  split
  · exact .refuse hrun (settled_of_user huser) _ _
  · exact sigwaitLoop_served h hrun set (settled_of_user huser)

end

end UserThreads
