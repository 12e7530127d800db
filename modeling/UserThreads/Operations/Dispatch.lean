import UserThreads.Abstract.Preservation
import UserThreads.Abstract.Ranks

/-!
# Enqueueing, picking and switching as moves

The building blocks of every operation: how the ready queue changes, and how
a caller that leaves the processor is followed by the thread picked next.
-/

namespace UserThreads

open Transition

/-- A thread outside the ready queue enters it somewhere. -/
theorem threadSchedulerEnqueue_eq (p : Policy) {s : State} {t : Tid}
    (hout : (s.threads t).inReadyQueue = false) :
    ∃ rq, rq.Perm (t :: s.readyQueue) ∧ threadSchedulerEnqueue p s t =
      { s with
        readyQueue := rq
        threads := Function.update s.threads t { s.threads t with inReadyQueue := true } } := by
  cases p with
  | fifo =>
      refine ⟨_, List.perm_append_singleton t s.readyQueue, ?_⟩
      simp [threadSchedulerEnqueue, hout, State.modifyThread]
  | prio =>
      refine ⟨_, insertByPriority_perm (fun u => (s.threads u).priority) t s.readyQueue, ?_⟩
      simp [threadSchedulerEnqueue, hout, State.modifyThread]

theorem threadSchedulerEnqueue_trace (p : Policy) (s : State) (t : Tid) :
    (threadSchedulerEnqueue p s t).trace = s.trace := by
  unfold threadSchedulerEnqueue
  split
  · rfl
  · rfl

/-- The state after `next` has been taken from the ready queue. -/
def State.picked (s : State) (next : Tid) (rest : List Tid) : State :=
  { s with
    readyQueue := rest
    threads := Function.update s.threads next { s.threads next with inReadyQueue := false } }

@[simp] theorem State.picked_id (s : State) (next : Tid) (rest : List Tid) (t : Tid) :
    ((s.picked next rest).threads t).id = (s.threads t).id := by
  refine proj_update Thread.id ?_ t
  rfl

@[simp] theorem State.picked_self (s : State) (next : Tid) (rest : List Tid) :
    (s.picked next rest).self = s.self :=
  s.picked_id next rest s.currentThread

theorem threadSchedulerPickNext_nil {s : State} (h : s.readyQueue = []) :
    threadSchedulerPickNext s = none := by
  simp [threadSchedulerPickNext, h]

theorem threadSchedulerPickNext_cons {s : State} {next : Tid} {rest : List Tid}
    (h : s.readyQueue = next :: rest) :
    threadSchedulerPickNext s = some (next, s.picked next rest) := by
  simp [threadSchedulerPickNext, h, State.picked, State.modifyThread]

section

variable {s : State} (h : Inv s) {next : Tid} {rest : List Tid}
include h

/-- The head of the ready queue is ready, and not the running thread. -/
theorem Inv.ready_head (hrun : s.running.state = .running) (hq : s.readyQueue = next :: rest) :
    (s.threads next).state = .ready ∧ next ≠ s.currentThread := by
  obtain ⟨-, hready⟩ := (h.sched.ready.mem_iff next).mp (by simp [hq])
  refine ⟨hready, ?_⟩
  rintro rfl
  rw [State.running, hready] at hrun
  cases hrun

theorem Inv.flag_false {t : Tid} (ht : t ∈ s.handles) (hstate : (s.threads t).state ≠ .ready) :
    (s.threads t).inReadyQueue = false := by
  rw [← Bool.not_eq_true]
  exact fun hflag => hstate ((h.sched.threads_ok t ht).flag.mp hflag)

end

/-- Waking the head of a wait queue. -/
theorem wakeFirst_eq (p : Policy) {s : State} {q : QueueId} {t : Tid} {rest : List Tid}
    (hq : s.waitingQueue q = t :: rest) (hout : (s.threads t).inReadyQueue = false) :
    ∃ rq, rq.Perm (t :: s.readyQueue) ∧ wakeFirst p s q = s.wakeHead q t rest rq := by
  have hout' : ((((s.setQueue q rest).emit (.woken q (s.threads t).id)).setState t .ready
      (some q.waker)).threads t).inReadyQueue = false := by
    simpa [State.setState, State.emit, State.modifyThread, State.setQueue] using hout
  obtain ⟨rq, hrq, heq⟩ := threadSchedulerEnqueue_eq p hout'
  refine ⟨rq, hrq, ?_⟩
  simp only [wakeFirst, hq, heq]
  simp [State.setState, State.emit, State.modifyThread, State.setQueue, State.wakeHead]

/-- The caller parks, and the thread picked before takes over. -/
theorem park_swap_eq {s : State} {q : QueueId} {k : Point} {next : Tid} {rest : List Tid}
    (hne : next ≠ s.currentThread) :
    swapThread (park (s.picked next rest) q) s.currentThread next k =
      (s.parkAt q k).dispatch next rest := by
  simp [swapThread, park, State.picked, State.setState, State.emit, State.modifyThread,
    State.setQueue, State.setPoint, State.parkAt, State.dispatch, State.self, State.running, hne,
    hne.symm, Function.update_comm hne]

theorem settled_of_user {s : State} (huser : s.running.point = .user) :
    s.running.point.Settled := by
  rw [huser]
  exact Point.settled_user

/-- What a call achieves before it returns a code, or switches away: a stretch
at the end of which some thread runs, or the process has ended. -/
structure Served (i : Input) (s : State) (r : State × Option Int) : Prop where
  stretch : Stretch i s r.1
  returns : ∀ code, r.2 = some code → r.1.running.state = .running ∧ r.1.running.point.Settled
  switched : r.2 = none → r.1.ended = true ∨ r.1.running.state = .running

namespace Served

variable {i : Input} {s s' : State}

theorem stay (hs : Stretch i s s') (hrun : s'.running.state = .running)
    (hpoint : s'.running.point.Settled) (code : Int) : Served i s (s', some code) :=
  ⟨hs, fun _ _ => ⟨hrun, hpoint⟩, by simp⟩

theorem switch (hs : Stretch i s s') (hrun : s'.running.state = .running) :
    Served i s (s', none) :=
  ⟨hs, by simp, fun _ => Or.inr hrun⟩

/-- A call that is refused sets `errno` at most. -/
theorem refuse (hrun : s.running.state = .running) (hpoint : s.running.point.Settled)
    (e : Errno) (code : Int) : Served i s (s.setErrno e, some code) :=
  stay (Or.inl (.single (.errno (some e)))) hrun hpoint code

theorem nothing (hrun : s.running.state = .running) (hpoint : s.running.point.Settled)
    (code : Int) : Served i s (s, some code) :=
  stay (Or.inl .refl) hrun hpoint code

end Served

/-- What a stretch of `step` achieves. -/
structure Completed (i : Input) (s s' : State) : Prop where
  stretch : Stretch i s s'
  runs : s'.ended = true ∨ s'.running.state = .running

/-- A stretch of moves only, at the end of which some thread runs. -/
structure Finishes (i : Input) (s s' : State) : Prop where
  moves : Moves i s s'
  runs : s'.running.state = .running

theorem Stretch.of_moves {i : Input} {s s' : State} (h : Moves i s s') : Stretch i s s' := Or.inl h

theorem Stretch.of_act {i : Input} {s s₁ s' : State} (ha : Act i s s₁) (hm : Moves i s₁ s') :
    Stretch i s s' := Or.inr ⟨s₁, ha, hm⟩

theorem Stretch.moves {i : Input} {s s₁ s' : State} (h : Stretch i s s₁) (hm : Moves i s₁ s') :
    Stretch i s s' := by
  rcases h with h | ⟨s₂, ha, h⟩
  · exact Or.inl (h.trans hm)
  · exact Or.inr ⟨s₂, ha, h.trans hm⟩

theorem Finishes.completed {i : Input} {s s' : State} (h : Finishes i s s') : Completed i s s' :=
  ⟨.of_moves h.moves, Or.inr h.runs⟩

theorem Finishes.after {i : Input} {s s₁ s' : State} (h : Finishes i s₁ s') (hm : Moves i s s₁) :
    Finishes i s s' :=
  ⟨hm.trans h.moves, h.runs⟩

/-- The return to user code. -/
theorem Finishes.toUser {i : Input} {s : State} (hrun : s.running.state = .running)
    (hpoint : s.running.point.Settled) (c : Call) (code : Int) :
    Finishes i s (finish c (s, some code)) := by
  refine ⟨.tail (.single (.returned c code)) (.toUser hrun hpoint), ?_⟩
  simpa [finish, State.setPoint, State.modifyThread, State.emit, State.running] using hrun

theorem Finishes.refuse {i : Input} {s : State} (hrun : s.running.state = .running)
    (hpoint : s.running.point.Settled) (e : Errno) (c : Call) (code : Int) :
    Finishes i s (finish c (s.setErrno e, some code)) := by
  have herrno : Move i s (s.setErrno e) := .errno (some e)
  have hback : Finishes i (s.setErrno e) (finish c (s.setErrno e, some code)) :=
    .toUser (s := s.setErrno e) hrun hpoint c code
  exact hback.after (.single herrno)

/-- The return to user code, or the switch away from it. -/
theorem Served.completed {i : Input} {s : State} {r : State × Option Int} (h : Served i s r)
    (c : Call) : Completed i s (finish c r) := by
  obtain ⟨s', res⟩ := r
  cases res with
  | none => exact ⟨h.stretch, h.switched rfl⟩
  | some code =>
      obtain ⟨hrun, hpoint⟩ := h.returns code rfl
      have hback := Finishes.toUser (i := i) hrun hpoint c code
      exact ⟨h.stretch.moves hback.moves, Or.inr hback.runs⟩

theorem State.dispatch_running (s : State) (next : Tid) (rq : List Tid) :
    (s.dispatch next rq).running.state = .running := by
  simp [State.dispatch, State.running]

/-- After the caller has left the processor, the picked thread is dispatched. -/
theorem Moves.dispatch {i : Input} {s : State} {next : Tid} {rest : List Tid}
    (hrun : s.running.state ≠ .running) (hq : s.readyQueue = next :: rest) :
    Moves i s (s.dispatch next rest) :=
  .single (.dispatch next rest hrun (by rw [hq]))

end UserThreads
