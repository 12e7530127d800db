import UserThreads.Transition.Line
import UserThreads.Operations.Step

/-!
# The ready queue as a line

Under the FIFO policy every operation lets threads join at the end of the ready
queue and serves them from its head. What joins and what is served is read off
the history, so that an enqueue that is dropped would show.
-/

namespace UserThreads

open Transition

/-- The thread that an entry makes ready: by its creation, or by a write to its
state. -/
def Event.readies : Event → Option Nat
  | .created id _ => some id
  | .stateSet id _ .ready _ _ => some id
  | _ => none

/-- The ready thread that an entry sets running. -/
def Event.dispatches : Event → Option Nat
  | .stateSet id old new _ _ => if old = .ready ∧ new = .running then some id else none
  | _ => none

/-- The threads made ready, the earliest first. -/
def readied (hist : List Event) : List Nat := hist.reverse.filterMap Event.readies

/-- The threads dispatched, the earliest first. -/
def dispatched (hist : List Event) : List Nat := hist.reverse.filterMap Event.dispatches

theorem readied_cons (e : Event) (hist : List Event) :
    readied (e :: hist) = readied hist ++ e.readies.toList := by
  cases h : e.readies <;> simp [readied, h]

theorem dispatched_cons (e : Event) (hist : List Event) :
    dispatched (e :: hist) = dispatched hist ++ e.dispatches.toList := by
  cases h : e.dispatches <;> simp [dispatched, h]

/-- The line of ready threads, by their ids. The threads in `called` have been
picked and do not run yet. -/
def State.line (s : State) (called : List Tid) : Line Nat where
  joined := readied s.trace
  served := dispatched s.trace
  queue := (called ++ s.readyQueue).map fun t => (s.threads t).id

/-- The line of a state between operations. -/
def State.InOrder (s : State) : Prop := (s.line []).InOrder

/-- What the line is read off. -/
def State.lineup (s : State) : (Tid → Thread) × Tid × List Tid × List Event :=
  (s.threads, s.currentThread, s.readyQueue, s.trace)

/-- The line in the middle of an operation. -/
structure Lined (called : List Tid) (s : State) : Prop where
  order : (s.line called).InOrder
  ready : ∀ t ∈ called ++ s.readyQueue, (s.threads t).state = .ready

/-! The writes of the operations. -/

section Write

variable {called : List Tid} {s s' : State} {t next : Tid} {rest : List Tid}

theorem State.line_eq (hjoined : readied s'.trace = readied s.trace)
    (hserved : dispatched s'.trace = dispatched s.trace) (hq : s'.readyQueue = s.readyQueue)
    (hid : ∀ t ∈ called ++ s.readyQueue, (s'.threads t).id = (s.threads t).id) :
    s'.line called = s.line called := by
  unfold State.line
  rw [hjoined, hserved, hq, List.map_congr_left hid]

/-- An enqueue that is not dropped, under the FIFO policy. -/
theorem threadSchedulerEnqueue_fifo (hout : (s.threads t).inReadyQueue = false) :
    threadSchedulerEnqueue .fifo s t =
      { s with
        readyQueue := s.readyQueue ++ [t]
        threads := Function.update s.threads t { s.threads t with inReadyQueue := true } } := by
  simp [threadSchedulerEnqueue, hout, State.modifyThread]

namespace Lined

/-- What is neither in the history nor in the queue. -/
theorem quiet (h : Lined called s) (htrace : s'.trace = s.trace) (hq : s'.readyQueue = s.readyQueue)
    (hsame : ∀ t ∈ called ++ s.readyQueue,
      (s'.threads t).id = (s.threads t).id ∧ (s'.threads t).state = (s.threads t).state) :
    Lined called s' := by
  have hline : s'.line called = s.line called :=
    State.line_eq (by rw [htrace]) (by rw [htrace]) hq fun t ht => (hsame t ht).1
  refine ⟨hline ▸ h.order, fun t ht => ?_⟩
  rw [hq] at ht
  rw [(hsame t ht).2]
  exact h.ready t ht

/-- What leaves all records alone. -/
theorem globals (h : Lined called s) (hlineup : s'.lineup = s.lineup) : Lined called s' := by
  obtain ⟨hthreads, hrest⟩ := Prod.mk.inj hlineup
  obtain ⟨-, hrest⟩ := Prod.mk.inj hrest
  obtain ⟨hq, htrace⟩ := Prod.mk.inj hrest
  refine h.quiet htrace hq fun t _ => ?_
  rw [hthreads]
  exact ⟨rfl, rfl⟩

theorem modify (h : Lined called s) {f : Thread → Thread}
    (hf : (f (s.threads t)).id = (s.threads t).id ∧ (f (s.threads t)).state = (s.threads t).state) :
    Lined called (s.modifyThread t f) :=
  h.quiet rfl rfl fun u _ => ⟨proj_update Thread.id hf.1 u, proj_update Thread.state hf.2 u⟩

theorem emit (h : Lined called s) {e : Event} (hr : e.readies = none) (hd : e.dispatches = none) :
    Lined called (s.emit e) := by
  have hline : (s.emit e).line called = s.line called := by
    refine State.line_eq ?_ ?_ rfl fun _ _ => rfl
    · rw [State.emit, readied_cons, hr]
      exact List.append_nil _
    · rw [State.emit, dispatched_cons, hd]
      exact List.append_nil _
  exact ⟨hline ▸ h.order, h.ready⟩

/-- An operation on an object: one entry in the history, and no record. -/
theorem object (h : Lined [] s) {e : Event} (hlineup : s'.lineup = (s.emit e).lineup)
    (hr : e.readies = none) (hd : e.dispatches = none) : s'.InOrder :=
  ((h.emit hr hd).globals hlineup).order

theorem setPoint (h : Lined called s) (t : Tid) (k : Point) : Lined called (s.setPoint t k) :=
  h.modify ⟨rfl, rfl⟩

theorem setErrno (h : Lined called s) (e : Errno) : Lined called (s.setErrno e) :=
  h.globals rfl

/-- A thread that is not ready does not become ready. -/
theorem setState (h : Lined called s) {st : ThreadState} (hleft : (s.threads t).state ≠ .ready)
    (hst : st ≠ .ready) (w : Option Waker) : Lined called (s.setState t st w) := by
  have hwritten : Lined called (s.modifyThread t fun th => { th with state := st }) := by
    refine h.quiet rfl rfl fun u hu => ⟨proj_update Thread.id (by rfl) u, ?_⟩
    have hne : u ≠ t := fun e => hleft (e ▸ h.ready u hu)
    exact congrArg Thread.state (Function.update_of_ne hne _ _)
  refine hwritten.emit ?_ ?_
  · cases st <;> first | rfl | exact absurd rfl hst
  · exact if_neg fun hboth => hleft hboth.1

/-- A thread that is not in the queue joins the line, by the entry that makes
it ready. -/
theorem join {e : Event} {id : Nat} (h : Lined called s) (htrace : s'.trace = e :: s.trace)
    (hr : e.readies = some id) (hd : e.dispatches = none) (hq : s'.readyQueue = s.readyQueue)
    (hsame : ∀ u ∈ called ++ s.readyQueue,
      (s'.threads u).id = (s.threads u).id ∧ (s'.threads u).state = .ready)
    (hnew : (s'.threads t).id = id ∧ (s'.threads t).state = .ready)
    (hout : (s'.threads t).inReadyQueue = false) :
    Lined called (threadSchedulerEnqueue .fifo s' t) := by
  have hid : ∀ u, (Function.update s'.threads t
      { s'.threads t with inReadyQueue := true } u).id = (s'.threads u).id :=
    proj_update Thread.id (by rfl)
  have hstate : ∀ u, (Function.update s'.threads t
      { s'.threads t with inReadyQueue := true } u).state = (s'.threads u).state :=
    proj_update Thread.state (by rfl)
  have hids : ((called ++ s.readyQueue).map fun u => (s'.threads u).id) =
      (called ++ s.readyQueue).map fun u => (s.threads u).id :=
    List.map_congr_left fun u hu => (hsame u hu).1
  rw [threadSchedulerEnqueue_fifo hout]
  refine ⟨?_, fun u hu => ?_⟩
  · have hjoined : Line.InOrder ((s.line called).join id) := h.order.join id
    rw [Line.InOrder] at hjoined ⊢
    simp only [State.line, Line.join, hid, htrace, hq, readied_cons, dispatched_cons, hr, hd]
      at hjoined ⊢
    rw [← List.append_assoc called, List.map_append, hids]
    simpa [hnew.1] using hjoined
  · rw [hstate]
    have hmem : u ∈ called ++ s.readyQueue ∨ u = t := by
      simpa [hq, or_assoc] using hu
    rcases hmem with hmem | rfl
    · exact (hsame u hmem).2
    · exact hnew.2

theorem enqueue (h : Lined called s) (hflag : (s.threads t).inReadyQueue = false)
    (w : Option Waker) : Lined called (threadSchedulerEnqueue .fifo (s.setState t .ready w) t) := by
  have hid : ∀ u, ((s.setState t .ready w).threads u).id = (s.threads u).id :=
    proj_update Thread.id (by rfl)
  have hset : ((s.setState t .ready w).threads t) = { s.threads t with state := .ready } :=
    Function.update_self _ _ _
  refine h.join rfl rfl (if_neg (by simp)) rfl (fun u hu => ⟨hid u, ?_⟩) ⟨hid t, by rw [hset]⟩
    (by rw [hset]; exact hflag)
  by_cases hu' : u = t
  · rw [hu', hset]
  · exact (congrArg Thread.state (Function.update_of_ne hu' _ _)).trans (h.ready u hu)

/-- The head of the queue is called. -/
theorem picked (h : Lined [] s) (hq : s.readyQueue = next :: rest) :
    Lined [next] (s.picked next rest) := by
  have hstate : ∀ u, ((s.picked next rest).threads u).state = (s.threads u).state :=
    proj_update Thread.state (by rfl)
  have hline : (s.picked next rest).line [next] = s.line [] := by
    have hqueue : [next] ++ (s.picked next rest).readyQueue = [] ++ s.readyQueue := by
      rw [hq]
      rfl
    unfold State.line
    rw [hqueue]
    simp only [State.picked_id]
    rfl
  refine ⟨hline ▸ h.order, fun u hu => ?_⟩
  rw [hstate]
  exact h.ready u (by rw [hq]; exact hu)

/-- The called thread is dispatched. -/
theorem dispatch (h : Lined [next] s) :
    ({ s with currentThread := next }.setState next .running none).InOrder := by
  have hready : (s.threads next).state = .ready := h.ready next (by simp)
  have hid : ∀ u, ((State.setState { s with currentThread := next } next .running none).threads
      u).id = (s.threads u).id := proj_update Thread.id (by rfl)
  have hline : ({ s with currentThread := next }.setState next .running none).line [] =
      { s.line [next] with
        served := (s.line [next]).served ++ [(s.threads next).id]
        queue := s.readyQueue.map fun t => (s.threads t).id } := by
    simp only [State.line, hid]
    simp [State.setState, State.emit, State.modifyThread, readied_cons, dispatched_cons, hready,
      Event.readies, Event.dispatches]
  rw [State.InOrder, hline]
  exact h.order.serve rfl

theorem swap (h : Lined [next] s) (prev : Tid) (k : Point) :
    (swapThread s prev next k).InOrder :=
  (h.setPoint prev k).dispatch

end Lined

end Write

theorem Inv.lined {s : State} (h : Inv s) (ho : s.InOrder) : Lined [] s :=
  ⟨ho, fun t ht => ((h.sched.ready.mem_iff t).mp ht).2⟩

/-- The return of a call leaves the line alone. -/
theorem finish_line (c : Call) (r : State × Option Int) : (finish c r).line [] = r.1.line [] := by
  obtain ⟨s, o⟩ := r
  cases o with
  | none => rfl
  | some code =>
      refine State.line_eq ?_ ?_ rfl fun u _ => proj_update Thread.id (by rfl) u
      · exact (readied_cons _ _).trans (List.append_nil _)
      · exact (dispatched_cons _ _).trans (List.append_nil _)

theorem State.InOrder.finish {r : State × Option Int} (h : r.1.InOrder) (c : Call) :
    (finish c r).InOrder := by
  unfold State.InOrder
  rw [finish_line]
  exact h

/-! Waking and blocking. -/

section Sync

variable {called : List Tid} {s : State}

theorem Lined.wakeFirst (hl : Lined called s) {q : QueueId}
    (hflag : ∀ t ∈ s.waitingQueue q, (s.threads t).inReadyQueue = false) :
    Lined called (wakeFirst .fifo s q) := by
  unfold UserThreads.wakeFirst
  split
  next => exact hl
  next t rest hq =>
    have hleft : Lined called (s.setQueue q rest) := hl.globals rfl
    have hwoken : Lined called ((s.setQueue q rest).emit (.woken q (s.threads t).id)) :=
      hleft.emit rfl rfl
    exact hwoken.enqueue (hflag t (by simp [hq])) _

theorem Lined.releaseMutex (hl : Lined called s) {m : MutexId}
    (hflag : ∀ t ∈ s.waitingQueue (.mutex m), (s.threads t).inReadyQueue = false) :
    Lined called (releaseMutex .fifo s m) := by
  have hreleased : Lined called (s.emit (.mutexReleased m s.self)) := hl.emit rfl rfl
  unfold UserThreads.releaseMutex
  dsimp only
  split
  · exact hreleased.wakeFirst hflag
  · exact hreleased.globals rfl

/-- The running thread is not in the line, so it may block. -/
theorem Lined.park (hl : Lined called s) (hrun : s.running.state = .running) (q : QueueId) :
    Lined called (park s q) := by
  have hblocked : Lined called (s.setState s.currentThread .blocked none) :=
    hl.setState (by rw [← State.running, hrun]; simp) (by simp) none
  have hqueued : Lined called ((s.setState s.currentThread .blocked none).setQueue q
      (s.waitingQueue q ++ [s.currentThread])) := hblocked.globals rfl
  exact hqueued.emit rfl rfl

/-- A waiting thread is not in the ready queue, nor is it while another thread
is picked. -/
theorem Inv.waiting_flag (h : Inv s) {q : QueueId} {t : Tid} (ht : t ∈ s.waitingQueue q) :
    (s.threads t).inReadyQueue = false := by
  obtain ⟨hmem, hb, -⟩ := h.sched.of_mem_waiting ht
  exact h.flag_false hmem (by simp [hb])

theorem picked_flag {next t : Tid} {rest : List Tid} (ht : (s.threads t).inReadyQueue = false) :
    ((s.picked next rest).threads t).inReadyQueue = false := by
  by_cases htn : t = next
  · subst t
    simp [State.picked]
  · simpa [State.picked, htn] using ht

/-- The caller parks, and the thread picked takes over. -/
theorem Lined.park_swap {next : Tid} {rest : List Tid} (hl : Lined [] s)
    (hrun : s.running.state = .running) (hq : s.readyQueue = next :: rest) (q : QueueId)
    (k : Point) : (swapThread (UserThreads.park (s.picked next rest) q) s.currentThread next
      k).InOrder := by
  have hstill : (s.picked next rest).running.state = .running :=
    (proj_update Thread.state (by rfl) s.currentThread).trans hrun
  exact ((hl.picked hq).park hstill q).swap s.currentThread k

variable (h : Inv s) (hrun : s.running.state = .running) (ho : s.InOrder)
include h hrun ho

theorem mutexLock_inOrder (m : MutexId) (k : Point) : (mutexLock s m k).1.InOrder := by
  have hl := h.lined ho
  unfold mutexLock
  split
  · exact (hl.setErrno _).order
  · split
    · exact hl.object (e := .mutexTaken m s.self) rfl rfl rfl
    · cases hq : s.readyQueue with
      | nil =>
          rw [threadSchedulerPickNext_nil hq]
          exact ho
      | cons next rest =>
          rw [threadSchedulerPickNext_cons hq]
          exact hl.park_swap hrun hq _ k

omit hrun in
theorem threadMutexUnlock_inOrder (m : Option MutexId) :
    (threadMutexUnlock .fifo s m).1.InOrder := by
  have hl := h.lined ho
  unfold threadMutexUnlock
  split
  · exact ho
  · split
    · exact (hl.setErrno _).order
    · split
      · exact ho
      · exact (hl.releaseMutex fun t ht => h.waiting_flag ht).order

theorem condRelock_inOrder (c : CondId) (m : MutexId) (code : Int) :
    (condRelock s c m code).1.InOrder := by
  have hlock := mutexLock_inOrder h hrun ho m (.condRelock c m code)
  unfold condRelock
  split
  next heq =>
    rw [heq] at hlock
    exact hlock
  next heq =>
    rw [heq] at hlock
    exact hlock

/-- The thread picked before the release is dispatched after it: it was the
first in the line, and a mutex waiter joins behind it. -/
theorem threadCondWait_inOrder (c : Option CondId) (m : Option MutexId) :
    (threadCondWait .fifo s c m).1.InOrder := by
  have hl := h.lined ho
  unfold threadCondWait
  split
  next c m =>
    cases hq : s.readyQueue with
    | nil =>
        have hr := releaseMutex_release h .fifo m
        obtain ⟨-, hsame⟩ := h.release_running hr hrun
        rw [threadSchedulerPickNext_nil hq]
        exact condRelock_inOrder (h.release hr) (by rw [hsame, hrun])
          (hl.releaseMutex fun t ht => h.waiting_flag ht).order c m (-1)
    | cons next rest =>
        obtain ⟨s₁, rq, hr, -, heq⟩ := releaseMutex_picked h .fifo m hq
        obtain ⟨hcur, hsame⟩ := h.release_running hr hrun
        have hreleased : Lined [next] (UserThreads.releaseMutex .fifo (s.picked next rest) m) :=
          (hl.picked hq).releaseMutex fun t ht => picked_flag (h.waiting_flag ht)
        have hstill : (s₁.picked next rq).running.state = .running := by
          rw [← hrun, ← hsame]
          exact proj_update Thread.state (by rfl) s₁.currentThread
        rw [heq] at hreleased
        rw [threadSchedulerPickNext_cons hq]
        dsimp only
        rw [heq]
        exact (hreleased.park hstill (.cond c)).swap _ _
  next => exact ho

omit hrun in
theorem threadCondSignal_inOrder (c : Option CondId) :
    (threadCondSignal .fifo s c).1.InOrder := by
  cases c with
  | none => exact ho
  | some c => exact ((h.lined ho).wakeFirst fun t ht => h.waiting_flag ht).order

/-- The waiters of a broadcast join one after the other, in their order. -/
theorem wakeAll_inOrder (c : CondId) (n : Nat) : (wakeAll .fifo (.cond c) n s).InOrder := by
  induction n generalizing s with
  | zero => exact ho
  | succ n ih =>
      unfold wakeAll
      split
      · exact ho
      · obtain ⟨hm, hsame⟩ := condWake_moves (i := .go) h hrun .fifo c
        exact ih (h.moves hm) (by rw [hsame, hrun])
          ((h.lined ho).wakeFirst fun t ht => h.waiting_flag ht).order

theorem threadCondBroadcast_inOrder (c : Option CondId) :
    (threadCondBroadcast .fifo s c).1.InOrder := by
  cases c with
  | none => exact ho
  | some c => exact wakeAll_inOrder h hrun ho c _

theorem threadSemWait_inOrder (sm : Option SemId) : (threadSemWait s sm).1.InOrder := by
  have hl := h.lined ho
  unfold threadSemWait
  split
  · exact ho
  next sm =>
    split
    · exact hl.object (e := .semTaken sm s.self) rfl rfl rfl
    · cases hq : s.readyQueue with
      | nil =>
          rw [threadSchedulerPickNext_nil hq]
          exact ho
      | cons next rest =>
          rw [threadSchedulerPickNext_cons hq]
          exact hl.park_swap hrun hq _ _

omit hrun in
theorem threadSemPost_inOrder (sm : Option SemId) : (threadSemPost .fifo s sm).1.InOrder := by
  have hl := h.lined ho
  unfold threadSemPost
  split
  · exact ho
  next sm =>
    have hposted : Lined [] (s.emit (.semPosted sm s.self)) := hl.emit rfl rfl
    dsimp only
    split
    · exact (hposted.wakeFirst fun t ht => h.waiting_flag ht).order
    · exact hl.object (e := .semPosted sm s.self) rfl rfl rfl

end Sync

end UserThreads
