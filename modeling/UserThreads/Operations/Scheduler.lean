import UserThreads.Operations.Dispatch

/-!
# Yielding and priorities as moves

Aging and `thread_set_priority` only rewrite priorities and reorder the ready
queue; a yield that switches is a move to the ready queue followed by a
dispatch.
-/

namespace UserThreads

open Transition

/-- Priorities change and the ready queue is reordered, nothing else. -/
def Reprioritized (s s' : State) : Prop :=
  ∃ (f : Tid → Int) (rq : List Tid), rq.Perm s.readyQueue ∧
    s' = { s with threads := fun t => { s.threads t with priority := f t }, readyQueue := rq }

namespace Reprioritized

variable {s s₁ s' : State}

theorem refl (s : State) : Reprioritized s s :=
  ⟨fun t => (s.threads t).priority, s.readyQueue, List.Perm.refl _, rfl⟩

theorem trans (h : Reprioritized s s₁) (h' : Reprioritized s₁ s') : Reprioritized s s' := by
  obtain ⟨f, rq, hrq, rfl⟩ := h
  obtain ⟨f', rq', hrq', rfl⟩ := h'
  exact ⟨f', rq', hrq'.trans hrq, rfl⟩

theorem modify {t : Tid} {f : Thread → Thread}
    (hf : f (s.threads t) = { s.threads t with priority := (f (s.threads t)).priority }) :
    Reprioritized s (s.modifyThread t f) := by
  refine ⟨fun u => if u = t then (f (s.threads t)).priority else (s.threads u).priority,
    s.readyQueue, List.Perm.refl _, ?_⟩
  unfold State.modifyThread
  congr 1
  funext u
  by_cases hu : u = t
  · subst u
    simpa using hf
  · simp [hu]

theorem move {i : Input} (h : Reprioritized s s') : Moves i s s' := by
  obtain ⟨f, rq, hrq, rfl⟩ := h
  exact .single (.reprioritize f rq hrq)

/-- Everything about the running thread but its priority is as before. -/
theorem running (h : Reprioritized s s') :
    s'.currentThread = s.currentThread ∧ s'.running.state = s.running.state ∧
      s'.running.point = s.running.point := by
  obtain ⟨f, rq, -, rfl⟩ := h
  exact ⟨rfl, rfl, rfl⟩

theorem foldl (l : List Tid) {f : Thread → Thread}
    (hf : ∀ th, f th = { th with priority := (f th).priority }) (s : State) :
    Reprioritized s (l.foldl (fun s t => s.modifyThread t f) s) := by
  induction l generalizing s with
  | nil => exact refl s
  | cons t rest ih => exact (modify (hf _)).trans (ih _)

theorem ageThreads (s : State) (prev : Tid) : Reprioritized s (ageThreads s prev) := by
  have hfold := foldl s.readyQueue (f := Thread.ageWaiting) (fun _ => rfl) s
  unfold UserThreads.ageThreads
  dsimp only
  split
  · exact hfold.trans (modify rfl)
  · exact hfold

end Reprioritized

/-- A ready thread that is taken out of the queue and inserted again has only
moved within it. -/
theorem requeue_reprioritized (p : Policy) {s : State} {t : Tid} {rest : List Tid}
    (hflag : (s.threads t).inReadyQueue = true) (hperm : (t :: rest).Perm s.readyQueue) :
    Reprioritized s (threadSchedulerEnqueue p (s.picked t rest) t) := by
  obtain ⟨rq, hrq, heq⟩ := threadSchedulerEnqueue_eq p (s := s.picked t rest) (t := t)
    (by simp [State.picked])
  refine ⟨fun u => (s.threads u).priority, rq, hrq.trans hperm, ?_⟩
  have hback : { s.threads t with inReadyQueue := true } = s.threads t := by
    rw [← hflag]
  rw [heq]
  simp [State.picked, hback]

section

variable {s : State} {k : Point} {next : Tid} (hne : next ≠ s.currentThread)
include hne

/-- The yielding thread is enqueued after `next` has been picked. -/
theorem yield_swap_eq (p : Policy) (rest : List Tid)
    (hflag : s.running.inReadyQueue = false) :
    ∃ rq, rq.Perm (s.currentThread :: rest) ∧
      swapThread (threadSchedulerEnqueue p
        ((s.picked next rest).setState s.currentThread .ready none) s.currentThread)
        s.currentThread next k = (s.yieldAt k (next :: rq)).dispatch next rq := by
  have hout : (((s.picked next rest).setState s.currentThread .ready none).threads
      s.currentThread).inReadyQueue = false := by
    simpa [State.setState, State.emit, State.modifyThread, State.picked, State.running, hne.symm]
      using hflag
  obtain ⟨rq, hrq, heq⟩ := threadSchedulerEnqueue_eq p hout
  refine ⟨rq, hrq, ?_⟩
  rw [heq]
  simp [swapThread, State.picked, State.setState, State.emit, State.modifyThread, State.setPoint,
    State.yieldAt, State.dispatch, State.self, State.running, hne, hne.symm,
    Function.update_comm hne]

/-- The yielding thread is enqueued before its target is taken out. -/
theorem yieldTo_swap_eq (p : Policy) (hflag : s.running.inReadyQueue = false) :
    ∃ rq, rq.Perm (s.currentThread :: s.readyQueue) ∧
      swapThread (readyRemove (threadSchedulerEnqueue p
        (s.setState s.currentThread .ready none) s.currentThread) next)
        s.currentThread next k = (s.yieldAt k rq).dispatch next (rq.erase next) := by
  have hout : ((s.setState s.currentThread .ready none).threads
      s.currentThread).inReadyQueue = false := by
    simpa [State.setState, State.emit, State.modifyThread, State.running] using hflag
  obtain ⟨rq, hrq, heq⟩ := threadSchedulerEnqueue_eq p hout
  refine ⟨rq, hrq, ?_⟩
  rw [heq]
  simp [swapThread, readyRemove, State.setState, State.emit, State.modifyThread, State.setPoint,
    State.yieldAt, State.dispatch, State.self, State.running, hne, hne.symm,
    Function.update_comm hne]

end

/-- The points at which a thread may yield: its own, or the call it makes. -/
def YieldPoint (s : State) (k : Point) : Prop :=
  (k = s.running.point ∨ s.running.point.Settled ∧ ∃ c, k = .yielded c) ∧ k ≠ .user

theorem YieldPoint.congr {s s' : State} {k : Point} (h : YieldPoint s k)
    (hpoint : s'.running.point = s.running.point) : YieldPoint s' k := by
  unfold YieldPoint
  rwa [hpoint]

theorem yieldPoint_call {s : State} (huser : s.running.point = .user) (c : Call) :
    YieldPoint s (.yielded c) :=
  ⟨Or.inr ⟨settled_of_user huser, c, rfl⟩, by simp⟩

/-- What every form of yielding achieves. -/
structure Yields (i : Input) (s : State) (r : State × Option Int) : Prop where
  moves : Moves i s r.1
  runs : r.1.running.state = .running
  stays : ∀ code, r.2 = some code → r.1.running.point = s.running.point

theorem Yields.served {i : Input} {s : State} {r : State × Option Int} (h : Yields i s r)
    (hold : s.running.point.Settled) : Served i s r :=
  ⟨.of_moves h.moves, fun code hc => ⟨h.runs, (h.stays code hc).symm ▸ hold⟩,
    fun _ => Or.inr h.runs⟩

section

variable {i : Input} {s : State} (hrun : s.running.state = .running)
include hrun

theorem Yields.of_reprioritized {s' : State} (hs : Reprioritized s s') (code : Int) :
    Yields i s (s', some code) := by
  obtain ⟨-, hstate, hpoint⟩ := hs.running
  exact ⟨hs.move, hstate.trans hrun, fun _ _ => hpoint⟩

variable {k : Point} (hk : YieldPoint s k)
include hk

/-- The running thread goes back to the ready queue and `next` is dispatched. -/
theorem yieldAt_dispatch {next : Tid} {rq rq' : List Tid}
    (hrq : rq.Perm (s.currentThread :: s.readyQueue)) (hrq' : (next :: rq').Perm rq) :
    Moves i s ((s.yieldAt k rq).dispatch next rq') := by
  have hyield : Move i s (s.yieldAt k rq) := .yieldAt k rq hrun hk.1 hk.2 hrq
  have hdispatch : Move i (s.yieldAt k rq) ((s.yieldAt k rq).dispatch next rq') :=
    .dispatch next rq' (by simp [State.yieldAt, State.running]) hrq'
  exact .tail (.single hyield) hdispatch

variable (h : Inv s)
include h

/-- `thread_yield` once the priorities have been aged. -/
theorem pick_yields (p : Policy) : Yields i s (
    match threadSchedulerPickNext s with
    | none => (s, some 0)
    | some (next, s') =>
        if next = s.currentThread then (s', some 0)
        else if p = .prio ∧ (s'.threads next).priority ≤ (s'.threads s.currentThread).priority then
          (threadSchedulerEnqueue p s' next, some 0)
        else
          let s' := if (s'.threads s.currentThread).state = .running then
              threadSchedulerEnqueue p (s'.setState s.currentThread .ready none) s.currentThread
            else s'
          (swapThread s' s.currentThread next k, none)) := by
  cases hq : s.readyQueue with
  | nil =>
      rw [threadSchedulerPickNext_nil hq]
      exact .of_reprioritized hrun (.refl s) 0
  | cons next rest =>
      obtain ⟨hready, hne⟩ := h.ready_head hrun hq
      have hmem := ((h.sched.ready.mem_iff next).mp (by simp [hq])).1
      simp only [threadSchedulerPickNext_cons hq, hne, if_false]
      split
      · exact .of_reprioritized hrun
          (requeue_reprioritized p ((h.sched.threads_ok next hmem).flag.mpr hready) (by rw [hq])) 0
      · have hstill : ((s.picked next rest).threads s.currentThread).state = .running := by
          simpa [State.picked, State.running, hne.symm] using hrun
        have hflag := h.flag_false h.sched.current_mem (by rw [← State.running, hrun]; simp)
        obtain ⟨rq, hrq, heq⟩ := yield_swap_eq (k := k) hne p rest hflag
        simp only [hstill, if_true, heq]
        refine ⟨yieldAt_dispatch hrun hk ?_ (List.Perm.refl _), State.dispatch_running _ _ _,
          by simp⟩
        rw [hq]
        exact (hrq.cons next).trans (List.Perm.swap _ _ _)

theorem threadYield_yields (p : Policy) : Yields i s (threadYield p s k) := by
  cases p with
  | fifo => exact pick_yields hrun hk h .fifo
  | prio =>
      have hage := Reprioritized.ageThreads s s.currentThread
      obtain ⟨hcur, hstate, hpoint⟩ := hage.running
      have hpick := pick_yields (i := i) (s := ageThreads s s.currentThread) (hstate.trans hrun)
        (hk.congr hpoint) (h.moves (i := i) hage.move) .prio
      rw [hcur] at hpick
      exact ⟨hage.move.trans hpick.moves, hpick.runs,
        fun code hc => (hpick.stays code hc).trans hpoint⟩

theorem threadYieldTo_yields (p : Policy) {t : Tid} (ht : t ∈ s.handles) :
    Yields i s (threadYieldTo p s (some t) k) := by
  unfold threadYieldTo
  split
  next hnone => cases hnone
  next t' hsome =>
    cases hsome
    split
    · exact threadYield_yields hrun hk h p
    next hready =>
      have hready : (s.threads t).state = .ready := by simpa using hready
      have hne : t ≠ s.currentThread := by
        rintro rfl
        rw [State.running, hready] at hrun
        cases hrun
      have hflag := h.flag_false h.sched.current_mem (by rw [← State.running, hrun]; simp)
      obtain ⟨rq, hrq, heq⟩ := yieldTo_swap_eq (k := k) hne p hflag
      have hmem : t ∈ rq := hrq.mem_iff.mpr
        (List.mem_cons_of_mem _ ((h.sched.ready.mem_iff t).mpr ⟨ht, hready⟩))
      simp only [heq]
      exact ⟨yieldAt_dispatch hrun hk hrq (List.perm_cons_erase hmem).symm,
        State.dispatch_running _ _ _, by simp⟩

theorem Yields.trans_reprioritized {s₁ : State} {r : State × Option Int}
    (hs : Reprioritized s s₁) (hr : Inv s₁ → s₁.running.state = .running → YieldPoint s₁ k →
      Yields i s₁ r) : Yields i s r := by
  obtain ⟨-, hstate, hpoint⟩ := hs.running
  have hy := hr (h.moves (i := i) hs.move) (hstate.trans hrun) (hk.congr hpoint)
  exact ⟨hs.move.trans hy.moves, hy.runs, fun code hc => (hy.stays code hc).trans hpoint⟩

theorem threadSetPriority_yields (p : Policy) {t : Tid} (ht : t ∈ s.handles) (prio : Int) :
    Yields i s (threadSetPriority p s (some t) prio k) := by
  have hset : Reprioritized s
      (s.modifyThread t fun x => { x with priority := clampPriority prio }) := .modify rfl
  refine Yields.trans_reprioritized hrun hk h hset fun h₁ hrun₁ hk₁ => ?_
  unfold threadSetPriority
  cases p with
  | fifo => exact .of_reprioritized hrun₁ (.refl _) 0
  | prio =>
      simp only
      split
      next hready =>
        have hmem := (h₁.sched.ready.mem_iff t).mpr ⟨ht, hready⟩
        have hre := requeue_reprioritized .prio ((h₁.sched.threads_ok t ht).flag.mpr hready)
          (List.perm_cons_erase hmem).symm
        refine Yields.trans_reprioritized hrun₁ hk₁ h₁ hre fun h₂ hrun₂ hk₂ => ?_
        split
        · refine threadYieldTo_yields hrun₂ hk₂ h₂ .prio ?_
          obtain ⟨f, rq, -, heq⟩ := hre
          rw [heq]
          exact ht
        · exact .of_reprioritized hrun₂ (.refl _) 0
      next => exact .of_reprioritized hrun₁ (.refl _) 0

end

end UserThreads
