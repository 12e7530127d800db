import UserThreads.Operations.Ranks

/-!
# Exits, joins and yields as shifts

What `thread_exit` and `thread_join` do to the ready queue, and the four ways of a
yield: aging, a pick, and the choice between the pick and the caller.
-/

namespace UserThreads

open Transition Relation Ranks

/-! Termination and joining. -/

section Exit

variable {p : Policy} {i : Input} {d : Tid} {s : State}

theorem ranks_exitZombie (s : State) (dying : Tid) : (exitZombie s dying).ranks = s.ranks := by
  have hdefer : (deferStackReclaim s dying).ranks = s.ranks := by
    obtain ⟨map, base, deferred, heq⟩ := deferStackReclaim_frame s dying
    rw [heq]
    exact ranks_eq rfl fun u => proj_update Thread.priority (by rfl) u
  have hadd : ∀ r : State, (threadZombieAdd r dying).ranks = r.ranks := fun r =>
    ranks_eq rfl fun u => proj_update Thread.priority (by rfl) u
  unfold exitZombie
  split
  · rfl
  · dsimp only
    split
    · rw [hadd, hdefer]
    · split
      · rw [hadd, hdefer]
      · exact hdefer

/-- An exit enqueues its joiner, if it has one. -/
theorem exitWake_shifts (s : State) (dying : Tid) :
    Shifts p i d s.ranks (exitWake p s dying).ranks := by
  unfold exitWake
  split
  · exact .refl
  next joiner _ =>
    refine (Shifts.of_eq ?_).trans (enqueue_shifts _ joiner)
    simp

/-- An exit picks the thread that runs after it. -/
theorem threadExit_shifts (s : State) (retval : Value) :
    Shifts p i (threadExit p s retval).currentThread s.ranks (threadExit p s retval).ranks := by
  unfold threadExit
  dsimp only
  generalize hleft : exitWake p (exitZombie (((s.modifyThread s.currentThread fun th =>
    { th with retval := retval }).emit (.exited s.self retval)).setState s.currentThread
      .terminated none) s.currentThread) s.currentThread = left
  have hshifts : ∀ d, Shifts p i d s.ranks left.ranks := by
    intro d
    rw [← hleft]
    refine (Shifts.of_eq ?_).trans (exitWake_shifts _ _)
    rw [ranks_exitZombie]
    simp
  by_cases hq : left.readyQueue = []
  · rw [threadSchedulerPickNext_nil hq]
    exact hshifts _
  · obtain ⟨next, rest, hq⟩ := List.exists_cons_of_ne_nil hq
    rw [threadSchedulerPickNext_cons hq]
    refine (hshifts next).trans ((pick_shifts hq).trans (Shifts.of_eq ?_))
    rw [ranks_setState]
    rfl

theorem sigsegvHandler_shifts (s : State) :
    Shifts p i (sigsegvHandler p s).currentThread s.ranks (sigsegvHandler p s).ranks := by
  unfold sigsegvHandler
  split
  · exact .refl
  · refine (Shifts.of_eq ?_).trans (threadExit_shifts _ 0)
    simp

/-- A join that blocks picks the next thread, and otherwise changes nothing. -/
theorem joinBlock_scheduled (s : State) (target : Tid) (slot : SlotRef) (retval : Bool) :
    Scheduled p i s (joinBlock s target slot retval) := by
  unfold joinBlock
  by_cases hq : s.readyQueue = []
  · by_cases hhead : s.headRefs slot = target
    · simp only [hhead, if_true]
      rw [threadSchedulerPickNext_nil (by exact hq)]
      apply Scheduled.of_eq
      simp [ranks_headRefs]
    · simp only [hhead, if_false]
      rw [threadSchedulerPickNext_nil (by exact hq)]
      apply Scheduled.of_eq
      simp
  · obtain ⟨next, rest, hq⟩ := List.exists_cons_of_ne_nil hq
    unfold Scheduled
    by_cases hhead : s.headRefs slot = target
    · simp only [hhead, if_true]
      rw [threadSchedulerPickNext_cons (by exact hq)]
      dsimp only
      rw [swapThread_currentThread, ranks_swapThread]
      refine (Shifts.of_eq ?_).trans (pick_shifts (by exact hq))
      simp [ranks_headRefs]
    · simp only [hhead, if_false]
      rw [threadSchedulerPickNext_cons (by exact hq)]
      dsimp only
      rw [swapThread_currentThread, ranks_swapThread]
      refine (Shifts.of_eq ?_).trans (pick_shifts (by exact hq))
      simp

theorem threadJoin_scheduled (s : State) (t : Option Tid) (retval : Bool) :
    Scheduled p i s (threadJoin s t retval) := by
  unfold threadJoin
  split
  · exact .of_eq rfl
  · split
    · exact .of_eq rfl
    · split
      · exact .of_eq rfl
      · split
        · apply Scheduled.of_eq
          unfold joinTerminated
          rw [ranks_emit, ranks_claimTarget]
        · split
          · split
            · exact .of_eq rfl
            · exact joinBlock_scheduled s _ _ retval
          · exact .of_eq rfl

theorem joinResume_scheduled (s : State) (t : Tid) (retval : Bool) :
    Scheduled p i s (joinResume s t retval) := by
  unfold joinResume
  dsimp only
  split
  · apply Scheduled.of_eq
    simp [ranks_claimTarget]
  · apply Scheduled.of_eq
    simp [ranks_claimTarget]

end Exit

/-! Yielding and priorities. -/

section Yield

variable {p : Policy} {i : Input} {s : State}

/-- The aging loop rewrites the record of each waiting thread once. -/
theorem ageWaiting_foldl {l : List Tid} (hnd : l.Nodup) (s : State) (u : Tid) :
    (l.foldl (fun s t => s.modifyThread t Thread.ageWaiting) s).threads u =
      if u ∈ l then (s.threads u).ageWaiting else s.threads u := by
  induction l generalizing s with
  | nil => simp
  | cons t rest ih =>
      obtain ⟨ht, hrest⟩ := List.nodup_cons.mp hnd
      rw [List.foldl_cons, ih hrest]
      by_cases hu : u = t
      · subst u
        simp [ht, State.modifyThread]
      · simp [hu, State.modifyThread]

theorem ageWaiting_priority (th : Thread) :
    th.ageWaiting.priority = min (th.priority + threadWait) threadMaxPriority := by
  unfold Thread.ageWaiting
  dsimp only
  split
  · omega
  · omega

theorem ageRunning_priority (th : Thread) :
    th.ageRunning.priority = max (th.priority - threadAging) threadMinPriority := by
  unfold Thread.ageRunning
  dsimp only
  split
  · omega
  · omega

/-- The aging block, on the view. -/
theorem ranks_ageThreads {prev : Tid} (hnd : s.readyQueue.Nodup) (hprev : prev ∉ s.readyQueue)
    (hrun : (s.threads prev).state = .running) :
    (ageThreads s prev).ranks = s.ranks.aged prev := by
  have hfold := ageWaiting_foldl hnd s
  have hqueue : ∀ (l : List Tid) (r : State),
      (l.foldl (fun s t => s.modifyThread t Thread.ageWaiting) r).readyQueue = r.readyQueue := by
    intro l
    induction l with
    | nil => exact fun _ => rfl
    | cons t l ih => exact fun r => ih _
  have hsame := hqueue s.readyQueue s
  unfold ageThreads
  generalize s.readyQueue.foldl (fun s t => s.modifyThread t Thread.ageWaiting) s = waited
    at hfold hsame ⊢
  have hstill : (waited.threads prev).state = .running := by rw [hfold, if_neg hprev, hrun]
  simp only [hstill, if_true]
  refine ranks_eq hsame fun u => ?_
  by_cases hu : u = prev
  · subst u
    rw [aged_running hprev]
    simp only [State.modifyThread, Function.update_self]
    rw [ageRunning_priority, hfold, if_neg hprev]
    rfl
  · simp only [State.modifyThread, Function.update_of_ne hu]
    rw [hfold]
    simp only [Ranks.aged, hu, if_false]
    split
    next hmem =>
      have hmem' : u ∈ s.ranks.queue := hmem
      rw [if_pos hmem', ageWaiting_priority]
      rfl
    next hmem =>
      have hmem' : u ∉ s.ranks.queue := hmem
      rw [if_neg hmem']
      rfl

/-- What a yield finds: each ready thread once, and the caller not among them. -/
structure CanYield (s : State) : Prop where
  nodup : s.readyQueue.Nodup
  out : s.currentThread ∉ s.readyQueue
  runs : s.running.state = .running
  flag : s.running.inReadyQueue = false

theorem Inv.canYield (h : Inv s) (hrun : s.running.state = .running) : CanYield s := by
  have hready : ∀ t ∈ s.readyQueue, t ∈ s.handles ∧ (s.threads t).state = .ready := fun t ht =>
    (h.sched.ready.mem_iff t).mp ht
  refine ⟨h.sched.ready.nodup, fun hmem => ?_, hrun, ?_⟩
  · have hstate := (hready _ hmem).2
    rw [← State.running, hrun] at hstate
    cases hstate
  · exact h.flag_false h.sched.current_mem (by rw [← State.running, hrun]; simp)

/-- An enqueue of a thread outside the queue inserts it. -/
theorem ranks_enqueue {t : Tid} (hout : (s.threads t).inReadyQueue = false) :
    (threadSchedulerEnqueue p s t).ranks = s.ranks.enqueue p t := by
  unfold threadSchedulerEnqueue
  rw [hout]
  simp only [Bool.false_eq_true, if_false]
  rw [ranks_modify (by exact fun _ => rfl)]
  cases p with
  | fifo => rfl
  | prio => rfl

/-- `thread_yield` once the priorities are those of the choice. -/
theorem pick_yielding {r : Ranks} {k : Point} (hc : CanYield s)
    (hr : s.ranks = r.atChoice p s.currentThread) :
    let result : State × Option Int :=
      match threadSchedulerPickNext s with
      | none => (s, some 0)
      | some (next, s') =>
          if next = s.currentThread then (s', some 0)
          else if p = .prio ∧
              (s'.threads next).priority ≤ (s'.threads s.currentThread).priority then
            (threadSchedulerEnqueue p s' next, some 0)
          else
            let s' := if (s'.threads s.currentThread).state = .running then
                threadSchedulerEnqueue p (s'.setState s.currentThread .ready none) s.currentThread
              else s'
            (swapThread s' s.currentThread next k, none)
    Yielding p s.currentThread result.1.currentThread r result.1.ranks := by
  have hqueue : r.queue = s.readyQueue := by
    rw [← atChoice_queue p r s.currentThread, ← hr]
    rfl
  intro result
  cases hq : s.readyQueue with
  | nil =>
      simp only [result, threadSchedulerPickNext_nil hq]
      rw [hr]
      exact .idle (hqueue.trans hq)
  | cons next rest =>
      have hne : next ≠ s.currentThread := by
        rintro rfl
        exact hc.out (by simp [hq])
      have hpicked := ranks_picked (s := s) next rest
      have hprio : ∀ u, ((s.picked next rest).threads u).priority =
          (r.atChoice p s.currentThread).priority u := fun u => by
        rw [← hr]
        exact congrFun (congrArg Ranks.priority hpicked) u
      simp only [result, threadSchedulerPickNext_cons hq, hne, if_false, hprio]
      rw [hr] at hpicked
      split
      next hkeep =>
        have hflag : ((s.picked next rest).threads next).inReadyQueue = false := by
          simp [State.picked]
        have hcur : (threadSchedulerEnqueue p (s.picked next rest) next).currentThread =
            s.currentThread := by
          unfold threadSchedulerEnqueue
          split <;> rfl
        rw [ranks_enqueue hflag, hcur, hpicked]
        exact .keep next rest hkeep.1 (hqueue.trans hq) hkeep.2
      next hbeats =>
        have hstill : ((s.picked next rest).threads s.currentThread).state = .running := by
          simpa [State.picked, State.running, hne.symm] using hc.runs
        have hflag : (((s.picked next rest).setState s.currentThread .ready none).threads
            s.currentThread).inReadyQueue = false := by
          simpa [State.picked, State.setState, State.emit, State.modifyThread, State.running,
            hne.symm] using hc.flag
        simp only [hstill, if_true]
        rw [swapThread_currentThread, ranks_swapThread, ranks_enqueue hflag, ranks_setState,
          hpicked]
        refine .switch next rest (hqueue.trans hq) fun hp => ?_
        exact not_le.mp fun hle => hbeats ⟨hp, hle⟩

/-- A yield ages, picks, and inserts one of the two threads again. -/
theorem threadYield_yielding (hc : CanYield s) (k : Point) :
    Yielding p s.currentThread (threadYield p s k).1.currentThread s.ranks
      (threadYield p s k).1.ranks := by
  cases p with
  | fifo => exact pick_yielding (p := .fifo) hc rfl
  | prio =>
      have hages := ranks_ageThreads hc.nodup hc.out hc.runs
      obtain ⟨f, rq, hperm, hframe⟩ := Reprioritized.ageThreads s s.currentThread
      have hready : (ageThreads s s.currentThread).readyQueue = s.readyQueue :=
        congrArg Ranks.queue hages
      have hcur : (ageThreads s s.currentThread).currentThread = s.currentThread := by
        rw [hframe]
      have hc' : CanYield (ageThreads s s.currentThread) := by
        refine ⟨hready ▸ hc.nodup, ?_, ?_, ?_⟩
        · rw [hready, hcur]
          exact hc.out
        · rw [hframe]
          exact hc.runs
        · rw [hframe]
          exact hc.flag
      have hpick := pick_yielding (p := .prio) (r := s.ranks) (k := k) hc'
        (by rw [hages, hcur]; rfl)
      rw [hcur] at hpick
      exact hpick

/-- A direct switch to a ready thread. -/
theorem yieldTo_scheduled {target : Tid} (hready : (s.threads target).state = .ready) (k : Point) :
    Scheduled p i s (threadYieldTo p s (some target) k) := by
  have hremove : ∀ r : State, (readyRemove r target).ranks =
      { r.ranks with queue := r.readyQueue.erase target } := fun r =>
    ranks_eq rfl fun u => proj_update Thread.priority (by rfl) u
  unfold Scheduled threadYieldTo
  simp only [hready, ne_eq, not_true, if_false]
  rw [swapThread_currentThread, ranks_swapThread, hremove]
  refine (Shifts.of_eq ?_).trans ((enqueue_shifts _ s.currentThread).tail .remove)
  simp

theorem clampPriority_inRange (prio : Int) : InRange (clampPriority prio) := by
  unfold InRange clampPriority threadMinPriority threadMaxPriority
  dsimp only
  split
  · split
    · omega
    · omega
  · split
    · omega
    · omega

theorem ranks_setPriority (t : Tid) (v : Int) :
    (s.modifyThread t fun x => { x with priority := v }).ranks = s.ranks.setPriority t v := by
  refine ranks_eq rfl fun u => ?_
  by_cases hu : u = t
  · subst u
    simp [State.modifyThread, Ranks.setPriority]
  · rw [setPriority_of_ne v hu]
    exact congrArg Thread.priority (Function.update_of_ne hu _ _)

/-- A new priority moves its thread, and may start it at once. -/
theorem threadSetPriority_scheduled (h : Inv s) {t : Tid} (hi : i.reranks = some t) (prio : Int)
    (k : Point) :
    Scheduled p i s (threadSetPriority p s (some t) prio k) := by
  have hv := clampPriority_inRange prio
  have hset := ranks_setPriority (s := s) t (clampPriority prio)
  unfold threadSetPriority
  cases p with
  | fifo =>
      refine ReflTransGen.single ?_
      dsimp only
      rw [hset]
      exact .rank t _ hv fun hp => by cases hp
  | prio =>
      dsimp only
      generalize hs₁ : (s.modifyThread t fun x => { x with priority := clampPriority prio }) = s₁
        at hset
      have hstate : (s₁.threads t).state = (s.threads t).state := by
        rw [← hs₁]
        simp [State.modifyThread]
      split
      next hready =>
        rw [hstate] at hready
        -- Taken out and inserted again, at its new priority.
        have hremoved : (readyRemove s₁ t).ranks =
            { s₁.ranks with queue := s₁.readyQueue.erase t } :=
          ranks_eq rfl fun u => proj_update Thread.priority (by rfl) u
        have hflag : ((readyRemove s₁ t).threads t).inReadyQueue = false := by
          simp [readyRemove, State.modifyThread]
        have hback : (threadSchedulerEnqueue .prio (readyRemove s₁ t) t).ranks =
            (Ranks.setPriority { s.ranks with queue := s.readyQueue.erase t } t
              (clampPriority prio)).enqueue .prio t := by
          rw [ranks_enqueue hflag, hremoved, hset, ← hs₁]
          rfl
        have hrequeue : ∀ d, Shifts .prio i d s.ranks
            (threadSchedulerEnqueue .prio (readyRemove s₁ t) t).ranks := by
          intro d
          rw [hback]
          exact .single (.requeue t _ hv hi h.sched.ready.nodup)
        have hstill : ((threadSchedulerEnqueue .prio (readyRemove s₁ t) t).threads t).state =
            .ready := by
          obtain ⟨rq, -, heq⟩ := threadSchedulerEnqueue_eq .prio hflag
          rw [heq]
          simpa [readyRemove, State.modifyThread, hstate] using hready
        split
        · exact (hrequeue _).trans (yieldTo_scheduled hstill k)
        · exact hrequeue _
      next hready =>
        refine ReflTransGen.single ?_
        dsimp only
        rw [hset]
        refine .rank t _ hv fun _ hmem => hready ?_
        rw [hstate]
        exact ((h.sched.ready.mem_iff t).mp hmem).2

end Yield

end UserThreads
