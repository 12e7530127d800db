import UserThreads.Operations.Step

/-!
# The scheduler law

Between operations one thread runs, and every other thread is in the queue
that its state and its point call for.
-/

namespace UserThreads

open Transition

/-- The queues and the states of the threads agree. -/
structure SchedulerLaw (s : State) : Prop where
  current_mem : s.currentThread ∈ s.handles
  running : ∀ t ∈ s.handles, (s.threads t).state = .running ↔ t = s.currentThread
  ready : ∀ t ∈ s.handles,
    ((s.threads t).state = .ready ↔ s.readyQueue.count t = 1) ∧
      ((s.threads t).state = .ready ↔ (s.threads t).inReadyQueue = true)
  not_ready : ∀ t ∈ s.handles, (s.threads t).state ≠ .ready → t ∉ s.readyQueue
  blocked : ∀ t ∈ s.handles, (s.threads t).state = .blocked →
    t ∉ s.readyQueue ∧ t ∉ s.zombieQueue ∧
      (∀ q, (s.waitingQueue q).count t = if (s.threads t).point.queue = some q then 1 else 0) ∧
      ((s.threads t).point.queue = none →
        (s.threads t).point.target.isSome ∨ (s.threads t).point.sigset.isSome)
  waiting : ∀ q, ∀ t ∈ s.waitingQueue q, t ∈ s.handles ∧ (s.threads t).state = .blocked
  zombie : ∀ t ∈ s.handles,
    ((s.threads t).inZombieQueue = true ↔ s.zombieQueue.count t = 1) ∧
      ((s.threads t).inZombieQueue = true → (s.threads t).state = .terminated)
  only_threads : ∀ t, t ∈ s.readyQueue ∨ t ∈ s.zombieQueue → t ∈ s.handles
  one_queue : ∀ t, (t ∈ s.readyQueue → t ∉ s.zombieQueue ∧ ∀ q, t ∉ s.waitingQueue q) ∧
    (t ∈ s.zombieQueue → ∀ q, t ∉ s.waitingQueue q) ∧
    ∀ q q', t ∈ s.waitingQueue q → t ∈ s.waitingQueue q' → q = q'

/-- The queues that a run without re-initialisation has lost nothing from. -/
def NothingLost (s : State) : Prop := ∀ q, s.lost q = []

theorem Move.lost {i : Input} {s s' : State} (hm : Move i s s') : s'.lost = s.lost := by
  cases hm <;> rfl

theorem Moves.lost {i : Input} {s s' : State} (hm : Moves i s s') : s'.lost = s.lost := by
  induction hm with
  | refl => rfl
  | tail _ hmove ih => exact hmove.lost.trans ih

theorem Release.lost {m : MutexId} {s s' : State} (hr : Release m s s') : s'.lost = s.lost := by
  cases hr <;> rfl

theorem Acquire.lost {m : MutexId} {k : Point} {s s' : State} (ha : Acquire m k s s') :
    s'.lost = s.lost := by
  cases ha <;> rfl

theorem nothingLost_initQueue {s : State} (h : NothingLost s) {q : QueueId}
    (hq : s.waitingQueue q = []) : NothingLost (s.initQueue q) := by
  intro q'
  by_cases hqq : q' = q
  · subst q'
    simp [State.initQueue, hq, h q]
  · simpa [State.initQueue, hqq] using h q'

/-- An object that is initialised while nobody waits on it loses nobody. -/
theorem Act.nothingLost {i : Input} {s s' : State} (ha : Act i s s') (hg : NoReinit s i)
    (h : NothingLost s) : NothingLost s' := by
  cases ha with
  | mutexInit m e hi => exact nothingLost_initQueue h (hg _ (by rw [hi]; rfl))
  | condInit c e hi => exact nothingLost_initQueue h (hg _ (by rw [hi]; rfl))
  | semInit sm v e hi hv =>
      have hsome : i.initialises = some (.sem sm) := by
        rw [hi]
        simp [Input.initialises, Int.not_lt.mpr hv]
      exact nothingLost_initQueue h (hg _ hsome)
  | lock m e hi huser ha =>
      intro q
      rw [ha.lost]
      exact h q
  | relock c m e hi hk ha hb =>
      intro q
      have hback : s'.lost = s.lost := by cases hb <;> exact ha.lost
      rw [hback]
      exact h q
  | unlock m e hi huser hvalid hheld hr =>
      intro q
      rw [hr.lost]
      exact h q
  | condWait c m e hi hrun huser hready hr =>
      intro q
      exact (congrFun hr.lost q).trans (h q)
  | condGiveUp c m e hi huser hready hr ha =>
      intro q
      rw [ha.lost, hr.lost]
      exact h q
  | mutexDestroy m e hi hq => exact h
  | semDestroy sm e hi hq => exact h
  | join t slot own retval e hi hrun huser ht hne hlive hfree hslot hown hchain hready => exact h

theorem Stretch.nothingLost {i : Input} {s s' : State} (hs : Stretch i s s') (hg : NoReinit s i)
    (h : NothingLost s) : NothingLost s' := by
  intro q
  rcases hs with hm | ⟨s₁, ha, hm⟩
  · rw [hm.lost]
    exact h q
  · rw [hm.lost]
    exact ha.nothingLost hg h q

/-- The law follows from the invariant when no queue has lost a thread. -/
theorem Inv.schedulerLaw {s : State} (h : Inv s) (hrun : s.running.state = .running)
    (hlost : NothingLost s) : SchedulerLaw s := by
  have hwait : ∀ q, Tracks (s.waitingQueue q) s.handles s.threads
      (fun th => th.state = .blocked ∧ th.point.queue = some q) := by
    intro q
    simpa [hlost q] using h.sched.wait q
  have hready := h.sched.ready
  have hzombie := h.sched.zombie
  have hdead : ∀ t ∈ s.zombieQueue, (s.threads t).state = .terminated := by
    intro t ht
    obtain ⟨hmem, hz⟩ := (hzombie.mem_iff t).mp ht
    exact (h.sched.threads_ok t hmem).zombie hz
  constructor
  · exact h.sched.current_mem
  · intro t ht
    constructor
    · exact h.sched.running t ht
    · rintro rfl
      exact hrun
  · intro t ht
    rw [hready.count_eq_one_iff]
    exact ⟨⟨fun hr => ⟨ht, hr⟩, And.right⟩, (h.sched.threads_ok t ht).flag.symm⟩
  · intro t ht hne hmem
    exact hne ((hready.mem_iff t).mp hmem).2
  · intro t ht hb
    refine ⟨fun hmem => ?_, fun hmem => ?_, fun q => ?_, fun hnone => ?_⟩
    · have hr := ((hready.mem_iff t).mp hmem).2
      rw [hb] at hr
      cases hr
    · have hd := hdead t hmem
      rw [hb] at hd
      cases hd
    · split
      next hq => exact (hwait q).count_eq_one_iff.mpr ⟨ht, hb, hq⟩
      next hq =>
        rw [List.count_eq_zero]
        exact fun hmem => hq (((hwait q).mem_iff t).mp hmem).2.2
    · have hblocking := (h.sched.threads_ok t ht).blocking hb
      rw [Point.Blocking, hnone] at hblocking
      simpa using hblocking
  · intro q t ht
    obtain ⟨hmem, hb, -⟩ := ((hwait q).mem_iff t).mp ht
    exact ⟨hmem, hb⟩
  · intro t ht
    rw [hzombie.count_eq_one_iff]
    exact ⟨⟨fun hz => ⟨ht, hz⟩, And.right⟩, (h.sched.threads_ok t ht).zombie⟩
  · rintro t (ht | ht)
    · exact ((hready.mem_iff t).mp ht).1
    · exact ((hzombie.mem_iff t).mp ht).1
  · intro t
    refine ⟨fun hr => ⟨fun hz => ?_, fun q hw => ?_⟩, fun hz q hw => ?_, fun q q' hw hw' => ?_⟩
    · have hstate := ((hready.mem_iff t).mp hr).2
      rw [hdead t hz] at hstate
      cases hstate
    · have hstate := ((hready.mem_iff t).mp hr).2
      rw [(((hwait q).mem_iff t).mp hw).2.1] at hstate
      cases hstate
    · have hstate := (((hwait q).mem_iff t).mp hw).2.1
      rw [hdead t hz] at hstate
      cases hstate
    · have hq := (((hwait q).mem_iff t).mp hw).2.2
      have hq' := (((hwait q').mem_iff t).mp hw').2.2
      exact Option.some.inj (hq.symm.trans hq')

/-- The steps of the scheduler law: regular, and nothing is initialised while
threads wait on it. -/
def Orderly (s : State) (i : Input) : Prop := Regular s i ∧ NoReinit s i

instance (s : State) (i : Input) : Decidable (Orderly s i) :=
  inferInstanceAs (Decidable (Regular s i ∧ NoReinit s i))

/-- In every state between operations, until the process ends, the queues and
the states of the threads agree. -/
theorem schedulerLaw_of_reach {b : Build} {s : State}
    (h : Reach (step b) Orderly State.initial s) (hlive : s.ended = false) : SchedulerLaw s := by
  have hboth : Sound s ∧ NothingLost s := by
    refine h.invariant (I := fun s => Sound s ∧ NothingLost s) ⟨sound_initial, fun _ => rfl⟩ ?_
    rintro s s' i - ⟨hs, hlost⟩ hg hstep
    exact ⟨hs.step hg.1 hstep, (step_completed hs hg.1 hstep).stretch.nothingLost hg.2 hlost⟩
  exact hboth.1.inv.schedulerLaw (hboth.1.runs hlive) hboth.2

/-- A run with a thread in a wait queue, one in the ready queue and a zombie. -/
theorem schedulerLaw_of_reach_script : ∃ s, Reach (step .fifo) Orderly State.initial s ∧
    s.ended = false ∧ s.waitingQueue (.sem 0) = [1] ∧ s.readyQueue = [0] ∧ s.zombieQueue = [2] ∧
    SchedulerLaw s := by
  obtain ⟨s, hreach, hlive, hwait, hready, hzombie⟩ := exists_reach_of_run (step .fifo) Orderly
    State.initial
    [.plain (.threadSemInit (some 0) 0), .create 1, .create 2, .create 3, .plain .threadYield, .go,
      .plain (.threadSemWait (some 0)), .go, .plain (.threadExit 7), .go]
    (fun s => s.ended = false ∧ s.waitingQueue (.sem 0) = [1] ∧ s.readyQueue = [0] ∧
      s.zombieQueue = [2]) (by decide +kernel)
  exact ⟨s, hreach, hlive, hwait, hready, hzombie, schedulerLaw_of_reach hreach hlive⟩

end UserThreads
