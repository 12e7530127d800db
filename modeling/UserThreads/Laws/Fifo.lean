import UserThreads.History.Identity
import UserThreads.Operations.LineStep

/-!
# Dispatch order under the FIFO policy

Threads are dispatched in the order in which they became ready, in every run
without a direct switch by `thread_yield_to`.
-/

namespace UserThreads

open Transition

/-- The steps of a run in which the ready queue is a line. -/
def Queued (s : State) (i : Input) : Prop := Regular s i ∧ ¬ DirectSwitch s i

instance (s : State) (i : Input) : Decidable (Queued s i) := inferInstanceAs (Decidable (_ ∧ _))

/-- The ids of the ready threads, the next to run first. -/
def State.readyIds (s : State) : List Nat := s.readyQueue.map fun t => (s.threads t).id

/-- What the state `s` of a run says about a later state `s'`. -/
structure FifoLaw (b : Build) (s s' : State) : Prop where
  /-- The threads made ready are those dispatched, and then those in the queue: no
  enqueue has been dropped. -/
  order : readied s'.trace = dispatched s'.trace ++ s'.readyIds
  /-- A thread with `k` threads ahead of it is dispatched after exactly `k`
  others, and until then one place further ahead with each of them. -/
  place : ∃ since, dispatched s'.trace = dispatched s.trace ++ since ∧
    ∀ (k : Nat) (id : Nat), s.readyIds[k]? = some id →
      (k < since.length → since[k]? = some id) ∧
        (since.length ≤ k → s'.readyIds[k - since.length]? = some id)
  /-- Setting a priority does not touch the queue. -/
  priority : ∀ t prio e s'', step b s' (.call (.threadSetPriority t prio) e) = some s'' →
    s''.readyIds = s'.readyIds ∧ readied s''.trace = readied s'.trace ∧
      dispatched s''.trace = dispatched s'.trace

section

variable {b : Build} {s s' : State}

theorem sound_inOrder_of_reach (hb : b.policy = .fifo)
    (h : Reach (step b) Queued State.initial s) : Sound s ∧ s.InOrder := by
  refine h.invariant (I := fun s => Sound s ∧ s.InOrder) ⟨sound_initial, rfl⟩ ?_
  rintro s s' i - ⟨hsound, ho⟩ hg hs
  exact ⟨hsound.step hg.1 hs, ho.step hb hsound hg.1 hg.2 hs⟩

theorem setPriority_line (hb : b.policy = .fifo) {t : Option Tid} {prio : Int} {e : Env}
    (hs : step b s (.call (.threadSetPriority t prio) e) = some s') :
    s'.line [] = s.line [] := by
  obtain ⟨-, rfl⟩ := step_call hs
  cases t with
  | none => exact finish_line _ (s, some (-1))
  | some t =>
      have hset : enter b s (.threadSetPriority (some t) prio) e =
          (s.modifyThread t fun th => { th with priority := clampPriority prio }, some 0) := by
        simp [enter, threadSetPriority, hb]
      rw [hset, finish_line]
      exact State.line_eq rfl rfl rfl fun u _ => proj_update Thread.id (by rfl) u

theorem readied_append (evs hist : List Event) :
    readied (evs ++ hist) = readied hist ++ readied evs := by
  simp [readied]

theorem dispatched_append (evs hist : List Event) :
    dispatched (evs ++ hist) = dispatched hist ++ dispatched evs := by
  simp [dispatched]

/-- Threads run in the order in which they became ready. -/
theorem fifoLaw_of_reach (hb : b.policy = .fifo) (h : Reach (step b) Queued State.initial s)
    (h' : Reach (step b) Queued s s') : FifoLaw b s s' := by
  obtain ⟨-, ho⟩ := sound_inOrder_of_reach hb h
  obtain ⟨-, ho'⟩ := sound_inOrder_of_reach hb (h.trans h')
  have hregular : RegularReach b s := h.mono fun _ _ hg => hg.1
  obtain ⟨-, hlater⟩ := Later.of_reach h' (fun _ _ hg => hg.1) hregular.settled
  obtain ⟨evs, hevs⟩ := hlater.history
  have hjoined : (s'.line []).joined = (s.line []).joined ++ readied evs := by
    calc readied s'.trace = readied (evs ++ s.trace) := by rw [hevs]
      _ = readied s.trace ++ readied evs := readied_append evs s.trace
  have hserved : (s'.line []).served = (s.line []).served ++ dispatched evs := by
    calc dispatched s'.trace = dispatched (evs ++ s.trace) := by rw [hevs]
      _ = dispatched s.trace ++ dispatched evs := dispatched_append evs s.trace
  refine ⟨ho', ⟨dispatched evs, hserved, fun k id hk => ?_⟩, fun t prio e s'' hs => ?_⟩
  · exact ho.place ho' hjoined hserved hk
  · have hline := setPriority_line hb hs
    exact ⟨congrArg Line.queue hline, congrArg Line.joined hline, congrArg Line.served hline⟩

end

/-- Thread 2, with thread 1 ahead of it, is the second to be dispatched. -/
theorem fifoLaw_of_reach_second : ∃ s s', Reach (step .fifo) Queued State.initial s ∧
    Reach (step .fifo) Queued s s' ∧ s.readyIds = [1, 2] ∧
    dispatched s'.trace = dispatched s.trace ++ [1, 2] ∧ FifoLaw .fifo s s' := by
  obtain ⟨s, hreach, hready, hrun⟩ := exists_reach_of_run (step .fifo) Queued State.initial
    [.create 1, .create 2]
    (fun s => s.readyIds = [1, 2] ∧
      (run (step .fifo) Queued s
        [.plain .threadYield, .go, .plain (.threadSetPriority (some 2) 0), .create 3,
          .plain (.threadExit 0), .go]).map (fun s' =>
            decide (dispatched s'.trace = dispatched s.trace ++ [1, 2])) = some true)
    (by decide +kernel)
  obtain ⟨s', hlater, hdispatched⟩ := exists_reach_of_run _ _ s _ _ hrun
  exact ⟨s, s', hreach, hlater, hready, hdispatched, fifoLaw_of_reach rfl hreach hlater⟩

end UserThreads
