import UserThreads.Laws.Monitor

/-!
# When a wait gives up

`thread_cond_wait` returns -1 when no other thread could run. It looks for one
before it releases the mutex, and the release may itself make a thread ready: the
caller then gives up although the thread that got the mutex could have signalled
it.
-/

namespace UserThreads

open Transition

/-- The code that a wait saved at this point returns in the end. -/
def Point.waitCode : Point → Option Int
  | .condWait _ _ => some 0
  | .condRelock _ _ code => some code
  | _ => none

/-- In the step from `s` to `s'` the running thread's wait fails: it has returned
-1, or is saved at a point from where it returns nothing else. -/
def GivesUp (c : CondId) (m : MutexId) (s s' : State) : Prop :=
  s'.trace.head? = some (.returned s.self (.threadCondWait (some c) (some m)) (-1)) ∨
    (s'.threads s.currentThread).point.waitCode = some (-1)

/-- No other thread could run once the mutex is released. -/
def Alone (m : MutexId) (s : State) : Prop :=
  s.readyQueue = [] ∧ s.waitingQueue (.mutex m) = []

/-- A wait fails only if the caller is alone, and otherwise the caller is the
last in the queue of the condition. -/
structure WaitLaw (c : CondId) (m : MutexId) (s s' : State) : Prop where
  deadlock : GivesUp c m s s' → Alone m s
  parked : ¬ Alone m s →
    s'.waitingQueue (.cond c) = s.waitingQueue (.cond c) ++ [s.currentThread] ∧
      (s'.threads s.currentThread).point = .condWait c m

section

variable {p : Policy} {b : Build} {s s' : State} {c : CondId} {m : MutexId} {e : Env}

/-! The queue of the condition. -/

theorem wakeFirst_queue_of_ne {q q' : QueueId} (hne : q' ≠ q) :
    (wakeFirst p s q).waitingQueue q' = s.waitingQueue q' := by
  unfold wakeFirst
  split
  next => rfl
  next t rest hq =>
    rw [threadSchedulerEnqueue_waitingQueue]
    exact Function.update_of_ne hne _ _

theorem releaseMutex_queue_of_ne {q : QueueId} (hne : q ≠ .mutex m) :
    (releaseMutex p s m).waitingQueue q = s.waitingQueue q := by
  unfold releaseMutex
  dsimp only
  split
  · rw [wakeFirst_queue_of_ne hne]
    rfl
  · rfl

theorem mutexLock_queue_of_ne {q : QueueId} (hne : q ≠ .mutex m) (k : Point) :
    (mutexLock s m k).1.waitingQueue q = s.waitingQueue q := by
  unfold mutexLock
  split
  · rfl
  · split
    · rfl
    · by_cases hq : s.readyQueue = []
      · rw [threadSchedulerPickNext_nil hq]
      · obtain ⟨next, rest, hq⟩ := List.exists_cons_of_ne_nil hq
        rw [threadSchedulerPickNext_cons hq]
        exact Function.update_of_ne hne _ _

theorem condRelock_queue_of_ne {q : QueueId} (hne : q ≠ .mutex m) (code : Int) :
    (condRelock s c m code).1.waitingQueue q = s.waitingQueue q := by
  have hlock := mutexLock_queue_of_ne (s := s) hne (.condRelock c m code)
  unfold condRelock
  rcases heq : mutexLock s m (.condRelock c m code) with ⟨r, _ | code'⟩
  · rw [heq] at hlock
    exact hlock
  · rw [heq] at hlock
    exact hlock

theorem finish_waitingQueue (call : Call) (r : State × Option Int) :
    (finish call r).waitingQueue = r.1.waitingQueue := by
  obtain ⟨r, _ | code⟩ := r
  · rfl
  · rfl

theorem releaseMutex_currentThread : (releaseMutex p s m).currentThread = s.currentThread := by
  unfold releaseMutex wakeFirst threadSchedulerEnqueue
  dsimp only
  split
  · split
    · rfl
    · split
      · rfl
      · rfl
  · rfl

theorem swapThread_point (s : State) (prev next : Tid) (k : Point) :
    ((swapThread s prev next k).threads prev).point = k := by
  refine (proj_update Thread.point (by rfl) prev).trans ?_
  simp [State.setPoint, State.modifyThread]

/-! The two ways of the call. -/

/-- With a thread ready, the caller parks. -/
theorem condWait_parks {next : Tid} {rest : List Tid} (hq : s.readyQueue = next :: rest) :
    finish (.threadCondWait (some c) (some m)) (threadCondWait p s (some c) (some m)) =
      swapThread (park (releaseMutex p (s.picked next rest) m) (.cond c)) s.currentThread next
        (.condWait c m) := by
  have hcurrent : (park (releaseMutex p (s.picked next rest) m) (.cond c)).currentThread =
      s.currentThread := releaseMutex_currentThread
  simp only [threadCondWait, threadSchedulerPickNext_cons hq, finish]
  rw [hcurrent]

/-- With no thread ready, the caller releases the mutex and takes it again. -/
theorem condWait_givesUp (hq : s.readyQueue = []) :
    threadCondWait p s (some c) (some m) = condRelock (releaseMutex p s m) c m (-1) := by
  simp only [threadCondWait, threadSchedulerPickNext_nil hq]

/-- A wait that parks is found in the queue of the condition, and does not give
up. -/
theorem WaitLaw.of_ready {next : Tid} {rest : List Tid} (hq : s.readyQueue = next :: rest) :
    WaitLaw c m s (finish (.threadCondWait (some c) (some m))
      (threadCondWait p s (some c) (some m))) := by
  have hpoint := swapThread_point (park (releaseMutex p (s.picked next rest) m) (.cond c))
    s.currentThread next (.condWait c m)
  rw [condWait_parks hq]
  refine ⟨?_, fun _ => ⟨?_, hpoint⟩⟩
  · rintro (hreturned | hcode)
    · cases hreturned
    · rw [hpoint] at hcode
      cases hcode
  · have hrelease : (releaseMutex p (s.picked next rest) m).waitingQueue (.cond c) =
        s.waitingQueue (.cond c) := releaseMutex_queue_of_ne (by simp)
    refine (Function.update_self _ _ _).trans ?_
    rw [hrelease, releaseMutex_currentThread]
    rfl

/-- A wait that does not park leaves the queue of the condition as it was. -/
theorem condWait_queue_of_nil (hq : s.readyQueue = []) :
    (finish (.threadCondWait (some c) (some m))
      (threadCondWait p s (some c) (some m))).waitingQueue (.cond c) =
        s.waitingQueue (.cond c) := by
  rw [finish_waitingQueue, condWait_givesUp hq, condRelock_queue_of_ne (by simp),
    releaseMutex_queue_of_ne (by simp)]

/-- In every state, and for every caller, the law holds exactly if it is not the
release that makes a thread ready. -/
theorem waitLaw_iff (hs : step b s (.call (.threadCondWait (some c) (some m)) e) = some s') :
    WaitLaw c m s s' ↔ ¬ (s.readyQueue = [] ∧ s.waitingQueue (.mutex m) ≠ []) := by
  obtain ⟨-, rfl⟩ := step_call hs
  by_cases hq : s.readyQueue = []
  · constructor
    · rintro hlaw ⟨-, hwaiting⟩
      obtain ⟨hparked, -⟩ := hlaw.parked fun halone => hwaiting halone.2
      have hsame := condWait_queue_of_nil (p := b.policy) (c := c) (m := m) hq
      have hlength := congrArg List.length (hsame.symm.trans hparked)
      simp at hlength
    · intro hno
      have halone : Alone m s := ⟨hq, not_not.mp fun hwaiting => hno ⟨hq, hwaiting⟩⟩
      exact ⟨fun _ => halone, fun hnot => absurd halone hnot⟩
  · obtain ⟨next, rest, hcons⟩ := List.exists_cons_of_ne_nil hq
    exact iff_of_true (.of_ready hcons) fun hboth => hq hboth.1

end

/-- The main thread waits while thread 1 is ready. -/
theorem waitLaw_iff_ready : ∃ s s', RegularReach .fifo s ∧ owns 0 s.self s.trace = true ∧
    step .fifo s (.plain (.threadCondWait (some 0) (some 0))) = some s' ∧ s.readyQueue = [1] ∧
    WaitLaw 0 0 s s' := by
  obtain ⟨s, hreach, howns, hready, hstep⟩ := exists_reach_of_run (step .fifo) Regular State.initial
    [.plain (.threadMutexInit (some 0)), .plain (.threadCondInit (some 0)), .create 1,
      .plain (.threadMutexLock (some 0))]
    (fun s => owns 0 s.self s.trace = true ∧ s.readyQueue = [1] ∧
      (step .fifo s (.plain (.threadCondWait (some 0) (some 0)))).isSome = true) (by decide +kernel)
  obtain ⟨s', hstep⟩ := Option.isSome_iff_exists.mp hstep
  exact ⟨s, s', hreach, howns, hstep, hready, (waitLaw_iff hstep).mpr (by simp [hready])⟩

/-- The main thread waits while thread 1 is blocked on the mutex. Thread 1 gets
the mutex, but the main thread gives up and is not in the queue of the condition. -/
theorem not_waitLaw : ¬ ∀ b c m e s s', RegularReach b s → owns m s.self s.trace = true →
    step b s (.call (.threadCondWait (some c) (some m)) e) = some s' → WaitLaw c m s s' := by
  intro hall
  obtain ⟨s, hreach, howns, hwaiting, hstep⟩ := exists_reach_of_run (step .fifo) Regular
    State.initial
    [.plain (.threadMutexInit (some 0)), .plain (.threadCondInit (some 0)), .create 1,
      .plain (.threadMutexLock (some 0)), .plain .threadYield, .go,
      .plain (.threadMutexLock (some 0)), .go]
    (fun s => owns 0 s.self s.trace = true ∧ s.waitingQueue (.mutex 0) = [1] ∧
      (step .fifo s (.plain (.threadCondWait (some 0) (some 0)))).map (fun s' =>
        (s'.currentThread, s'.waitingQueue (.cond 0), (s'.threads 0).point)) =
          some (1, [], .condRelock 0 0 (-1))) (by decide +kernel)
  obtain ⟨s', hs, hend⟩ := Option.map_eq_some_iff.mp hstep
  have hlaw := hall .fifo 0 0 .plain s s' hreach howns hs
  obtain ⟨hparked, -⟩ := hlaw.parked fun halone => by
    rw [halone.2] at hwaiting
    cases hwaiting
  have hempty : s'.waitingQueue (.cond 0) = [] := congrArg (·.2.1) hend
  rw [hempty] at hparked
  simp at hparked

end UserThreads
