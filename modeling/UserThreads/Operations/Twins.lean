import UserThreads.Model.Step
import UserThreads.Transition.GuardedRun

/-!
# What the library does not read

No operation reads `errno` or the history. Two states that differ in nothing
else take the same steps, return the same codes and stay alike, so a call that
changed nothing else might as well not have been made.
-/

namespace UserThreads

open Transition

/-- The states differ in `errno` and in how their histories began. -/
def Twins (past past' : List Event) (s s' : State) : Prop :=
  ∃ new e, s.trace = new ++ past ∧ s' = { s with errno := e, trace := new ++ past' }

/-- Execute a list of inputs. -/
def runSteps (b : Build) : State → List Input → Option State
  | s, [] => some s
  | s, i :: rest => (step b s i).bind (runSteps b · rest)

/-- The same for a result: the code is the same too. -/
def TwinResults {α : Type} (past past' : List Event) (r r' : State × α) : Prop :=
  Twins past past' r.1 r'.1 ∧ r.2 = r'.2

namespace Twins

variable {past past' : List Event} {s s' : State}

/-- The records are the same. -/
theorem threads (h : Twins past past' s s') : s'.threads = s.threads := by
  obtain ⟨new, e, -, rfl⟩ := h
  rfl

theorem currentThread (h : Twins past past' s s') : s'.currentThread = s.currentThread := by
  obtain ⟨new, e, -, rfl⟩ := h
  rfl

theorem headRefs (h : Twins past past' s s') : s'.headRefs = s.headRefs := by
  obtain ⟨new, e, -, rfl⟩ := h
  rfl

/-- A change of other fields, by the same function. -/
theorem map (h : Twins past past' s s') (f : State → State)
    (hf : ∀ s e l, f { s with errno := e, trace := l } = { f s with errno := e, trace := l })
    (htrace : ∀ s, (f s).trace = s.trace) : Twins past past' (f s) (f s') := by
  obtain ⟨new, e, hnew, rfl⟩ := h
  exact ⟨new, e, (htrace s).trans hnew, hf s e _⟩

/-- The entry goes into both histories. -/
theorem emit (h : Twins past past' s s') (ev : Event) :
    Twins past past' (s.emit ev) (s'.emit ev) := by
  obtain ⟨new, e, hnew, rfl⟩ := h
  exact ⟨ev :: new, e, congrArg (ev :: ·) hnew, rfl⟩

theorem setErrno (h : Twins past past' s s') (e : Errno) :
    Twins past past' (s.setErrno e) (s'.setErrno e) := by
  obtain ⟨new, _, hnew, rfl⟩ := h
  exact ⟨new, some e, hnew, rfl⟩

theorem modifyThread (h : Twins past past' s s') (t : Tid) (f : Thread → Thread) :
    Twins past past' (s.modifyThread t f) (s'.modifyThread t f) :=
  h.map (·.modifyThread t f) (fun _ _ _ => rfl) fun _ => rfl

theorem setPoint (h : Twins past past' s s') (t : Tid) (k : Point) :
    Twins past past' (s.setPoint t k) (s'.setPoint t k) :=
  h.modifyThread t _

theorem setState (h : Twins past past' s s') (t : Tid) (st : ThreadState) (w : Option Waker) :
    Twins past past' (s.setState t st w) (s'.setState t st w) := by
  unfold State.setState
  rw [h.threads]
  exact (h.modifyThread t _).emit _

/-- An enqueue looks at the flag in the record, and at priorities. -/
theorem enqueue (h : Twins past past' s s') (p : Policy) (t : Tid) :
    Twins past past' (threadSchedulerEnqueue p s t) (threadSchedulerEnqueue p s' t) := by
  refine h.map (threadSchedulerEnqueue p · t) (fun s e l => ?_) fun s => ?_
  · unfold threadSchedulerEnqueue
    dsimp only
    split
    · rfl
    · rfl
  · unfold threadSchedulerEnqueue
    split
    · rfl
    · rfl

/-- Both pick the same thread, or none. -/
theorem pickNext (h : Twins past past' s s') :
    threadSchedulerPickNext s = none ∧ threadSchedulerPickNext s' = none ∨
      ∃ next r r', threadSchedulerPickNext s = some (next, r) ∧
        threadSchedulerPickNext s' = some (next, r') ∧ Twins past past' r r' := by
  obtain ⟨new, e, hnew, rfl⟩ := h
  unfold threadSchedulerPickNext
  cases s.readyQueue with
  | nil => exact Or.inl ⟨rfl, rfl⟩
  | cons next rest => exact Or.inr ⟨next, _, _, rfl, rfl, new, e, hnew, rfl⟩

/-- A switch writes the points of two threads. -/
theorem swap (h : Twins past past' s s') (prev next : Tid) (k : Point) :
    Twins past past' (swapThread s prev next k) (swapThread s' prev next k) := by
  refine Twins.setState ?_ _ _ _
  exact (h.setPoint prev k).map ({ · with currentThread := next }) (fun _ _ _ => rfl) fun _ => rfl

/-- Aging reads the queue and the priorities only. -/
theorem age (h : Twins past past' s s') (prev : Tid) :
    Twins past past' (ageThreads s prev) (ageThreads s' prev) := by
  have hfold : ∀ (l : List Tid) {s s' : State}, Twins past past' s s' →
      Twins past past' (l.foldl (fun s t => s.modifyThread t Thread.ageWaiting) s)
        (l.foldl (fun s t => s.modifyThread t Thread.ageWaiting) s') := by
    intro l
    induction l with
    | nil => exact fun h => h
    | cons t l ih => exact fun h => ih (h.modifyThread t _)
  have hq : s'.readyQueue = s.readyQueue := by
    obtain ⟨new, e, -, rfl⟩ := h
    rfl
  have haged := hfold s.readyQueue h
  unfold ageThreads
  rw [hq]
  dsimp only
  rw [haged.threads]
  split
  · exact haged.modifyThread prev _
  · exact haged

/-- The switch at the end of a yield. -/
theorem yieldSwitch (h : Twins past past' s s') (p : Policy) (prev next : Tid) (k : Point) :
    Twins past past'
      (swapThread (if (s.threads prev).state = .running then
        threadSchedulerEnqueue p (s.setState prev .ready none) prev else s) prev next k)
      (swapThread (if (s.threads prev).state = .running then
        threadSchedulerEnqueue p (s'.setState prev .ready none) prev else s') prev next k) := by
  refine Twins.swap ?_ _ _ _
  split
  · exact (h.setState _ _ _).enqueue p _
  · exact h

/-- `thread_yield` decides by the queue and the priorities. -/
theorem yield (h : Twins past past' s s') (p : Policy) (k : Point) :
    TwinResults past past' (threadYield p s k) (threadYield p s' k) := by
  cases p with
  | fifo =>
      simp only [threadYield, h.currentThread]
      rcases h.pickNext with ⟨hnone, hnone'⟩ | ⟨next, r, r', hsome, hsome', hr⟩
      · simp only [hnone, hnone']
        exact ⟨h, rfl⟩
      · simp only [hsome, hsome', hr.threads]
        split
        · exact ⟨hr, rfl⟩
        · exact ⟨hr.yieldSwitch .fifo _ _ _, rfl⟩
  | prio =>
      have haged := h.age s.currentThread
      simp only [threadYield, h.currentThread]
      rcases haged.pickNext with ⟨hnone, hnone'⟩ | ⟨next, r, r', hsome, hsome', hr⟩
      · simp only [hnone, hnone']
        exact ⟨haged, rfl⟩
      · simp only [hsome, hsome', hr.threads]
        split
        · exact ⟨hr, rfl⟩
        · split
          · exact ⟨hr.enqueue .prio next, rfl⟩
          · exact ⟨hr.yieldSwitch .prio _ _ _, rfl⟩

/-- `thread_yield_to` looks at the state of its target. -/
theorem yieldTo (h : Twins past past' s s') (p : Policy) (target : Option Tid) (k : Point) :
    TwinResults past past' (threadYieldTo p s target k) (threadYieldTo p s' target k) := by
  unfold threadYieldTo
  cases target with
  | none => exact ⟨h.setErrno _, rfl⟩
  | some target =>
      simp only [h.threads, h.currentThread]
      split
      · exact h.yield p k
      · refine ⟨Twins.swap ?_ _ _ _, rfl⟩
        exact ((h.setState _ _ _).enqueue p _).map (readyRemove · target) (fun _ _ _ => rfl)
          fun _ => rfl

/-- `thread_set_priority` compares the priorities of two threads. -/
theorem setPriority (h : Twins past past' s s') (p : Policy) (t : Option Tid) (prio : Int)
    (k : Point) :
    TwinResults past past' (threadSetPriority p s t prio k) (threadSetPriority p s' t prio k) := by
  unfold threadSetPriority
  cases t with
  | none => exact ⟨h, rfl⟩
  | some th =>
      have hset := h.modifyThread th fun x => { x with priority := clampPriority prio }
      cases p with
      | fifo => exact ⟨hset, rfl⟩
      | prio =>
          have hremoved := hset.map (readyRemove · th) (fun _ _ _ => rfl) fun _ => rfl
          have hmoved := hremoved.enqueue .prio th
          simp only [hset.threads]
          split
          · simp only [hmoved.threads, hmoved.currentThread]
            split
            · exact hmoved.yieldTo .prio _ k
            · exact ⟨hmoved, rfl⟩
          · exact ⟨hset, rfl⟩

end Twins

end UserThreads
