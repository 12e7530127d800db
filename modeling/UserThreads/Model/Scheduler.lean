import UserThreads.Model.State

/-!
# The scheduler

`scheduler.c` and the inline `swap_thread`. A function that may switch
contexts returns the state at the switch; its second component is the code
returned to the caller, or `none` when the caller no longer runs.
-/

namespace UserThreads

/-- The insertion scan of the priority policy: before the first cursor of
strictly lower priority, else at the tail. -/
def insertByPriority (priority : Tid → Int) (t : Tid) : List Tid → List Tid
  | [] => [t]
  | cursor :: rest =>
      if priority t > priority cursor then t :: cursor :: rest
      else cursor :: insertByPriority priority t rest

/-- `thread_scheduler_enqueue`. -/
def threadSchedulerEnqueue (p : Policy) (s : State) (t : Tid) : State :=
  if (s.threads t).inReadyQueue then s
  else
    let queue := match p with
      | .fifo => s.readyQueue ++ [t]
      | .prio => insertByPriority (fun u => (s.threads u).priority) t s.readyQueue
    { s with readyQueue := queue }.modifyThread t fun th => { th with inReadyQueue := true }

/-- `thread_scheduler_pick_next`, with the queue it leaves. -/
def threadSchedulerPickNext (s : State) : Option (Tid × State) :=
  match s.readyQueue with
  | [] => none
  | next :: rest =>
      some (next, { s with readyQueue := rest }.modifyThread next fun th =>
        { th with inReadyQueue := false })

/-- `TAILQ_REMOVE` of a thread from the ready queue, with its flag cleared. -/
def readyRemove (s : State) (t : Tid) : State :=
  { s with readyQueue := s.readyQueue.erase t }.modifyThread t fun th =>
    { th with inReadyQueue := false }

/-- `swap_thread`: save `prev` at the point `k` and run `next`. The condition
and semaphore code writes the same three statements out. -/
def swapThread (s : State) (prev next : Tid) (k : Point) : State :=
  { s.setPoint prev k with currentThread := next }.setState next .running none

/-- A waiting thread gains `THREAD_WAIT`, up to the maximum. -/
def Thread.ageWaiting (th : Thread) : Thread :=
  { th with priority :=
      if th.priority + threadWait > threadMaxPriority then threadMaxPriority
      else th.priority + threadWait }

/-- The running thread loses `THREAD_AGING`, down to the minimum. -/
def Thread.ageRunning (th : Thread) : Thread :=
  { th with priority :=
      if th.priority - threadAging < threadMinPriority then threadMinPriority
      else th.priority - threadAging }

/-- The aging block of `thread_yield`, compiled under the priority policy. -/
def ageThreads (s : State) (prev : Tid) : State :=
  let s := s.readyQueue.foldl (fun s t => s.modifyThread t Thread.ageWaiting) s
  if (s.threads prev).state = .running then s.modifyThread prev Thread.ageRunning else s

/-- `thread_yield`, saving the caller at `k` when it switches. -/
def threadYield (p : Policy) (s : State) (k : Point) : State × Option Int :=
  let prev := s.currentThread
  let s := match p with
    | .fifo => s
    | .prio => ageThreads s prev
  match threadSchedulerPickNext s with
  | none => (s, some 0)
  | some (next, s) =>
      if next = prev then (s, some 0)
      else if p = .prio ∧ (s.threads next).priority ≤ (s.threads prev).priority then
        (threadSchedulerEnqueue p s next, some 0)
      else
        let s := if (s.threads prev).state = .running then
            threadSchedulerEnqueue p (s.setState prev .ready none) prev
          else s
        (swapThread s prev next k, none)

/-- `thread_yield_to`. -/
def threadYieldTo (p : Policy) (s : State) (target : Option Tid) (k : Point) :
    State × Option Int :=
  match target with
  | none => (s.setErrno .einval, some (-1))
  | some target =>
      if (s.threads target).state ≠ .ready then threadYield p s k
      else
        let prev := s.currentThread
        let s := threadSchedulerEnqueue p (s.setState prev .ready none) prev
        (swapThread (readyRemove s target) prev target k, none)

/-- The clamping of a requested priority. -/
def clampPriority (prio : Int) : Int :=
  let prio := if prio > threadMaxPriority then threadMaxPriority else prio
  if prio < threadMinPriority then threadMinPriority else prio

/-- `thread_set_priority`. -/
def threadSetPriority (p : Policy) (s : State) (t : Option Tid) (prio : Int) (k : Point) :
    State × Option Int :=
  match t with
  | none => (s, some (-1))
  | some th =>
      let s := s.modifyThread th fun x => { x with priority := clampPriority prio }
      match p with
      | .fifo => (s, some 0)
      | .prio =>
          if (s.threads th).state = .ready then
            let s := threadSchedulerEnqueue p (readyRemove s th) th
            let current := s.currentThread
            if th ≠ current ∧ (s.threads th).priority > (s.threads current).priority then
              threadYieldTo p s (some th) k
            else (s, some 0)
          else (s, some 0)

end UserThreads
