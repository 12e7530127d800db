import UserThreads.Operations.Advance

/-!
# A thread's place in the ready queue

Under the FIFO policy nobody gets ahead of a thread in the ready queue: whatever
the code does in whatever state, the thread keeps its place, moves forward, or is
dispatched. A yield takes a thread from the front.
-/

namespace UserThreads

open Transition

/-- The thread `l` is in the ready queue, with at most `n` threads before it. -/
def Behind (l : Tid) (n : Nat) (s : State) : Prop :=
  ∃ front rest, s.readyQueue = front ++ l :: rest ∧ front.length ≤ n

/-- The thread `l` runs, or has at most `n` threads before it. -/
def Comes (l : Tid) (n : Nat) (s : State) : Prop := s.currentThread = l ∨ Behind l n s

variable {l : Tid} {n : Nat} {s s' : State}

namespace Behind

theorem of_eq (h : Behind l n s) (heq : s'.readyQueue = s.readyQueue) : Behind l n s' := by
  obtain ⟨front, rest, hqueue, hle⟩ := h
  exact ⟨front, rest, heq.trans hqueue, hle⟩

theorem comes (h : Behind l n s) : Comes l n s := Or.inr h

theorem setState (h : Behind l n s) (t : Tid) (st : ThreadState) (w : Option Waker) :
    Behind l n (s.setState t st w) := h.of_eq rfl

/-- A thread that joins the queue joins it behind `l`. -/
theorem enqueue (h : Behind l n s) (t : Tid) : Behind l n (threadSchedulerEnqueue .fifo s t) := by
  obtain ⟨front, rest, hqueue, hle⟩ := h
  unfold threadSchedulerEnqueue
  split
  · exact ⟨front, rest, hqueue, hle⟩
  · refine ⟨front, rest ++ [t], ?_, hle⟩
    simp [State.modifyThread, hqueue]

theorem ready (h : Behind l n s) (t : Tid) (w : Option Waker) :
    Behind l n (threadSchedulerEnqueue .fifo (s.setState t .ready w) t) :=
  (h.setState t .ready w).enqueue t

/-- The first thread is `l`, or `l` has one thread less before it. -/
theorem pick (h : Behind l n s) {next : Tid} (hpick : threadSchedulerPickNext s = some (next, s')) :
    next = l ∨ 0 < n ∧ Behind l (n - 1) s' := by
  obtain ⟨front, rest, hqueue, hle⟩ := h
  unfold threadSchedulerPickNext at hpick
  cases front with
  | nil =>
      rw [hqueue] at hpick
      cases hpick
      exact Or.inl rfl
  | cons first front =>
      rw [hqueue] at hpick
      cases hpick
      rw [List.length_cons] at hle
      exact Or.inr ⟨by omega, front, rest, rfl, by omega⟩

/-- The queue that holds `l` is not empty. -/
theorem pick_none (h : Behind l n s) : threadSchedulerPickNext s ≠ none := by
  obtain ⟨front, rest, hqueue, -⟩ := h
  unfold threadSchedulerPickNext
  rw [hqueue]
  cases front <;> simp

theorem mono {m : Nat} (h : Behind l n s) (hle : n ≤ m) : Behind l m s := by
  obtain ⟨front, rest, hqueue, hlen⟩ := h
  exact ⟨front, rest, hqueue, hlen.trans hle⟩

/-- Another thread is taken out of the queue. -/
theorem remove (h : Behind l n s) {t : Tid} (hne : t ≠ l) : Behind l n (readyRemove s t) := by
  obtain ⟨front, rest, hqueue, hle⟩ := h
  by_cases ht : t ∈ front
  · refine ⟨front.erase t, rest, ?_, (List.length_erase_le).trans hle⟩
    simp [readyRemove, State.modifyThread, hqueue, List.erase_append_left _ ht]
  · refine ⟨front, rest.erase t, ?_, hle⟩
    simp [readyRemove, State.modifyThread, hqueue, List.erase_append_right _ ht,
      List.erase_cons_tail (show ¬ (l == t) = true by simpa using hne.symm)]

/-- What picks a thread and runs it, after changes to neither queue nor choice. -/
theorem switch (h : Behind l n s) {next : Tid} {s₁ : State}
    (hpick : threadSchedulerPickNext s = some (next, s₁)) (hcurrent : s'.currentThread = next)
    (hqueue : ∀ m, Behind l m s₁ → Behind l m s') : Comes l n s' := by
  rcases h.pick hpick with rfl | ⟨-, hbehind⟩
  · exact Or.inl hcurrent
  · exact Or.inr ((hqueue _ hbehind).mono (Nat.sub_le n 1))

/-- A yield takes a thread from the front, which runs. -/
theorem threadYield (h : Behind l n s) (hne : s.currentThread ≠ l) (k : Point) :
    (threadYield .fifo s k).1.currentThread = l ∨
      0 < n ∧ Behind l (n - 1) (threadYield .fifo s k).1 := by
  unfold UserThreads.threadYield
  dsimp only
  split
  next hnone => exact absurd hnone h.pick_none
  next next s₁ hpick =>
    rcases h.pick hpick with rfl | ⟨hpos, hbehind⟩
    · rw [if_neg (Ne.symm hne), if_neg (by simp)]
      exact Or.inl rfl
    · refine Or.inr ⟨hpos, ?_⟩
      split
      · exact hbehind
      · rw [if_neg (by simp)]
        split
        · exact (hbehind.ready s.currentThread none).of_eq rfl
        · exact hbehind.of_eq rfl

/-- A direct switch lets no thread into the queue before `l`. -/
theorem threadYieldTo (h : Behind l n s) (hne : s.currentThread ≠ l) (target : Option Tid)
    (k : Point) : Comes l n (threadYieldTo .fifo s target k).1 := by
  unfold UserThreads.threadYieldTo
  split
  next => exact (h.of_eq rfl).comes
  next target =>
    split
    · rcases h.threadYield hne k with hrun | ⟨-, hbehind⟩
      · exact Or.inl hrun
      · exact (hbehind.mono (Nat.sub_le n 1)).comes
    · dsimp only
      by_cases ht : target = l
      · exact Or.inl ht
      · exact Or.inr (((h.ready s.currentThread none).remove ht).of_eq rfl)

/-- A waiter that is woken is enqueued behind `l`. -/
theorem wakeFirst (h : Behind l n s) (q : QueueId) : Behind l n (wakeFirst .fifo s q) := by
  unfold UserThreads.wakeFirst
  split
  · exact h
  · apply ready
    exact h.of_eq rfl

theorem wakeAll (q : QueueId) (m : Nat) (h : Behind l n s) : Behind l n (wakeAll .fifo q m s) := by
  induction m generalizing s with
  | zero => exact h
  | succ m ih =>
      unfold UserThreads.wakeAll
      split
      · exact h
      · exact ih (h.wakeFirst q)

theorem releaseMutex (h : Behind l n s) (m : MutexId) : Behind l n (releaseMutex .fifo s m) := by
  unfold UserThreads.releaseMutex
  dsimp only
  split
  · apply wakeFirst
    exact h.of_eq rfl
  · exact h.of_eq rfl

/-- A lock that blocks takes the thread at the front. -/
theorem mutexLock (h : Behind l n s) (m : MutexId) (k : Point) : Comes l n (mutexLock s m k).1 := by
  unfold UserThreads.mutexLock
  split
  · exact (h.of_eq rfl).comes
  · split
    · exact (h.of_eq rfl).comes
    · split
      next => exact h.comes
      next next s₁ hpick => exact h.switch hpick rfl fun _ hbehind => hbehind.of_eq rfl

theorem condRelock (h : Behind l n s) (c : CondId) (m : MutexId) (code : Int) :
    Comes l n (condRelock s c m code).1 := by
  have hlock := h.mutexLock m (.condRelock c m code)
  unfold UserThreads.condRelock
  rcases heq : UserThreads.mutexLock s m (.condRelock c m code) with ⟨s', _ | code'⟩
  · rw [heq] at hlock
    exact hlock
  · rw [heq] at hlock
    exact hlock

theorem threadCondWait (h : Behind l n s) (c : CondId) (m : MutexId) :
    Comes l n (threadCondWait .fifo s (some c) (some m)).1 := by
  unfold UserThreads.threadCondWait
  dsimp only
  split
  next hnone => exact absurd hnone h.pick_none
  next next s₁ hpick =>
    exact h.switch hpick rfl fun _ hbehind => (hbehind.releaseMutex m).of_eq rfl

theorem threadSemWait (h : Behind l n s) (sm : Option SemId) :
    Comes l n (threadSemWait s sm).1 := by
  unfold UserThreads.threadSemWait
  split
  next => exact h.comes
  next sm =>
    split
    · exact (h.of_eq rfl).comes
    · split
      next => exact h.comes
      next next s₁ hpick => exact h.switch hpick rfl fun _ hbehind => hbehind.of_eq rfl

theorem threadSemPost (h : Behind l n s) (sm : Option SemId) :
    Behind l n (threadSemPost .fifo s sm).1 := by
  unfold UserThreads.threadSemPost
  split
  next => exact h
  next sm =>
    dsimp only
    split
    · apply wakeFirst
      exact h.of_eq rfl
    · exact h.of_eq rfl

theorem threadSignalSend (h : Behind l n s) (t : Option Tid) (sig : Int) :
    Behind l n (threadSignalSend .fifo s t sig).1 := by
  unfold UserThreads.threadSignalSend
  split
  next => exact h.of_eq rfl
  next target =>
    split
    · exact h.of_eq rfl
    · dsimp only
      split
      · apply ready
        exact h.of_eq rfl
      · exact h.of_eq rfl

theorem sigwaitLoop (h : Behind l n s) (set : BitVec 32) : Comes l n (sigwaitLoop s set).1 := by
  unfold UserThreads.sigwaitLoop
  extract_lets current available chosen s₁
  split
  · split
    · exact (h.of_eq rfl).comes
    · exact (h.of_eq rfl).comes
  · have h₁ : Behind l n s₁ := h.of_eq rfl
    split
    next hnone => exact absurd hnone h₁.pick_none
    next next s₂ hpick => exact h₁.switch hpick rfl fun _ hbehind => hbehind.of_eq rfl

/-- The claim of a target writes nothing of the scheduler's but the handles. -/
theorem claimTarget (h : Behind l n s) (t : Tid) : Behind l n (claimTarget s t) := by
  have hremove : (threadZombieRemove s t).readyQueue = s.readyQueue := by
    unfold threadZombieRemove
    split <;> rfl
  have hforget : ∀ r : State, Behind l n r → Behind l n { r with handles := r.handles.erase t } :=
    fun r hr => hr.of_eq rfl
  unfold UserThreads.claimTarget
  apply hforget
  split
  · exact h
  · extract_lets s₁ s₂
    have hrecycled : s₂.readyQueue = s₁.readyQueue := by
      unfold s₂
      split
      · rfl
      · exact congrArg (·.2.1) (schedule_stackPoolPush s₁ _).1
    have hreleased : (threadObjRelease s₂ t).readyQueue = s₂.readyQueue :=
      congrArg (·.2.1) (schedule_threadObjRelease s₂ t)
    exact h.of_eq ((hreleased.trans hrecycled).trans hremove)

/-- A join that blocks takes the thread at the front. -/
theorem joinChecked (h : Behind l n s) (t : Tid) (retval : Bool) :
    Comes l n (joinChecked s t retval).1 := by
  unfold UserThreads.joinChecked
  split
  · exact ((h.claimTarget t).of_eq rfl).comes
  · split
    · split
      · exact (h.of_eq rfl).comes
      · unfold joinBlock
        extract_lets prev targetIsHead s₁ s₂ s₃ s₄
        have h₃ : Behind l n s₃ := by
          unfold s₃
          split
          · exact h.of_eq rfl
          · exact h.of_eq rfl
        have h₄ : Behind l n s₄ := h₃.of_eq rfl
        split
        next hnone => exact absurd hnone h₄.pick_none
        next next s₅ hpick => exact h₄.switch hpick rfl fun _ hbehind => hbehind.of_eq rfl
    · exact (h.of_eq rfl).comes

theorem joinResume (h : Behind l n s) (t : Tid) (retval : Bool) :
    Behind l n (joinResume s t retval).1 := by
  unfold UserThreads.joinResume
  extract_lets s₁ stored id
  have h₁ : Behind l n s₁ := h.of_eq rfl
  split
  · exact (h₁.claimTarget t).of_eq rfl
  · exact (h₁.claimTarget t).of_eq rfl

/-- An exit enqueues the joiner behind `l` and takes the thread at the front. -/
theorem threadExit (h : Behind l n s) (v : Value) : Comes l n (threadExit .fifo s v) := by
  unfold UserThreads.threadExit
  extract_lets dying s₁ s₂
  have hzombie : Behind l n (exitZombie (s₁.setState dying .terminated none) dying) := by
    obtain ⟨map, base, flag, deferred, zombies, heq⟩ :=
      exitZombie_frame (s₁.setState dying .terminated none) dying
    rw [heq]
    exact h.of_eq rfl
  have hwoken : Behind l n s₂ := by
    unfold s₂ exitWake
    split
    · exact hzombie
    · exact hzombie.ready _ _
  split
  next hnone => exact absurd hnone hwoken.pick_none
  next next s₃ hpick => exact hwoken.switch hpick rfl fun _ hbehind => hbehind.of_eq rfl

end Behind

theorem Comes.of_eq (h : Comes l n s) (hcurrent : s'.currentThread = s.currentThread)
    (hqueue : s'.readyQueue = s.readyQueue) : Comes l n s' := by
  rcases h with hrun | hbehind
  · exact Or.inl (hcurrent.trans hrun)
  · exact Or.inr (hbehind.of_eq hqueue)

theorem Comes.finish {r : State × Option Int} (h : Comes l n r.1) (c : Call) :
    Comes l n (finish c r) := by
  obtain ⟨s, _ | code⟩ := r
  · exact h
  · exact h.of_eq rfl rfl

theorem Comes.returning {r : State × Option Int} (h : Comes l n r.1) (c : Call)
    (suspended : List Stmt) : Comes l n (returning c suspended r).1 := by
  obtain ⟨s, _ | code⟩ := r
  · exact h
  · exact Comes.finish h c

/-- The calls that are one critical section. -/
theorem enter_comes {c : Call} (hc : c.code = [.block, .piece (.critical c)]) {b : Build}
    (hb : b.policy = .fifo) (h : Behind l n s) (e : Env) : Comes l n (enter b s c e).1 := by
  cases Call.critical_of_code hc with
  | mutexLock m => exact h.mutexLock m _
  | mutexUnlock m =>
      simp only [enter, threadMutexUnlock, hb]
      split
      · exact (h.of_eq rfl).comes
      · split
        · exact h.comes
        · exact (h.releaseMutex _).comes
  | condSignal c =>
      simp only [enter, threadCondSignal, hb]
      exact (h.wakeFirst _).comes
  | condBroadcast c =>
      simp only [enter, threadCondBroadcast, hb]
      exact (h.wakeAll _ _).comes
  | semWait sm => exact h.threadSemWait (some sm)
  | semPost sm =>
      simp only [enter, hb]
      exact (h.threadSemPost (some sm)).comes
  | signalSend t sig hsig =>
      simp only [enter, hb]
      exact (h.threadSignalSend (some t) sig).comes

/-- A piece of library code lets nobody get ahead of `l`. -/
theorem Piece.perform_comes {p : Piece} (hproper : p.Proper) {b : Build} (hb : b.policy = .fifo)
    (h : Behind l n s) (hne : s.currentThread ≠ l) (e : Env) : Comes l n (p.perform b s e).1 := by
  by_cases hmask : p.masked = true
  · cases p with
    | yield k =>
        simp only [Piece.perform, hb, keptRunning]
        rcases h.threadYield hne k with hrun | ⟨-, hbehind⟩
        · exact Or.inl hrun
        · exact (hbehind.mono (Nat.sub_le n 1)).comes
    | yieldTo target k =>
        simp only [Piece.perform, hb]
        split
        · exact h.comes
        · exact h.threadYieldTo hne (some target) k
    | setPriority t prio k =>
        simp only [Piece.perform, hb, priorityWritten]
        exact (h.of_eq rfl).comes
    | createPublish newth =>
        simp only [Piece.perform, hb]
        apply Comes.returning
        apply Behind.comes
        apply Behind.enqueue
        exact h.of_eq rfl
    | exit retval =>
        simp only [Piece.perform, hb]
        exact h.threadExit retval
    | fault =>
        simp only [Piece.perform, enter, hb]
        split
        · unfold sigsegvHandler
          split
          · exact (h.of_eq rfl).comes
          · apply Behind.threadExit
            exact h.of_eq rfl
        · exact (h.of_eq rfl).comes
    | join target retval => exact (h.joinChecked target retval).returning _ _
    | joinClaim target retval => exact (h.joinResume target retval).comes.returning _ _
    | condWait c m =>
        simp only [Piece.perform, hb]
        split
        · exact (h.releaseMutex m).comes
        · exact h.threadCondWait c m
    | condRelock c m code => exact (h.condRelock c m code).returning _ _
    | sigwait set => exact (h.sigwaitLoop set).returning _ _
    | critical c => exact (enter_comes hproper hb h e).returning _ _
    | _ => cases hmask
  · rw [Bool.not_eq_true] at hmask
    obtain ⟨-, -, hqueue⟩ := Piece.perform_unmasked (b := b) (s := s) (e := e) hproper hmask
    by_cases hrequeue : ∃ next, p = .requeue next
    · obtain ⟨next, rfl⟩ := hrequeue
      simp only [Piece.perform, hb]
      exact (h.enqueue next).comes
    · exact (h.of_eq (hqueue fun next heq => hrequeue ⟨next, heq⟩)).comes

end UserThreads
