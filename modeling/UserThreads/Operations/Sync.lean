import UserThreads.Operations.Dispatch

/-!
# Mutexes, conditions and semaphores as acts and moves
-/

namespace UserThreads

open Transition

section

variable {i : Input} {s : State} (h : Inv s)
include h

/-- The wake-up of the first waiter, for any of the three kinds of queue. -/
theorem Inv.wakeFirst (p : Policy) {q : QueueId} {t : Tid} {rest : List Tid}
    (hq : s.waitingQueue q = t :: rest) :
    ∃ rq, rq.Perm (t :: s.readyQueue) ∧ wakeFirst p s q = s.wakeHead q t rest rq := by
  obtain ⟨ht, hb, -⟩ := h.sched.of_waiting hq
  exact wakeFirst_eq p hq (h.flag_false ht (by simp [hb]))

/-- The release code hands the mutex to the first waiter, or unlocks it. -/
theorem releaseMutex_release (p : Policy) (m : MutexId) : Release m s (releaseMutex p s m) := by
  unfold releaseMutex
  cases hq : s.waitingQueue (.mutex m) with
  | nil =>
      rw [if_neg (by simpa [State.emit] using hq)]
      exact .free hq
  | cons t rest =>
      obtain ⟨rq, hrq, heq⟩ := (h.emit (.mutexReleased m s.self)).wakeFirst p hq
      rw [if_pos (by simp [State.emit, hq]), heq]
      exact .handOff t rest rq hq hrq

/-- The body of `thread_mutex_lock` is an attempt to take the mutex. -/
theorem mutexLock_acquire (m : MutexId) {k : Point} (hrun : s.running.state = .running)
    (hold : s.running.point.Settled) :
    ∃ s₁, Acquire m k s s₁ ∧ Moves i s₁ (mutexLock s m k).1 ∧
      (mutexLock s m k).1.running.state = .running ∧
      (∀ code, (mutexLock s m k).2 = some code → (mutexLock s m k).1.running.point.Settled) := by
  unfold mutexLock
  by_cases hinvalid : s.locked m = -1
  · rw [if_pos hinvalid]
    exact ⟨s, .fail (Or.inl hinvalid), .single (.errno (some .einval)), hrun, fun _ _ => hold⟩
  rw [if_neg hinvalid]
  by_cases hfree : s.locked m = 0
  · rw [if_pos hfree]
    exact ⟨_, .take hfree, .refl, hrun, fun _ _ => hold⟩
  rw [if_neg hfree]
  cases hq : s.readyQueue with
  | nil =>
      rw [threadSchedulerPickNext_nil hq]
      exact ⟨s, .fail (Or.inr ⟨hfree, hq⟩), .refl, hrun, fun _ _ => hold⟩
  | cons next rest =>
      obtain ⟨-, hne⟩ := h.ready_head hrun hq
      simp only [threadSchedulerPickNext_cons hq]
      rw [show (s.picked next rest).currentThread = s.currentThread from rfl, park_swap_eq hne]
      refine ⟨_, .park hrun hold hinvalid hfree (by simp [hq]), Moves.dispatch ?_ hq,
        State.dispatch_running _ _ _, by simp⟩
      simp [State.parkAt, State.running]

/-- `thread_cond_wait` picks the next thread first and wakes a mutex waiter
afterwards; the same state is reached in the other order. -/
theorem releaseMutex_picked (p : Policy) (m : MutexId) {next : Tid} {rest : List Tid}
    (hq : s.readyQueue = next :: rest) :
    ∃ s₁ rq, Release m s s₁ ∧ s₁.readyQueue = next :: rq ∧
      releaseMutex p (s.picked next rest) m = s₁.picked next rq := by
  unfold releaseMutex
  cases hw : s.waitingQueue (.mutex m) with
  | nil =>
      rw [if_neg (by simpa [State.emit, State.picked] using hw), State.picked_self]
      exact ⟨_, rest, .free hw, hq, rfl⟩
  | cons t waiting =>
      obtain ⟨ht, hb, -⟩ := h.sched.of_waiting hw
      obtain ⟨-, hready⟩ := (h.sched.ready.mem_iff next).mp (by simp [hq])
      have hne : t ≠ next := by
        rintro rfl
        rw [hb] at hready
        cases hready
      have hout : (((s.picked next rest).emit (.mutexReleased m s.self)).threads t).inReadyQueue =
          false := by
        simpa [State.picked, State.emit, hne] using h.flag_false ht (by simp [hb])
      have hw' : ((s.picked next rest).emit (.mutexReleased m s.self)).waitingQueue (.mutex m) =
          t :: waiting := hw
      obtain ⟨rq, hrq, heq⟩ := wakeFirst_eq p hw' hout
      have hrq' : (next :: rq).Perm (t :: s.readyQueue) := by
        rw [hq]
        exact (hrq.cons next).trans (List.Perm.swap t next rest)
      rw [if_pos (by simp [State.emit, State.picked, hw]), State.picked_self, heq]
      refine ⟨_, rq, .handOff t waiting (next :: rq) hw hrq', rfl, ?_⟩
      simp [State.wakeHead, State.picked, State.emit, hne, hne.symm, Function.update_comm hne]

end

section

variable {i : Input} {s : State} (h : Inv s) (hrun : s.running.state = .running)
include h hrun

/-- The inner lock of `thread_cond_wait`: its result is dropped. -/
theorem condRelock_acquire (c : CondId) (m : MutexId) (code : Int)
    (hold : s.running.point.Settled) :
    ∃ s₁, Acquire m (.condRelock c m code) s s₁ ∧ Moves i s₁ (condRelock s c m code).1 ∧
      (condRelock s c m code).1.running.state = .running ∧
      (∀ code', (condRelock s c m code).2 = some code' →
        (condRelock s c m code).1.running.point.Settled) := by
  obtain ⟨s₁, ha, hm, hr, hp⟩ :=
    mutexLock_acquire (i := i) h m (k := .condRelock c m code) hrun hold
  refine ⟨s₁, ha, ?_⟩
  unfold condRelock
  cases hres : mutexLock s m (.condRelock c m code) with
  | mk s' res =>
      rw [hres] at hm hr hp
      cases res with
      | none => exact ⟨hm, hr, by simp⟩
      | some code' => exact ⟨hm, hr, fun _ _ => hp code' rfl⟩

end

section

variable {i : Input} {s s₁ s₂ : State} {c : CondId} {m : MutexId}

/-- The return to user code, seen as the end of the wait and then the entry in
the history. -/
theorem finish_back (c : Call) (code : Int) :
    Move i (s.setPoint s.currentThread .user) (finish c (s, some code)) := by
  have hself : (s.setPoint s.currentThread .user).self = s.self := by
    simp [State.self, State.setPoint, State.modifyThread]
  have hreturned := Move.returned (i := i) (s := s.setPoint s.currentThread .user) c code
  rwa [hself] at hreturned

/-- A wait that gets the mutex back at once, or fails to, returns. -/
theorem relock_returns {e : Env} (hi : i = .resume e) (hrun : s.running.state = .running)
    (hk : s.running.point = .condWait c m) (ha : Acquire m (.condRelock c m 0) s s₁)
    (hsame : s₁.running = s.running) (hm : Moves i (s₁.setPoint s₁.currentThread .user)
      (s₂.setPoint s₂.currentThread .user)) (hsame₂ : s₂.running = s.running) (call : Call) :
    Completed i s (finish call (s₂, some 0)) := by
  have hback : Back s₁ (s₁.setPoint s₁.currentThread .user) :=
    .user (by rw [hsame, hrun]) (by rw [hsame, hk]; exact ⟨rfl, rfl⟩)
  refine ⟨.of_act (.relock c m e hi hk ha hback) (hm.tail (finish_back call 0)), Or.inr ?_⟩
  have hrun₂ : (s₂.threads s₂.currentThread).state = .running := by
    rw [← State.running, hsame₂, hrun]
  simpa [finish, State.setPoint, State.modifyThread, State.emit, State.running] using hrun₂

/-- What a waiter does from its resumption to its return. -/
theorem condWait_resumed (h : Inv s) (hrun : s.running.state = .running) (c : CondId) (m : MutexId)
    (e : Env) (hi : i = .resume e) (hk : s.running.point = .condWait c m) :
    Completed i s (finish (.threadCondWait (some c) (some m)) (condRelock s c m 0)) := by
  unfold condRelock mutexLock
  by_cases hinvalid : s.locked m = -1
  · rw [if_pos hinvalid]
    have herrno : Moves i (s.setPoint s.currentThread .user)
        ((s.setErrno .einval).setPoint s.currentThread .user) :=
      .single (.errno (s := s.setPoint s.currentThread .user) (some .einval))
    exact relock_returns hi hrun hk (.fail (Or.inl hinvalid)) rfl herrno rfl _
  rw [if_neg hinvalid]
  by_cases hfree : s.locked m = 0
  · rw [if_pos hfree]
    exact relock_returns hi hrun hk (.take hfree) rfl .refl rfl _
  rw [if_neg hfree]
  cases hq : s.readyQueue with
  | nil =>
      rw [threadSchedulerPickNext_nil hq]
      exact relock_returns hi hrun hk (.fail (Or.inr ⟨hfree, hq⟩)) rfl .refl rfl _
  | cons next rest =>
      obtain ⟨-, hne⟩ := h.ready_head hrun hq
      simp only [threadSchedulerPickNext_cons hq]
      rw [show (s.picked next rest).currentThread = s.currentThread from rfl, park_swap_eq hne]
      have hleft : (s.parkAt (.mutex m) (.condRelock c m 0)).running.state ≠ .running := by
        simp [State.parkAt, State.running]
      have hpark : Acquire m (.condRelock c m 0) s (s.parkAt (.mutex m) (.condRelock c m 0)) :=
        .park hrun (by rw [hk]; exact ⟨rfl, rfl⟩) hinvalid hfree (by simp [hq])
      exact ⟨.of_act (.relock c m e hi hk hpark (.switched hleft)) (Moves.dispatch hleft hq),
        Or.inr (State.dispatch_running _ _ _)⟩

end

section

variable {s : State} (hrun : s.running.state = .running) (huser : s.running.point = .user)
  {i : Input} {e : Env}
include hrun huser

theorem threadMutexInit_served (m : Option MutexId) (hi : i = .call (.threadMutexInit m) e) :
    Served i s (threadMutexInit s m) := by
  have hold := settled_of_user huser
  cases m with
  | none => exact .nothing hrun hold _
  | some m =>
      unfold threadMutexInit
      exact .stay (s := s) (.of_act (.mutexInit m e hi) .refl) hrun hold 0

theorem threadMutexDestroy_served (m : Option MutexId)
    (hi : i = .call (.threadMutexDestroy m) e) : Served i s (threadMutexDestroy s m) := by
  have hold := settled_of_user huser
  cases m with
  | none => exact .nothing hrun hold _
  | some m =>
      unfold threadMutexDestroy
      by_cases hq : s.waitingQueue (.mutex m) = []
      · simp only [hq, ne_eq, not_true_eq_false, if_false]
        exact .stay (.of_act (.mutexDestroy m e hi hq) .refl) hrun hold _
      · simp only [ne_eq, hq, not_false_eq_true, if_true]
        exact .nothing hrun hold _

theorem threadCondInit_served (c : Option CondId) (hi : i = .call (.threadCondInit c) e) :
    Served i s (threadCondInit s c) := by
  have hold := settled_of_user huser
  cases c with
  | none => exact .nothing hrun hold _
  | some c =>
      unfold threadCondInit
      exact .stay (s := s) (.of_act (.condInit c e hi) .refl) hrun hold 0

theorem threadCondDestroy_served (c : Option CondId) : Served i s (threadCondDestroy s c) := by
  have hold := settled_of_user huser
  unfold threadCondDestroy
  split
  · exact .nothing hrun hold _
  · split
    · exact .nothing hrun hold _
    · exact .nothing hrun hold _

theorem threadSemInit_served (sm : Option SemId) (v : Int)
    (hi : i = .call (.threadSemInit sm v) e) : Served i s (threadSemInit s sm v) := by
  have hold := settled_of_user huser
  cases sm with
  | none => exact .nothing hrun hold _
  | some sm =>
      unfold threadSemInit
      by_cases hv : v < 0
      · simp only [hv, if_true]
        exact .nothing hrun hold _
      · simp only [hv, if_false]
        exact .stay (s := s) (.of_act (.semInit sm v e hi (Int.not_lt.mp hv)) .refl) hrun hold 0

theorem threadSemDestroy_served (sm : Option SemId) (hi : i = .call (.threadSemDestroy sm) e) :
    Served i s (threadSemDestroy s sm) := by
  have hold := settled_of_user huser
  cases sm with
  | none => exact .nothing hrun hold _
  | some sm =>
      unfold threadSemDestroy
      by_cases hq : s.waitingQueue (.sem sm) = []
      · simp only [hq, ne_eq, not_true_eq_false, if_false]
        exact .stay (.of_act (.semDestroy sm e hi hq) .refl) hrun hold _
      · simp only [ne_eq, hq, not_false_eq_true, if_true]
        exact .nothing hrun hold _

end

section

variable {s : State} (h : Inv s) (hrun : s.running.state = .running)
  (huser : s.running.point = .user) {i : Input} {e : Env}
include h hrun huser

theorem threadMutexLock_served (m : Option MutexId) (hi : i = .call (.threadMutexLock m) e) :
    Served i s (threadMutexLock s m) := by
  have hold := settled_of_user huser
  cases m with
  | none => exact .nothing hrun hold _
  | some m =>
      obtain ⟨s₁, ha, hm, hr, hp⟩ := mutexLock_acquire (i := i) h m (k := .mutexLock m) hrun hold
      exact ⟨.of_act (.lock m e hi huser ha) hm, fun code hc => ⟨hr, hp code hc⟩,
        fun _ => Or.inr hr⟩

theorem threadMutexUnlock_served (p : Policy) (m : Option MutexId)
    (hi : i = .call (.threadMutexUnlock m) e) : Served i s (threadMutexUnlock p s m) := by
  have hold := settled_of_user huser
  cases m with
  | none => exact .nothing hrun hold _
  | some m =>
      unfold threadMutexUnlock
      by_cases hinvalid : s.locked m = -1
      · simp only [hinvalid, if_true]
        exact .refuse hrun hold _ _
      by_cases hfree : s.locked m = 0
      · simp only [hfree, if_true]
        exact .nothing hrun hold _
      simp only [hinvalid, hfree, if_false]
      have hr := releaseMutex_release h p m
      obtain ⟨-, hsame⟩ := h.release_running hr hrun
      exact .stay (.of_act (.unlock m e hi huser hinvalid hfree hr) .refl) (by rw [hsame, hrun])
        (by rwa [hsame]) _

theorem threadCondWait_served (p : Policy) (c : Option CondId) (m : Option MutexId)
    (hi : i = .call (.threadCondWait c m) e) : Served i s (threadCondWait p s c m) := by
  have hold := settled_of_user huser
  unfold threadCondWait
  split
  next c m =>
    cases hq : s.readyQueue with
    | nil =>
        have hr := releaseMutex_release h p m
        obtain ⟨-, hsame⟩ := h.release_running hr hrun
        obtain ⟨s₁, ha, hm, hrun', hp⟩ := condRelock_acquire (i := i) (h.release hr)
          (by rw [hsame, hrun]) c m (-1) (by rwa [hsame])
        rw [threadSchedulerPickNext_nil hq]
        exact ⟨.of_act (.condGiveUp c m e hi huser hq hr ha) hm,
          fun code hc => ⟨hrun', hp code hc⟩, fun _ => Or.inr hrun'⟩
    | cons next rest =>
        obtain ⟨-, hne⟩ := h.ready_head hrun hq
        obtain ⟨s₁, rq, hr, hq', heq⟩ := releaseMutex_picked h p m hq
        obtain ⟨hcur, -⟩ := h.release_running hr hrun
        simp only [threadSchedulerPickNext_cons hq, heq]
        rw [show (park (s₁.picked next rq) (.cond c)).currentThread = s₁.currentThread from rfl,
          park_swap_eq (by rwa [hcur])]
        have hact : Act i s (s₁.parkAt (.cond c) (.condWait c m)) :=
          .condWait c m e hi hrun huser (by simp [hq]) hr
        exact .switch (.of_act hact (Moves.dispatch (by simp [State.parkAt, State.running]) hq'))
          (State.dispatch_running _ _ _)
  next => exact .nothing hrun hold _

omit huser in
/-- One wake-up of a condition waiter, if there is one. -/
theorem condWake_moves (p : Policy) (c : CondId) :
    Moves i s (wakeFirst p s (.cond c)) ∧ (wakeFirst p s (.cond c)).running = s.running := by
  cases hq : s.waitingQueue (.cond c) with
  | nil =>
      have hnone : wakeFirst p s (.cond c) = s := by simp [wakeFirst, hq]
      rw [hnone]
      exact ⟨.refl, rfl⟩
  | cons t rest =>
      obtain ⟨rq, hrq, heq⟩ := h.wakeFirst p hq
      rw [heq]
      exact ⟨.single (.condWake c t rest rq hq hrq), h.wakeHead_running hq hrun rq⟩

theorem threadCondSignal_served (p : Policy) (c : Option CondId) :
    Served i s (threadCondSignal p s c) := by
  have hold := settled_of_user huser
  cases c with
  | none => exact .nothing hrun hold _
  | some c =>
      obtain ⟨hm, hsame⟩ := condWake_moves (i := i) h hrun p c
      exact .stay (.of_moves hm) (by rw [hsame, hrun]) (by rwa [hsame]) _

omit huser in
/-- A broadcast is one wake-up after the other. -/
theorem wakeAll_moves (p : Policy) (c : CondId) (n : Nat) :
    Moves i s (wakeAll p (.cond c) n s) ∧ (wakeAll p (.cond c) n s).running = s.running := by
  induction n generalizing s with
  | zero => exact ⟨.refl, rfl⟩
  | succ n ih =>
      unfold wakeAll
      split
      · exact ⟨.refl, rfl⟩
      · obtain ⟨hm, hsame⟩ := condWake_moves (i := i) h hrun p c
        obtain ⟨hm', hsame'⟩ := ih (h.moves hm) (by rw [hsame, hrun])
        exact ⟨hm.trans hm', hsame'.trans hsame⟩

theorem threadCondBroadcast_served (p : Policy) (c : Option CondId) :
    Served i s (threadCondBroadcast p s c) := by
  have hold := settled_of_user huser
  cases c with
  | none => exact .nothing hrun hold _
  | some c =>
      obtain ⟨hm, hsame⟩ := wakeAll_moves (i := i) h hrun p c (s.waitingQueue (.cond c)).length
      exact .stay (.of_moves hm) (by rw [hsame, hrun]) (by rwa [hsame]) _

theorem threadSemWait_served (sm : Option SemId) : Served i s (threadSemWait s sm) := by
  have hold := settled_of_user huser
  cases sm with
  | none => exact .nothing hrun hold _
  | some sm =>
      unfold threadSemWait
      by_cases hpos : s.count sm > 0
      · simp only [hpos, if_true]
        exact .stay (.of_moves (.single (.semTake sm hpos))) hrun hold _
      simp only [hpos, if_false]
      cases hq : s.readyQueue with
      | nil =>
          rw [threadSchedulerPickNext_nil hq]
          exact .nothing hrun hold _
      | cons next rest =>
          obtain ⟨-, hne⟩ := h.ready_head hrun hq
          simp only [threadSchedulerPickNext_cons hq]
          rw [show (s.picked next rest).currentThread = s.currentThread from rfl, park_swap_eq hne]
          have hpark : Move i s (s.parkAt (.sem sm) (.semWait sm)) :=
            .semPark sm hrun huser (Int.not_lt.mp hpos)
          have hdispatch := Moves.dispatch (i := i) (s := s.parkAt (.sem sm) (.semWait sm))
            (by simp [State.parkAt, State.running]) hq
          exact .switch (.of_moves ((Relation.ReflTransGen.single hpark).trans hdispatch))
            (State.dispatch_running _ _ _)

theorem threadSemPost_served (p : Policy) (sm : Option SemId) :
    Served i s (threadSemPost p s sm) := by
  have hold := settled_of_user huser
  cases sm with
  | none => exact .nothing hrun hold _
  | some sm =>
      unfold threadSemPost
      cases hq : s.waitingQueue (.sem sm) with
      | nil =>
          have hq' : (s.emit (.semPosted sm s.self)).waitingQueue (.sem sm) = [] := hq
          simp only [hq', ne_eq, not_true_eq_false, if_false]
          exact .stay (.of_moves (.single (.semPostCount sm hq))) hrun hold _
      | cons t rest =>
          have hq' : (s.emit (.semPosted sm s.self)).waitingQueue (.sem sm) = t :: rest := hq
          obtain ⟨rq, hrq, heq⟩ := (h.emit (.semPosted sm s.self)).wakeFirst p hq'
          have hsame := (h.emit (.semPosted sm s.self)).wakeHead_running hq' hrun rq
          simp only [hq', ne_eq, reduceCtorEq, not_false_eq_true, if_true, heq]
          exact .stay (.of_moves (.single (.semPostWake sm t rest rq hq hrq)))
            (by rw [hsame]; exact hrun) (by rw [hsame]; exact hold) _

end

end UserThreads
