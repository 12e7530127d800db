import UserThreads.History.Ownership

/-!
# The mutex after a wait on a condition

`thread_cond_wait` takes the mutex again before it returns, through
`thread_mutex_lock`, and drops that call's result. The lock fails when the
mutex is held and no other thread is ready, and then the wait returns without
the mutex.
-/

namespace UserThreads

open Transition

/-- `thread_cond_wait` on `c` and `m` returns `code` and leaves the state `s'`:
without having parked, on its resumption, or after the inner lock. -/
def CondReturns (p : Policy) (c : CondId) (m : MutexId) (code : Int) (s s' : State) : Prop :=
  s.ended = false ∧
    (s.running.point = .user ∧ owns m s.self s.trace = true ∧
        threadCondWait p s (some c) (some m) = (s', some code) ∨
      s.running.point = .condWait c m ∧ condRelock s c m 0 = (s', some code) ∨
      s.running.point = .condRelock c m code ∧ s' = s)

/-- The running thread owns the mutex, and no other thread does. -/
def OwnsAlone (m : MutexId) (s : State) : Prop :=
  owns m s.self s.trace = true ∧ ∀ id, owns m id s.trace = true → id = s.self

/-- A resumed waiter that finds the mutex held and no other thread ready. -/
def RelockFails (m : MutexId) (s : State) : Prop :=
  (∃ c, s.running.point = .condWait c m) ∧ s.locked m ≠ 0 ∧ s.readyQueue = []

/-- The outcomes of the inner lock, when it returns. -/
theorem condRelock_returns {s s' : State} {c : CondId} {m : MutexId} {code code' : Int}
    (h : condRelock s c m code = (s', some code')) (hvalid : s.locked m ≠ -1) :
    s.locked m = 0 ∧ s' = (s.setLocked m 1).emit (.mutexTaken m s.self) ∨
      s.locked m ≠ 0 ∧ s.readyQueue = [] ∧ s' = s := by
  simp only [condRelock, mutexLock, hvalid, if_false] at h
  by_cases hfree : s.locked m = 0
  · simp only [hfree, if_true] at h
    exact Or.inl ⟨hfree, (Prod.mk.inj h).1.symm⟩
  · simp only [hfree, if_false] at h
    cases hq : s.readyQueue with
    | nil =>
        rw [threadSchedulerPickNext_nil hq] at h
        exact Or.inr ⟨hfree, rfl, (Prod.mk.inj h).1.symm⟩
    | cons next rest =>
        rw [threadSchedulerPickNext_cons hq] at h
        simp at h

theorem OwnInv.ownsAlone {m : MutexId} {s : State} (h : OwnInv m s)
    (hself : owns m s.self s.trace = true) : OwnsAlone m s := by
  obtain ⟨o, howned, -, -⟩ := h.owner
  refine ⟨hself, fun id hid => ?_⟩
  exact Option.some.inj ((howned.eq_of_owns hid).symm.trans (howned.eq_of_owns hself))

theorem OwnInv.valid {m : MutexId} {s : State} (h : OwnInv m s) : s.locked m ≠ -1 := by
  obtain ⟨o, -, hfree, hheld⟩ := h.owner
  cases o with
  | none =>
      rw [(hfree rfl).1]
      decide
  | some id =>
      rw [hheld (by simp)]
      decide

/-- Who takes the free mutex owns it alone. -/
theorem OwnInv.ownsAlone_taken {m : MutexId} {s : State} (h : OwnInv m s) (hfree : s.locked m = 0) :
    OwnsAlone m ((s.setLocked m 1).emit (.mutexTaken m s.self)) := by
  obtain ⟨o, howned, -, hheld⟩ := h.owner
  obtain rfl : o = none := by
    by_contra ho
    rw [hheld ho] at hfree
    cases hfree
  have htaken : OwnedBy m (.mutexTaken m s.self :: s.trace) (some s.self) := howned.taken
  exact ⟨(htaken _).mpr rfl, fun id hid => (Option.some.inj ((htaken id).mp hid)).symm⟩

/-- A wait that does not park has found nobody to hand the mutex to, and takes
it again. -/
theorem ownsAlone_giveUp {p : Policy} {s s' : State} {c : CondId} {m : MutexId} {code : Int}
    (h : OwnInv m s) (hwf : WellFormed s) (hrun : s.running.state = .running)
    (huser : s.running.point = .user) (hself : owns m s.self s.trace = true)
    (hreturn : threadCondWait p s (some c) (some m) = (s', some code)) : OwnsAlone m s' := by
  have hrelease := releaseMutex_release hwf.inv p m
  have hown := (h.release hwf hrun huser hself hrelease).1
  cases hq : s.readyQueue with
  | cons next rest =>
      simp only [threadCondWait, threadSchedulerPickNext_cons hq] at hreturn
      simp at hreturn
  | nil =>
      simp only [threadCondWait, threadSchedulerPickNext_nil hq] at hreturn
      generalize hs₁ : releaseMutex p s m = s₁ at hreturn hrelease hown
      rcases condRelock_returns hreturn hown.valid with ⟨hfree, rfl⟩ | ⟨hheld, hready, rfl⟩
      · exact hown.ownsAlone_taken hfree
      · -- A waiter that got the mutex is ready, so the inner lock would park.
        cases hrelease with
        | handOff t rest rq hwait hrq =>
            have hmem : t ∈ rq := hrq.mem_iff.mpr List.mem_cons_self
            rw [show rq = [] from hready] at hmem
            cases hmem
        | free hwait => exact absurd (Function.update_self _ _ _) hheld

/-- Along every run that keeps the contract of the mutex, a wait returns to an
owner, and to nobody else's mutex, exactly when its inner lock does not fail. -/
theorem ownsAlone_iff_of_reach {b : Build} {c : CondId} {m : MutexId} {code : Int} {s s' : State}
    (h : Reach (step b) (MutexContract m) State.initial s)
    (hreturn : CondReturns b.policy c m code s s') : OwnsAlone m s' ↔ ¬ RelockFails m s := by
  obtain ⟨hsettled, hown⟩ := ownInv_of_reach h
  have hwf := hsettled.wellFormed
  have hcur := hwf.inv.sched.current_mem
  obtain ⟨hlive, hpath⟩ := hreturn
  have hrun := hsettled.sound.runs hlive
  rcases hpath with ⟨huser, hself, hcall⟩ | ⟨hk, hresume⟩ | ⟨hk, rfl⟩
  · refine iff_of_true (ownsAlone_giveUp hown hwf hrun huser hself hcall) ?_
    rintro ⟨⟨c', hc'⟩, -⟩
    rw [huser] at hc'
    cases hc'
  · rcases condRelock_returns hresume hown.valid with ⟨hfree, rfl⟩ | ⟨hheld, hready, rfl⟩
    · exact iff_of_true (hown.ownsAlone_taken hfree) fun hfails => hfails.2.1 hfree
    · refine iff_of_false ?_ fun hno => hno ⟨⟨c, hk⟩, hheld, hready⟩
      rintro ⟨hself, -⟩
      have hnot := (hown.threads_ok _ hcur).waiting c hk
      exact absurd hself (by rw [State.self, hnot]; simp)
  · have hgranted := (hown.threads_ok _ hcur).granted (by rw [← State.running, hk]; rfl)
      (by rw [← State.running, hrun]; simp)
    refine iff_of_true (hown.ownsAlone hgranted) ?_
    rintro ⟨⟨c', hc'⟩, -⟩
    rw [hk] at hc'
    cases hc'

/-- A wait that is resumed while the mutex is free. -/
theorem ownsAlone_iff_of_reach_script : ∃ s s',
    Reach (step .fifo) (MutexContract 0) State.initial s ∧ CondReturns .fifo 0 0 0 s s' ∧
    ¬ RelockFails 0 s ∧ OwnsAlone 0 s' := by
  obtain ⟨s, hreach, hlive, hpoint, hlocked⟩ := exists_reach_of_run (step .fifo)
    (MutexContract 0) State.initial
    [.plain (.threadMutexInit (some 0)), .plain (.threadCondInit (some 0)), .create 1,
      .plain .threadYield, .go, .plain (.threadMutexLock (some 0)),
      .plain (.threadCondWait (some 0) (some 0)), .go, .plain (.threadCondSignal (some 0)),
      .plain .threadYield]
    (fun s => s.ended = false ∧ s.running.point = .condWait 0 0 ∧ s.locked 0 = 0)
    (by decide +kernel)
  have hreturn : CondReturns .fifo 0 0 0 s ((s.setLocked 0 1).emit (.mutexTaken 0 s.self)) :=
    ⟨hlive, Or.inr (Or.inl ⟨hpoint, by simp [condRelock, mutexLock, hlocked]⟩)⟩
  have hok : ¬ RelockFails 0 s := fun hfails => hfails.2.1 hlocked
  exact ⟨s, _, hreach, hreturn, hok, (ownsAlone_iff_of_reach (b := .fifo) hreach hreturn).mpr hok⟩

/-- The main thread signals while it holds the mutex, and then blocks on a
semaphore. The waiter is alone, its inner lock fails, and it returns. -/
theorem not_ownsAlone_of_reach : ¬ ∀ b c m code s s',
    Reach (step b) (MutexContract m) State.initial s → CondReturns b.policy c m code s s' →
    OwnsAlone m s' := by
  intro hall
  obtain ⟨s, hreach, hlive, hpoint, hlocked, hready, howns⟩ := exists_reach_of_run (step .fifo)
    (MutexContract 0) State.initial
    [.plain (.threadMutexInit (some 0)), .plain (.threadCondInit (some 0)),
      .plain (.threadSemInit (some 0) 0), .create 1, .plain .threadYield, .go,
      .plain (.threadMutexLock (some 0)), .plain (.threadCondWait (some 0) (some 0)), .go,
      .plain (.threadMutexLock (some 0)), .plain (.threadCondSignal (some 0)),
      .plain (.threadSemWait (some 0))]
    (fun s => s.ended = false ∧ s.running.point = .condWait 0 0 ∧ s.locked 0 = 1 ∧
      s.readyQueue = [] ∧ owns 0 s.self s.trace = false) (by decide +kernel)
  have hreturn : CondReturns .fifo 0 0 0 s s :=
    ⟨hlive, Or.inr (Or.inl ⟨hpoint,
      by simp [condRelock, mutexLock, hlocked, threadSchedulerPickNext_nil hready]⟩)⟩
  obtain ⟨hself, -⟩ := hall .fifo 0 0 0 s s hreach hreturn
  rw [howns] at hself
  cases hself

end UserThreads
