import UserThreads.History.Ownership
import UserThreads.Operations.WritesStep

/-!
# Destroyed mutexes

`thread_mutex_destroy` leaves -1 in the lock word. Locking and unlocking look for
it and fail. The release code written out in `thread_cond_wait` does not: it
frees the mutex, or hands it over, as if nothing had happened.
-/

namespace UserThreads

open Transition

/-- In the state `s`, some time after `m` has been destroyed in `s₁`, it cannot
be locked or unlocked, and nobody has got it since. -/
structure DestroyedLaw (b : Build) (m : MutexId) (s₁ s : State) : Prop where
  locks : ∀ e s', step b s (.call (.threadMutexLock (some m)) e) = some s' →
    s'.trace.head? = some (.returned s.self (.threadMutexLock (some m)) (-1)) ∧
      s'.errno = some .einval
  unlocks : ∀ e s', step b s (.call (.threadMutexUnlock (some m)) e) = some s' →
    s'.trace.head? = some (.returned s.self (.threadMutexUnlock (some m)) (-1)) ∧
      s'.errno = some .einval
  untaken : ∃ new, s.trace = new ++ s₁.trace ∧ ∀ ev ∈ new, ev.acquires m = false

/-- `thread_mutex_destroy` on `m` returns 0 in the step from `s₀` to `s₁`. -/
def Destroys (b : Build) (m : MutexId) (s₀ s₁ : State) : Prop :=
  ∃ e, step b s₀ (.call (.threadMutexDestroy (some m)) e) = some s₁ ∧
    s₁.trace.head? = some (.returned s₀.self (.threadMutexDestroy (some m)) 0)

/-- The step does not initialise `m`. -/
def NoInit (m : MutexId) (i : Input) : Prop := i.initialises ≠ some (.mutex m)

instance (m : MutexId) (i : Input) : Decidable (NoInit m i) :=
  inferInstanceAs (Decidable (_ ≠ _))

/-- The step is no call of `thread_cond_wait` with `m`. -/
def NoWait (m : MutexId) (i : Input) : Prop := ∀ w ∈ i.waits, w.2 ≠ m

instance (m : MutexId) (i : Input) : Decidable (NoWait m i) :=
  inferInstanceAs (Decidable (∀ w ∈ i.waits, w.2 ≠ m))

section

variable {b : Build} {i : Input} {m : MutexId} {s s₀ s₁ s' : State}

/-- The lock word says that `m` is destroyed, and nobody has got it since `s₁`. -/
structure Shut (m : MutexId) (s₁ s : State) : Prop where
  locked : s.locked m = -1
  untaken : ∃ new, s.trace = new ++ s₁.trace ∧ ∀ ev ∈ new, ev.acquires m = false

theorem Shut.extend (h : Shut m s₁ s) (hlocked : s'.locked m = -1) (new : List Event)
    (htrace : s'.trace = new ++ s.trace) (hnew : ∀ ev ∈ new, ev.acquires m = false) :
    Shut m s₁ s' := by
  obtain ⟨old, hold, hquiet⟩ := h.untaken
  refine ⟨hlocked, new ++ old, ?_, fun ev hev => ?_⟩
  · rw [htrace, hold, List.append_assoc]
  · rcases List.mem_append.mp hev with hev | hev
    · exact hnew ev hev
    · exact hquiet ev hev

theorem Shut.not_releases (h : Shut m s₁ s) (hwait : NoWait m i) : ¬ Releases i m s := by
  rintro (hvalid | ⟨c, hc⟩)
  · exact hvalid h.locked
  · exact hwait (c, m) hc rfl

/-- A write opens no mutex that is shut. -/
theorem Shut.write (h : Shut m s₁ s) (hinit : NoInit m i) (hwait : NoWait m i)
    (hw : Write i s s') : Shut m s₁ s' := by
  have hquiet : s'.locked m = -1 → s'.trace = s.trace → Shut m s₁ s' := fun hlocked htrace =>
    h.extend hlocked [] htrace (by simp)
  have hone : ∀ ev, s'.locked m = -1 → s'.trace = ev :: s.trace → ev.acquires m = false →
      Shut m s₁ s' := fun ev hlocked htrace hev =>
    h.extend hlocked [ev] htrace (by simpa using hev)
  cases hw with
  | globals hthreads hhandles hlocked htrace hmemory =>
      exact hquiet (by rw [hlocked]; exact h.locked) htrace
  | emit e he => exact hone e h.locked rfl (he m)
  | take m' hfree =>
      have hne : m ≠ m' := by
        rintro rfl
        rw [h.locked] at hfree
        cases hfree
      refine hone _ ((Function.update_of_ne hne _ _).trans h.locked) rfl ?_
      simpa [Event.acquires] using hne.symm
  | wake q id hq =>
      refine hone _ h.locked rfl ?_
      simp only [Event.acquires, decide_eq_false_iff_not]
      exact fun hqm => h.not_releases hwait (hq m hqm)
  | free m' hm' =>
      have hne : m ≠ m' := by
        rintro rfl
        exact h.not_releases hwait hm'
      exact hquiet ((Function.update_of_ne hne _ _).trans h.locked) rfl
  | init m' hi =>
      have hne : m ≠ m' := by
        rintro rfl
        exact hinit hi
      exact hquiet ((Function.update_of_ne hne _ _).trans h.locked) rfl
  | destroy m' =>
      by_cases hne : m = m'
      · subst hne
        exact hquiet (Function.update_self _ _ _) rfl
      · exact hquiet ((Function.update_of_ne hne _ _).trans h.locked) rfl
  | _ => exact hquiet h.locked rfl

theorem Shut.writes (h : Shut m s₁ s) (hinit : NoInit m i) (hwait : NoWait m i)
    (hw : Writes i s s') : Shut m s₁ s' := by
  induction hw with
  | refl => exact h
  | tail _ hwrite ih => exact ih.write hinit hwait hwrite

theorem Shut.step (h : Shut m s₁ s) (hinit : NoInit m i) (hwait : NoWait m i)
    (hs : UserThreads.step b s i = some s') : Shut m s₁ s' := by
  rcases step_writes hs with hw | ⟨-, -, -, hw⟩
  · exact h.writes hinit hwait hw
  · have hmarked : Shut m s₁ s.marked := ⟨h.locked, h.untaken⟩
    exact hmarked.writes hinit hwait hw

/-- Locking and unlocking find the mark of the destruction. -/
theorem Shut.law (h : Shut m s₁ s) : DestroyedLaw b m s₁ s := by
  refine ⟨fun e s' hs => ?_, fun e s' hs => ?_, h.untaken⟩
  · obtain ⟨-, rfl⟩ := step_call hs
    have hrefused : enter b s (.threadMutexLock (some m)) e = (s.setErrno .einval, some (-1)) :=
      if_pos h.locked
    rw [hrefused]
    exact ⟨rfl, rfl⟩
  · obtain ⟨-, rfl⟩ := step_call hs
    have hrefused : enter b s (.threadMutexUnlock (some m)) e = (s.setErrno .einval, some (-1)) :=
      if_pos h.locked
    rw [hrefused]
    exact ⟨rfl, rfl⟩

/-- A destruction that returns 0 shuts the mutex. -/
theorem Destroys.shut (h : Destroys b m s₀ s₁) : Shut m s₁ s₁ := by
  refine ⟨?_, [], rfl, by simp⟩
  obtain ⟨e, hs, hzero⟩ := h
  obtain ⟨-, rfl⟩ := step_call hs
  by_cases hq : s₀.waitingQueue (.mutex m) = []
  · have hdone : enter b s₀ (.threadMutexDestroy (some m)) e =
        ((s₀.setLocked m (-1)).emit (.mutexSet m (-1)), some 0) := if_neg (not_not.mpr hq)
    rw [hdone]
    exact Function.update_self _ _ _
  · have hrefused : enter b s₀ (.threadMutexDestroy (some m)) e = (s₀, some (-1)) := if_pos hq
    rw [hrefused] at hzero
    simp [finish, State.setPoint, State.modifyThread, State.emit] at hzero

/-- From a successful destruction on, in every run without an initialisation of
the mutex and without a call of `thread_cond_wait` with it, the law holds. -/
theorem destroyedLaw_of_reach (hdestroys : Destroys b m s₀ s₁)
    (hreach : Reach (step b) (fun _ i => NoInit m i ∧ NoWait m i) s₁ s) :
    DestroyedLaw b m s₁ s := by
  have hshut : Shut m s₁ s :=
    hreach.invariant hdestroys.shut fun _ h hg hs => h.step hg.1 hg.2 hs
  exact hshut.law

end

/-- A run that is executed up to a destruction and on from there. -/
theorem exists_destroys_of_run (b : Build) (m : MutexId) (before : List Input) (e : Env)
    (guard : State → State → Input → Prop) [∀ s₀ s i, Decidable (guard s₀ s i)]
    (after : List Input) (p : State → Prop) [DecidablePred p]
    (h : ((run (step b) Regular State.initial before).bind fun s₀ =>
      (step b s₀ (.call (.threadMutexDestroy (some m)) e)).bind fun s₁ =>
        if s₁.trace.head? = some (.returned s₀.self (.threadMutexDestroy (some m)) 0) then
          (run (step b) (guard s₀) s₁ after).map (fun s => decide (p s))
        else none) = some true) :
    ∃ s₀ s₁ s, RegularReach b s₀ ∧ Destroys b m s₀ s₁ ∧ Reach (step b) (guard s₀) s₁ s ∧ p s := by
  obtain ⟨s₀, hbefore, hnext⟩ := Option.bind_eq_some_iff.mp h
  obtain ⟨s₁, hstep, hnext⟩ := Option.bind_eq_some_iff.mp hnext
  split at hnext
  next hzero =>
    obtain ⟨s, hreach, hp⟩ := exists_reach_of_run (step b) (guard s₀) s₁ after p hnext
    exact ⟨s₀, s₁, s, reach_of_run hbefore, ⟨e, hstep, hzero⟩, hreach, hp⟩
  next => cases hnext

/-- Thread 1 waits on a condition with the mutex when it is destroyed, and
returns from the wait without it. -/
theorem destroyedLaw_of_reach_waiter : ∃ s₀ s₁ s, RegularReach .fifo s₀ ∧ Destroys .fifo 0 s₀ s₁ ∧
    s.currentThread = 1 ∧ s.running.point = .user ∧ DestroyedLaw .fifo 0 s₁ s := by
  obtain ⟨s₀, s₁, s, hreach₀, hdestroys, hreach, hcurrent, huser⟩ := exists_destroys_of_run .fifo 0
    [.plain (.threadMutexInit (some 0)), .plain (.threadCondInit (some 0)), .create 1,
      .plain .threadYield, .go, .plain (.threadMutexLock (some 0)),
      .plain (.threadCondWait (some 0) (some 0)), .go] .plain (fun _ _ i => NoInit 0 i ∧ NoWait 0 i)
    [.plain (.threadCondSignal (some 0)), .plain .threadYield, .go]
    (fun s => s.currentThread = 1 ∧ s.running.point = .user) (by decide +kernel)
  exact ⟨s₀, s₁, s, hreach₀, hdestroys, hcurrent, huser, destroyedLaw_of_reach hdestroys hreach⟩

/-- The runs after a destruction in which, of the calls of `thread_cond_wait`
with the mutex, only those of its holder are made. -/
def HolderWaits (m : MutexId) (s₀ s : State) (i : Input) : Prop :=
  Regular s i ∧ NoInit m i ∧ (NoWait m i ∨ owns m s.self s₀.trace = true)

instance (m : MutexId) (s₀ s : State) (i : Input) : Decidable (HolderWaits m s₀ s i) :=
  inferInstanceAs (Decidable (_ ∧ _ ∧ (_ ∨ _)))

/-- The main thread holds the mutex, destroys it and waits with it. Thread 1 can
lock it then. -/
theorem not_destroyedLaw_of_reach : ¬ ∀ b m s₀ s₁ s, RegularReach b s₀ → Destroys b m s₀ s₁ →
    Reach (step b) (HolderWaits m s₀) s₁ s → DestroyedLaw b m s₁ s := by
  intro hall
  obtain ⟨s₀, s₁, s, hreach₀, hdestroys, hreach, hlock⟩ := exists_destroys_of_run .fifo 0
    [.plain (.threadMutexInit (some 0)), .plain (.threadCondInit (some 0)), .create 1,
      .plain (.threadMutexLock (some 0))] .plain (HolderWaits 0)
    [.plain (.threadCondWait (some 0) (some 0)), .go]
    (fun s => (step .fifo s (.plain (.threadMutexLock (some 0)))).map (·.trace.head?) =
      some (some (.returned 1 (.threadMutexLock (some 0)) 0))) (by decide +kernel)
  obtain ⟨s', hs, hreturned⟩ := Option.map_eq_some_iff.mp hlock
  obtain ⟨hfails, -⟩ := (hall .fifo 0 s₀ s₁ s hreach₀ hdestroys hreach).locks .plain s' hs
  rw [hreturned] at hfails
  simp at hfails

end UserThreads
