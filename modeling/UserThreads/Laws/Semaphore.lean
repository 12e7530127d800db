import UserThreads.History.Queues

/-!
# Semaphores conserve units

A unit goes into the counter or straight to the thread that waited longest.
Counting both, no unit is made or lost between a set-up of the semaphore and
any later state.
-/

namespace UserThreads

open Transition

/-- The entry is a post to the semaphore. -/
def Event.posts (sm : SemId) : Event → Bool
  | .semPosted sm' _ => sm' = sm
  | _ => false

/-- The entry grants a wait: by the fast path, or by a post. -/
def Event.grants (sm : SemId) : Event → Bool
  | .semTaken sm' _ => sm' = sm
  | .woken q _ => q = .sem sm
  | _ => false

/-- The fast path is taken only when everybody who parked has been woken. -/
def SemEntry (sm : SemId) (past : List Event) : Event → Prop
  | .semTaken sm' _ => sm' = sm → parkedIn (.sem sm) past = wokenIn (.sem sm) past
  | _ => True

/-- What holds of a semaphore since its set-up with the value `v`. -/
structure SemLaw (sm : SemId) (v : Int) (s : State) : Prop where
  conserved : v + (s.epoch (.sem sm)).countP (Event.posts sm) =
    s.count sm + (s.epoch (.sem sm)).countP (Event.grants sm)
  nonneg : 0 ≤ s.count sm
  empty : 0 < s.count sm → s.waitingQueue (.sem sm) = []
  fifo : FifoAt (.sem sm) s
  entries : Throughout (SemEntry sm) (s.epoch (.sem sm))
  refused : ∀ s', threadSemWait s (some sm) = (s', some (-1)) → s' = s

/-- A wait that returns -1 has changed nothing. -/
theorem threadSemWait_refused {s s' : State} {sm : SemId}
    (h : threadSemWait s (some sm) = (s', some (-1))) : s' = s := by
  simp only [threadSemWait] at h
  split at h
  next => simp at h
  next =>
    split at h
    next => exact (Prod.mk.inj h).1.symm
    next => simp at h

theorem wakeFirst_posts (p : Policy) (s : State) (q : QueueId) :
    ∃ new, (wakeFirst p s q).trace = new ++ s.trace ∧ ∀ sm, new.countP (Event.posts sm) = 0 := by
  unfold wakeFirst
  split
  next => exact ⟨[], rfl, fun _ => rfl⟩
  next t rest hq =>
    rw [threadSchedulerEnqueue_trace]
    exact ⟨[_, _], rfl, fun sm => rfl⟩

/-- A post that returns 0 has been recorded once, for its semaphore. One that returns
-1 has not. -/
theorem threadSemPost_recorded {b : Build} {s s' : State} {handle : Option SemId} {e : Env}
    (hs : step b s (.call (.threadSemPost handle) e) = some s') :
    ∃ id code new, s'.trace = .returned id (.threadSemPost handle) code :: (new ++ s.trace) ∧
      ∀ sm, new.countP (Event.posts sm) = if code = 0 ∧ handle = some sm then 1 else 0 := by
  obtain ⟨-, rfl⟩ := step_call hs
  have hposted : ∀ sm sm' : SemId, [Event.semPosted sm s.self].countP (Event.posts sm') =
      if (0 : Int) = 0 ∧ some sm = some sm' then 1 else 0 := by
    intro sm sm'
    by_cases hsm : sm = sm' <;> simp [Event.posts, hsm]
  cases handle with
  | none => exact ⟨_, -1, [], rfl, fun _ => rfl⟩
  | some sm =>
      simp only [enter, threadSemPost]
      split
      · obtain ⟨woken, htrace, hwoken⟩ := wakeFirst_posts b.policy
          (s.emit (.semPosted sm s.self)) (.sem sm)
        refine ⟨(wakeFirst b.policy (s.emit (.semPosted sm s.self)) (.sem sm)).self, 0,
          woken ++ [.semPosted sm s.self], ?_, fun sm' => ?_⟩
        · rw [List.append_assoc]
          exact congrArg _ htrace
        · rw [List.countP_append, hwoken sm', Nat.zero_add]
          exact hposted sm sm'
      · exact ⟨_, 0, [.semPosted sm s.self], rfl, hposted sm⟩

section Foreign

variable {sm : SemId} {e : Event} (h : e.queue ≠ some (.sem sm))
include h

theorem Event.posts_foreign : e.posts sm = false := by
  cases e <;> simp_all [Event.queue, Event.posts]

theorem Event.grants_foreign : e.grants sm = false := by
  cases e <;> simp_all [Event.queue, Event.grants]

theorem semEntry_foreign (past : List Event) : SemEntry sm past e := by
  cases e <;> simp_all [Event.queue, SemEntry]

end Foreign

namespace SemLaw

variable {i : Input} {sm : SemId} {v : Int} {s s' : State}

/-- What is posted to the semaphore is in the counter or has been granted. -/
theorem extend (h : SemLaw sm v s) {l : List Event} (htrace : s'.trace = l ++ s.trace)
    (hnew : ∀ e ∈ l, e.resets (.sem sm) = false)
    (hbalance : s'.count sm + l.countP (Event.grants sm) =
      s.count sm + l.countP (Event.posts sm)) (hnonneg : 0 ≤ s'.count sm)
    (hempty : 0 < s'.count sm → s'.waitingQueue (.sem sm) = []) (hfifo : FifoAt (.sem sm) s')
    (hentries : Throughout (SemEntry sm) (l ++ s.epoch (.sem sm))) : SemLaw sm v s' := by
  have hepoch := State.epoch_append htrace hnew
  refine ⟨?_, hnonneg, hempty, hfifo, hepoch ▸ hentries, fun _ => threadSemWait_refused⟩
  have hconserved := h.conserved
  rw [hepoch, List.countP_append, List.countP_append]
  push_cast
  omega

/-- Nothing happens to the semaphore. -/
theorem apart (h : SemLaw sm v s) (ha : Apart (.sem sm) s s') (hfifo : FifoAt (.sem sm) s') :
    SemLaw sm v s' := by
  obtain ⟨l, htrace, hnew⟩ := ha.trace
  have hcount : s'.count sm = s.count sm := ha.value
  have hposts : l.countP (Event.posts sm) = 0 :=
    List.countP_eq_zero.mpr fun e he => by simp [Event.posts_foreign (hnew e he)]
  have hgrants : l.countP (Event.grants sm) = 0 :=
    List.countP_eq_zero.mpr fun e he => by simp [Event.grants_foreign (hnew e he)]
  refine h.extend htrace (fun e he => Event.resets_foreign (hnew e he))
    (by rw [hposts, hgrants, hcount]) (hcount ▸ h.nonneg) ?_ hfifo ?_
  · rw [hcount, ha.queue]
    exact h.empty
  · exact h.entries.append fun past e he => semEntry_foreign (hnew e he) past

theorem moveOn (h : SemLaw sm v s) (hon : MoveOn (.sem sm) s s') (hfifo : FifoAt (.sem sm) s') :
    SemLaw sm v s' := by
  cases hon with
  | semPark sm hrun hcount =>
      refine h.extend (l := [_, _]) rfl (by simp [Event.resets]) ?_ h.nonneg
        (fun hpos => absurd hpos (Int.not_lt.mpr hcount)) hfifo ⟨trivial, trivial, h.entries⟩
      simp [Event.posts, Event.grants, State.parkAt]
  | semPostWake sm t rest rq hq =>
      -- A unit that finds a waiter does not enter the counter, which is 0.
      have hzero : ¬ 0 < s.count sm := fun hpos => by simp [h.empty hpos] at hq
      refine h.extend (l := [_, _, _]) rfl (by simp [Event.resets]) ?_ h.nonneg
        (fun hpos => absurd hpos hzero) hfifo ⟨trivial, trivial, trivial, h.entries⟩
      simp [Event.posts, Event.grants, State.wakeHead, State.emit]
  | semPostCount sm hq =>
      have hnonneg := h.nonneg
      refine h.extend (l := [_]) rfl (by simp [Event.resets]) ?_ ?_
        (fun _ => hq) hfifo ⟨trivial, h.entries⟩
      · simp [Event.posts, Event.grants, State.setCount]
      · simp only [State.setCount, Function.update_self]
        omega
  | semTake sm hpos =>
      refine h.extend (l := [_]) rfl (by simp [Event.resets]) ?_ ?_
        (fun _ => h.empty hpos) hfifo ⟨fun _ => ?_, h.entries⟩
      · simp [Event.posts, Event.grants, State.setCount, State.emit]
      · simp only [State.setCount, State.emit, Function.update_self]
        omega
      · have hold := h.fifo
        rw [FifoAt, State.waitingIds, h.empty hpos] at hold
        simpa using hold

theorem move (h : SemLaw sm v s) (hwf : WellFormed s) (hm : Move i s s') : SemLaw sm v s' := by
  have hfifo := h.fifo.move hwf hm
  rcases hm.apart_or (.sem sm) with ha | hon
  · exact h.apart ha hfifo
  · exact h.moveOn hon hfifo

end SemLaw

/-- An act leaves a semaphore apart, unless it sets it up or destroys it. -/
theorem Act.apart_sem {i : Input} {s s' : State} {sm : SemId} (ha : Act i s s')
    (hg : Keeps (.sem sm) s i) : Apart (.sem sm) s s' := by
  cases ha with
  | lock m e hi huser ha => exact ha.apart (by simp)
  | unlock m e hi huser hvalid hheld hr => exact hr.apart (by simp)
  | mutexInit m e hi =>
      exact ((Apart.setLocked s (by simp) 0).trans (.initQueue (by simp) _)).trans
        (.emit _ (by simp [Event.queue]))
  | mutexDestroy m e hi hq =>
      exact (Apart.setLocked s (by simp) _).trans (.emit _ (by simp [Event.queue]))
  | semInit sm' v e hi hv =>
      have hne : QueueId.sem sm' ≠ .sem sm := by
        have hinit := hg.1
        simpa [hi, Input.initialises, Int.not_lt.mpr hv] using hinit
      exact ((Apart.setCount s hne.symm v).trans (.initQueue hne _)).trans
        (.emit _ (by simpa [Event.queue] using hne))
  | semDestroy sm' e hi hq =>
      have hne : QueueId.sem sm' ≠ .sem sm := by
        intro heq
        refine hg.2 (by rw [hi, ← heq]; rfl) ?_
        rw [← heq]
        exact hq
      exact (Apart.setCount s hne.symm _).trans (.emit _ (by simpa [Event.queue] using hne))
  | condInit c e hi => exact (Apart.initQueue (by simp) s).trans (.emit _ (by simp [Event.queue]))
  | condWait c m e hi hrun huser hready hr => exact (hr.apart (by simp)).trans (.parkAt (by simp) _)
  | condGiveUp c m e hi huser hready hr ha => exact (hr.apart (by simp)).trans (ha.apart (by simp))
  | relock c m e hi hk ha hb =>
      refine (ha.apart (by simp)).trans ?_
      cases hb <;> exact .quiet rfl rfl rfl (l := []) rfl (by simp)
  | join t slot own retval e hi hrun huser ht hne hlive hfree hslot hown hchain hready =>
      exact .quiet rfl rfl rfl (l := [_]) rfl (by simp [Event.queue])

/-- The steps of a run on a semaphore that stays set up. -/
def SemRun (sm : SemId) (s : State) (i : Input) : Prop := Regular s i ∧ Keeps (.sem sm) s i

instance (sm : SemId) (s : State) (i : Input) : Decidable (SemRun sm s i) :=
  inferInstanceAs (Decidable (Regular s i ∧ Keeps (.sem sm) s i))

/-- The set-up starts a new count. -/
theorem semLaw_set (s : State) (sm : SemId) {v : Int} (hv : 0 ≤ v) :
    SemLaw sm v (((s.setCount sm v).initQueue (.sem sm)).emit (.semSet sm v)) := by
  have hcount : (((s.setCount sm v).initQueue (.sem sm)).emit (.semSet sm v)).count sm = v :=
    Function.update_self _ _ _
  have hqueue : (((s.setCount sm v).initQueue (.sem sm)).emit (.semSet sm v)).waitingQueue
      (.sem sm) = [] := Function.update_self _ _ _
  have hepoch : (((s.setCount sm v).initQueue (.sem sm)).emit (.semSet sm v)).epoch (.sem sm) =
      [] := since_cons_reset (by simp [Event.resets])
  refine ⟨?_, by rw [hcount]; exact hv, fun _ => hqueue, ?_, hepoch ▸ trivial,
    fun _ => threadSemWait_refused⟩
  · rw [hepoch, hcount]
    rfl
  · exact FifoAt.reset rfl (by simp [Event.resets]) hqueue

theorem semLaw_init {b : Build} {s s' : State} {sm : SemId} {v : Int} {e : Env} (hv : 0 ≤ v)
    (hs : step b s (.call (.threadSemInit (some sm) v) e) = some s') : SemLaw sm v s' := by
  obtain ⟨-, rfl⟩ := step_call hs
  have hset := semLaw_set s sm hv
  have hback : Apart (.sem sm) (((s.setCount sm v).initQueue (.sem sm)).emit (.semSet sm v))
      (finish (.threadSemInit (some sm) v) (enter b s (.threadSemInit (some sm) v) e)) := by
    simp only [enter, threadSemInit, Int.not_lt.mpr hv, if_false, finish]
    exact .quiet rfl rfl rfl (l := [_]) rfl (by simp [Event.queue])
  refine hset.apart hback (hset.fifo.apart hback fun t _ => ?_)
  simp only [enter, threadSemInit, Int.not_lt.mpr hv, if_false, finish]
  exact proj_update Thread.id (by rfl) t

/-- From any set-up of a semaphore on, units are conserved, and handed out in
the order of the waits. -/
theorem semLaw_of_reach {b : Build} {s₀ s₁ s : State} {sm : SemId} {v : Int} {e : Env}
    (h₀ : RegularReach b s₀) (hv : 0 ≤ v)
    (hinit : step b s₀ (.call (.threadSemInit (some sm) v) e) = some s₁)
    (h : Reach (step b) (SemRun sm) s₁ s) : SemLaw sm v s := by
  have h₁ : RegularReach b s₁ := by
    refine h₀.tail (i := .call (.threadSemInit (some sm) v) e) ⟨?_, ?_⟩ hinit
    · simp [ValidHandle, Input.handle]
    · simp [EmptyExit, Input.joinTarget]
  exact (Settled.reach h (fun _ _ hg => hg.1) h₁.settled (semLaw_init hv hinit)
    (fun _ _ hI hg ha => hI.apart (ha.apart_sem hg.2) (hI.fifo.act ha))
    fun hwf hI hm => hI.move hwf hm).2

/-- A run with a unit taken from the counter, one handed over, and a thread
that still waits. -/
theorem semLaw_of_reach_script : ∃ s₀ s₁ s e, RegularReach .fifo s₀ ∧
    step .fifo s₀ (.call (.threadSemInit (some 0) 1) e) = some s₁ ∧
    Reach (step .fifo) (SemRun 0) s₁ s ∧ s.waitingQueue (.sem 0) = [2] ∧
    wokenIn (.sem 0) (s.epoch (.sem 0)) = [1] ∧ SemLaw 0 1 s := by
  obtain ⟨s₁, s, hinit, hreach, hqueue, hwoken⟩ := exists_reach_after_step (step .fifo)
    (SemRun 0) State.initial (.plain (.threadSemInit (some 0) 1))
    [.create 1, .create 2, .plain (.threadSemWait (some 0)), .plain .threadYield, .go,
      .plain (.threadSemWait (some 0)), .go, .plain (.threadSemWait (some 0)), .go,
      .plain (.threadSemPost (some 0))]
    (fun s => s.waitingQueue (.sem 0) = [2] ∧ wokenIn (.sem 0) (s.epoch (.sem 0)) = [1])
    (by decide +kernel)
  exact ⟨_, s₁, s, _, .refl, hinit, hreach, hqueue, hwoken,
    semLaw_of_reach .refl (by decide) hinit hreach⟩

end UserThreads
