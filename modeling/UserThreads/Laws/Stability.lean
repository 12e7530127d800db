import UserThreads.Laws.Priority

/-!
# Stability of the priority queue

Two threads in the ready queue keep their order while both wait and nobody sets
their priorities, except through a yield that keeps its caller: it takes the
head out and inserts it again, behind all threads of the same priority.
-/

namespace UserThreads

open Transition Ranks

/-- Both are in the ready queue, `x` ahead of `y`. -/
def Ahead (x y : Tid) (s : State) : Prop := [x, y].Sublist s.readyQueue

instance (x y : Tid) (s : State) : Decidable (Ahead x y s) :=
  inferInstanceAs (Decidable (List.Sublist _ _))

/-- The step dispatches neither thread and sets neither priority. -/
def Undisturbed (b : Build) (x y : Tid) (s : State) (i : Input) : Prop :=
  Regular s i ∧ i.reranks ≠ some x ∧ i.reranks ≠ some y ∧
    ∀ s' ∈ step b s i, s'.currentThread ≠ x ∧ s'.currentThread ≠ y

instance (b : Build) (x y : Tid) (s : State) (i : Input) : Decidable (Undisturbed b x y s i) :=
  inferInstanceAs (Decidable (_ ∧ _ ∧ _ ∧ _))

/-- The step is a yield whose caller is not beaten by the head `x`, which has
the same priority as `y`. -/
def RotatesPast (b : Build) (x y : Tid) (s : State) (i : Input) : Prop :=
  executesYield b s i = true ∧ s.ranks.Rotates s.currentThread x y

instance (b : Build) (x y : Tid) (s : State) (i : Input) : Decidable (RotatesPast b x y s i) :=
  inferInstanceAs (Decidable (_ ∧ _))

section Step

variable {b : Build} {x y : Tid} {s s' : State} {i : Input}

/-- A yield exchanges the two exactly when it rotates the first past the second;
no other operation does. -/
theorem Ahead.step_iff (hb : b.policy = .prio) (h : RegularReach b s) (ha : Ahead x y s)
    (hu : Undisturbed b x y s i) (hs : step b s i = some s') :
    Ahead x y s' ↔ ¬ RotatesPast b x y s i := by
  obtain ⟨-, hix, hiy, hkept⟩ := hu
  obtain ⟨hx, hy⟩ := hkept s' hs
  obtain ⟨hyields, hshifts⟩ := step_ranks h.sound hs
  rw [hb] at hyields hshifts
  cases hexec : executesYield b s i with
  | true =>
      have hcan := h.sound.inv.canYield (h.sound.runs (ended_of_step hs))
      have hpair := (hyields hexec).pair_iff (ordered_of_reach hb h) hcan.nodup hx.symm ha
      have hrot : RotatesPast b x y s i ↔ s.ranks.Rotates s.currentThread x y := by
        simp [RotatesPast, hexec]
      rw [hrot]
      exact hpair
  | false =>
      refine iff_of_true (Shifts.pair (hshifts hexec) hx.symm hy.symm hix hiy ha) fun hrot => ?_
      have hyield := hrot.1
      rw [hexec] at hyield
      cases hyield

/-- A yield that keeps its caller is a no-op on the queue unless the first two
threads have the same priority. -/
theorem keeping_yield_iff (hb : b.policy = .prio) (h : RegularReach b s)
    (hs : step b s i = some s') (hexec : executesYield b s i = true)
    (hkeep : s'.currentThread = s.currentThread) :
    s'.readyQueue = s.readyQueue ↔ ¬ s.ranks.HeadTied s.currentThread := by
  have hyields := (step_ranks h.sound hs).yields hexec
  have hcan := h.sound.inv.canYield (h.sound.runs (ended_of_step hs))
  rw [hb, hkeep] at hyields
  exact hyields.queue_eq_iff (ordered_of_reach hb h) hcan.nodup hcan.out

end Step

/-- The order of `x` and `y` is kept by every step that disturbs neither, except
for those that rotate `x` past `y`. -/
structure StableLaw (b : Build) (x y : Tid) (s : State) : Prop where
  ahead : Ahead x y s
  kept_iff : ∀ i s', Undisturbed b x y s i → step b s i = some s' →
    (Ahead x y s' ↔ ¬ RotatesPast b x y s i)
  /-- A yield that keeps its caller leaves the whole queue as it was. -/
  unchanged_iff : ∀ i s', step b s i = some s' → executesYield b s i = true →
    s'.currentThread = s.currentThread →
    (s'.readyQueue = s.readyQueue ↔ ¬ s.ranks.HeadTied s.currentThread)

/-- Two waiting threads keep their order through every run that does not rotate
the first past the second. -/
theorem stableLaw_of_reach {b : Build} {x y : Tid} {s₀ s : State} (hb : b.policy = .prio)
    (h₀ : RegularReach b s₀) (ha₀ : Ahead x y s₀)
    (h : Reach (step b) (fun s i => Undisturbed b x y s i ∧ ¬ RotatesPast b x y s i) s₀ s) :
    StableLaw b x y s := by
  have hregular : ∀ {s}, Reach (step b)
      (fun s i => Undisturbed b x y s i ∧ ¬ RotatesPast b x y s i) s₀ s → RegularReach b s :=
    fun hreach => h₀.trans (hreach.mono fun _ _ hg => hg.1.1)
  have ha : Ahead x y s := by
    refine h.invariant (I := Ahead x y) ha₀ ?_
    intro s s' i hreach ha hg hs
    exact (ha.step_iff hb (hregular hreach) hg.1 hs).mpr hg.2
  refine ⟨ha, fun i s' hu hs => ?_, fun i s' hs hexec hkeep => ?_⟩
  · exact ha.step_iff hb (hregular h) hu hs
  · exact keeping_yield_iff hb (hregular h) hs hexec hkeep

/-- Thread 1 has a higher priority than thread 2, so yields of `main` leave the
two in their order. -/
theorem stableLaw_of_reach_higher : ∃ s₀ s, RegularReach .prio s₀ ∧ s₀.readyQueue = [1, 2] ∧
    Reach (step .prio) (fun s i => Undisturbed .prio 1 2 s i ∧ ¬ RotatesPast .prio 1 2 s i) s₀ s ∧
    s.readyQueue = [1, 2, 3] ∧ (s.threads 1).priority ≠ (s₀.threads 1).priority ∧
    StableLaw .prio 1 2 s := by
  obtain ⟨s₀, hreach, hqueue, hahead, hrun⟩ := exists_reach_of_run (step .prio) Regular
    State.initial
    [.plain (.threadSetPriority (some mainThread) 50), .create 1, .create 2,
      .plain (.threadSetPriority (some 1) 20)]
    (fun s₀ => s₀.readyQueue = [1, 2] ∧ Ahead 1 2 s₀ ∧
      (run (step .prio) (fun s i => Undisturbed .prio 1 2 s i ∧ ¬ RotatesPast .prio 1 2 s i) s₀
        [.plain .threadYield, .plain .threadYield, .create 3]).map (fun s =>
          decide (s.readyQueue = [1, 2, 3] ∧
            (s.threads 1).priority ≠ (s₀.threads 1).priority)) = some true)
    (by decide +kernel)
  obtain ⟨s, hlater, hend, hgained⟩ := exists_reach_of_run _ _ s₀ _ _ hrun
  exact ⟨s₀, s, hreach, hqueue, hlater, hend, hgained, stableLaw_of_reach rfl hreach hahead hlater⟩

/-- `main` at priority 50 yields, finds no thread of higher priority and keeps
running; threads 1 and 2, of the same priority, have changed places. -/
theorem not_stable_of_keeping_yield : ¬ ∀ (x y : Tid) (s₀ s : State), RegularReach .prio s₀ →
    Ahead x y s₀ → Reach (step .prio) (Undisturbed .prio x y) s₀ s → Ahead x y s := by
  intro hstable
  obtain ⟨s₀, hreach, hahead, hrun⟩ := exists_reach_of_run (step .prio) Regular State.initial
    [.plain (.threadSetPriority (some mainThread) 50), .create 1, .create 2]
    (fun s₀ => Ahead 1 2 s₀ ∧
      (run (step .prio) (Undisturbed .prio 1 2) s₀ [.plain .threadYield]).map (fun s =>
        decide (s.currentThread = mainThread ∧ s.readyQueue = [2, 1])) = some true)
    (by decide +kernel)
  obtain ⟨s, hlater, -, hqueue⟩ := exists_reach_of_run _ _ s₀ _ _ hrun
  have hkept := hstable 1 2 s₀ s hreach hahead hlater
  rw [Ahead, hqueue] at hkept
  revert hkept
  decide

end UserThreads
