import UserThreads.Operations.RanksStep

/-!
# The priority policy

The ready queue stays in the order of the priorities through every operation,
and a thread that waits in it is dispatched after a bounded number of yields.
-/

namespace UserThreads

open Transition Ranks

/-- The order of the ready queue, in a state between operations. -/
structure PriorityLaw (b : Build) (s : State) : Prop where
  bounded : ∀ t ∈ s.handles, InRange (s.threads t).priority
  sorted : s.readyQueue.Pairwise fun t u => (s.threads u).priority ≤ (s.threads t).priority
  /-- `thread_scheduler_pick_next` returns a thread of maximal priority. -/
  picks : ∀ next s₁, threadSchedulerPickNext s = some (next, s₁) →
    ∀ t ∈ s.readyQueue, (s.threads t).priority ≤ (s.threads next).priority
  /-- Just after a yield, nobody in the queue beats the thread that runs. -/
  chosen : ∀ i s', step b s i = some s' → executesYield b s i = true →
    ∀ t ∈ s'.readyQueue, (s'.threads t).priority ≤ (s'.threads s'.currentThread).priority

/-- The order survives every step. -/
theorem Ranks.Ordered.step {b : Build} {s s' : State} {i : Input} (hb : b.policy = .prio)
    (h : Sound s) (ho : s.ranks.Ordered) (hs : UserThreads.step b s i = some s') :
    s'.ranks.Ordered ∧ (executesYield b s i = true →
      ∀ t ∈ s'.readyQueue, (s'.threads t).priority ≤ (s'.threads s'.currentThread).priority) := by
  obtain ⟨hyields, hshifts⟩ := step_ranks h hs
  rw [hb] at hyields hshifts
  cases hexec : executesYield b s i with
  | true =>
      obtain ⟨hordered, hmax⟩ := (hyields hexec).ordered ho
      exact ⟨hordered, fun _ => hmax⟩
  | false => exact ⟨Shifts.ordered (hshifts hexec) ho, fun hyield => by cases hyield⟩

theorem ordered_of_reach {b : Build} {s : State} (hb : b.policy = .prio)
    (h : RegularReach b s) : s.ranks.Ordered := by
  have hboth : Sound s ∧ s.ranks.Ordered := by
    refine h.invariant (I := fun s => Sound s ∧ s.ranks.Ordered) ⟨sound_initial, ?_⟩ ?_
    · have hdefault : InRange threadDefaultPriority := by decide
      exact ⟨List.Pairwise.nil, fun _ => hdefault⟩
    · rintro s s' i - ⟨hs, ho⟩ hg hstep
      exact ⟨hs.step hg hstep, (ho.step hb hs hstep).1⟩
  exact hboth.2

/-- The ready queue is in order in every state of a regular run. -/
theorem priorityLaw_of_reach {b : Build} {s : State} (hb : b.policy = .prio)
    (h : RegularReach b s) : PriorityLaw b s := by
  have ho := ordered_of_reach hb h
  refine ⟨fun t _ => ho.bounded t, ho.sorted, fun next s₁ hpick t ht => ?_,
    fun i s' hs => (ho.step hb h.sound hs).2⟩
  unfold threadSchedulerPickNext at hpick
  split at hpick
  next => cases hpick
  next next' rest hq =>
    obtain ⟨rfl, -⟩ := Prod.mk.inj (Option.some.inj hpick)
    exact ho.head_max hq ht

/-- The build without guard pages, under the priority policy. -/
def Build.prio : Build := { policy := .prio, guardPage := false, overflowDetection := false }

/-- A run in which a thread of lower priority waits behind two others. -/
theorem priorityLaw_of_reach_script : ∃ s, RegularReach .prio s ∧ s.readyQueue = [1, 2, 3] ∧
    PriorityLaw .prio s := by
  obtain ⟨s, hreach, hqueue⟩ := exists_reach_of_run (step .prio) Regular State.initial
    [.create 1, .create 2, .create 3, .plain (.threadSetPriority (some 3) 8)]
    (fun s => s.readyQueue = [1, 2, 3]) (by decide +kernel)
  exact ⟨s, hreach, hqueue, priorityLaw_of_reach rfl hreach⟩

/-! Waiting in the ready queue. The functions follow a run from `s` along its
inputs. -/

/-- `l` stays in the ready queue, and nobody sets its priority. -/
def WaitsThrough (b : Build) (l : Tid) : State → List Input → Prop
  | s, [] => l ∈ s.readyQueue
  | s, i :: rest => l ∈ s.readyQueue ∧ Regular s i ∧ i.reranks ≠ some l ∧
      ∃ s' ∈ step b s i, WaitsThrough b l s' rest

instance WaitsThrough.decide (b : Build) (l : Tid) :
    ∀ (s : State) (inputs : List Input), Decidable (WaitsThrough b l s inputs)
  | s, [] => inferInstanceAs (Decidable (l ∈ s.readyQueue))
  | s, i :: rest =>
      have : ∀ s', Decidable (WaitsThrough b l s' rest) := fun s' => WaitsThrough.decide b l s' rest
      inferInstanceAs (Decidable (l ∈ s.readyQueue ∧ Regular s i ∧ i.reranks ≠ some l ∧
        ∃ s' ∈ step b s i, WaitsThrough b l s' rest))

/-- The number of executed `thread_yield` calls. -/
def yieldsIn (b : Build) : State → List Input → Nat
  | _, [] => 0
  | s, i :: rest =>
      match step b s i with
      | none => 0
      | some s' => (if executesYield b s i then 1 else 0) + yieldsIn b s' rest

/-- The number of threads ahead of `l` in the first state in which it has the
maximal priority, 0 when there is none. -/
def aheadAtMaximum (b : Build) (l : Tid) : State → List Input → Nat
  | s, [] => if (s.threads l).priority = threadMaxPriority then s.readyQueue.idxOf l else 0
  | s, i :: rest =>
      if (s.threads l).priority = threadMaxPriority then s.readyQueue.idxOf l
      else
        match step b s i with
        | none => 0
        | some s' => aheadAtMaximum b l s' rest

/-- The length of the longest ready queue. -/
def longestQueue (b : Build) : State → List Input → Nat
  | s, [] => s.readyQueue.length
  | s, i :: rest =>
      match step b s i with
      | none => s.readyQueue.length
      | some s' => max s.readyQueue.length (longestQueue b s' rest)

section Waiting

variable {b : Build} {l : Tid} {s s' : State} {i : Input} {inputs : List Input}

theorem WaitsThrough.mem (h : WaitsThrough b l s inputs) : l ∈ s.readyQueue := by
  cases inputs with
  | nil => exact h
  | cons i rest => exact h.1

theorem aheadAtMaximum_of_full (h : (s.threads l).priority = threadMaxPriority) :
    aheadAtMaximum b l s inputs = s.ranks.ahead l := by
  cases inputs with
  | nil => simp [aheadAtMaximum, h, ahead, State.ranks]
  | cons i rest => simp [aheadAtMaximum, h, ahead, State.ranks]

theorem aheadAtMaximum_lt_longestQueue (h : WaitsThrough b l s inputs) :
    aheadAtMaximum b l s inputs < longestQueue b s inputs := by
  induction inputs generalizing s with
  | nil =>
      have hahead := List.idxOf_lt_length_iff.mpr h
      unfold aheadAtMaximum longestQueue
      split
      · exact hahead
      · exact Nat.zero_lt_of_lt hahead
  | cons i rest ih =>
      obtain ⟨hl, -, -, s', hmem, hrest⟩ := h
      have hs : step b s i = some s' := hmem
      have hahead := List.idxOf_lt_length_iff.mpr hl
      have hlater := ih hrest
      simp only [aheadAtMaximum, longestQueue, hs]
      split
      · exact lt_of_lt_of_le hahead (le_max_left _ _)
      · exact lt_of_lt_of_le hlater (le_max_right _ _)

/-- A yield changes places, so whoever is in the queue before and after it has
not been dispatched by it. -/
theorem ne_of_yielding {p : Policy} {prev d : Tid} {r r' : Ranks} (hy : Yielding p prev d r r')
    (hnd : r.queue.Nodup) (hprev : prev ∉ r.queue) (hl : l ∈ r.queue) (hl' : l ∈ r'.queue) :
    l ≠ d := by
  have hne : l ≠ prev := fun e => hprev (e ▸ hl)
  cases hy with
  | idle hq => exact hne
  | keep next rest hp hq hle => exact hne
  | switch next rest hq hlt =>
      rintro rfl
      rw [hq] at hnd
      rcases mem_enqueue.mp hl' with hlp | hmem
      · exact hne hlp
      · exact (List.nodup_cons.mp hnd).1 hmem

/-- A yield raises a waiting thread by one, and lets one thread pass when it is
at the maximum. -/
theorem waits_yield (hb : b.policy = .prio) (h : Sound s) (ho : s.ranks.Ordered)
    (hs : step b s i = some s') (hexec : executesYield b s i = true) (hl : l ∈ s.readyQueue)
    (hl' : l ∈ s'.readyQueue) :
    (s'.threads l).priority = min ((s.threads l).priority + threadWait) threadMaxPriority ∧
      ((s.threads l).priority = threadMaxPriority → s'.ranks.ahead l + 1 ≤ s.ranks.ahead l) := by
  have hyielding := (step_ranks h hs).yields hexec
  have hcan := h.inv.canYield (h.runs (ended_of_step hs))
  have hne := ne_of_yielding hyielding hcan.nodup hcan.out hl hl'
  rw [hb] at hyielding
  exact hyielding.waiting ho hcan.out hl hne

/-- Any other step leaves its priority alone, and lets nobody pass ahead when
it is at the maximum. -/
theorem waits_other (hb : b.policy = .prio) (h : Sound s) (ho : s.ranks.Ordered)
    (hs : step b s i = some s') (hexec : executesYield b s i = false) (hl : l ∈ s.readyQueue)
    (hne : l ≠ s'.currentThread) (hi : i.reranks ≠ some l) :
    (s'.threads l).priority = (s.threads l).priority ∧
      ((s.threads l).priority = threadMaxPriority → s'.ranks.ahead l ≤ s.ranks.ahead l) := by
  have hshifts := (step_ranks h hs).shifts hexec
  rw [hb] at hshifts
  exact (Shifts.waiting hshifts ho hl hne hi).2

/-- The bound, by induction over the run. -/
theorem yieldsIn_le (hb : b.policy = .prio) (h : Sound s) (ho : s.ranks.Ordered)
    (hw : WaitsThrough b l s inputs) :
    (yieldsIn b s inputs : Int) ≤
      threadMaxPriority - (s.threads l).priority + aheadAtMaximum b l s inputs := by
  induction inputs generalizing s with
  | nil =>
      have hbound := (ho.bounded l).2
      simp only [yieldsIn, State.ranks] at *
      omega
  | cons i rest ih =>
      have hbound : (s.threads l).priority ≤ threadMaxPriority := (ho.bounded l).2
      obtain ⟨hl, hg, hi, s', hmem, hrest⟩ := hw
      have hs : step b s i = some s' := hmem
      have hlater := ih (h.step hg hs) (ho.step hb h hs).1 hrest
      have hahead : (s.threads l).priority ≠ threadMaxPriority →
          aheadAtMaximum b l s (i :: rest) = aheadAtMaximum b l s' rest := by
        intro hlow
        simp [aheadAtMaximum, hlow, hs]
      cases hexec : executesYield b s i with
      | true =>
          obtain ⟨hgain, hpass⟩ := waits_yield hb h ho hs hexec hl hrest.mem
          simp only [yieldsIn, hs, hexec, if_true]
          by_cases hfull : (s.threads l).priority = threadMaxPriority
          · have hfull' : (s'.threads l).priority = threadMaxPriority := by
              rw [hgain, hfull]
              decide
            have hpass := hpass hfull
            rw [aheadAtMaximum_of_full hfull'] at hlater
            rw [aheadAtMaximum_of_full hfull]
            omega
          · rw [hahead hfull]
            unfold threadWait at hgain
            omega
      | false =>
          simp only [yieldsIn, hs, hexec, Bool.false_eq_true, if_false]
          cases rest with
          | nil =>
              simp only [yieldsIn]
              omega
          | cons j rest =>
              obtain ⟨-, -, -, s'', hs', -⟩ := id hrest
              have hsound := h.step hg hs
              have hne : l ≠ s'.currentThread := by
                rintro rfl
                exact (hsound.inv.canYield (hsound.runs (ended_of_step hs'))).out hrest.mem
              obtain ⟨hsame, hpass⟩ := waits_other hb h ho hs hexec hl hne hi
              by_cases hfull : (s.threads l).priority = threadMaxPriority
              · have hpass := hpass hfull
                rw [aheadAtMaximum_of_full (hsame.trans hfull)] at hlater
                rw [aheadAtMaximum_of_full hfull]
                omega
              · rw [hahead hfull]
                omega

end Waiting

/-- No starvation: while `l` waits, the number of yields is bounded by what its
priority has to rise and the threads ahead of it once it is at the maximum. -/
theorem yields_bounded_of_reach {b : Build} {l : Tid} {s : State} {inputs : List Input}
    (hb : b.policy = .prio) (h : RegularReach b s) (hw : WaitsThrough b l s inputs) :
    (yieldsIn b s inputs : Int) ≤
        threadMaxPriority - (s.threads l).priority + aheadAtMaximum b l s inputs ∧
      (yieldsIn b s inputs : Int) < 100 + longestQueue b s inputs := by
  have ho := ordered_of_reach hb h
  have hbound := yieldsIn_le hb h.sound ho hw
  have hlong := aheadAtMaximum_lt_longestQueue hw
  have hnonneg : threadMinPriority ≤ (s.threads l).priority := (ho.bounded l).1
  refine ⟨hbound, ?_⟩
  unfold threadMinPriority at hnonneg
  unfold threadMaxPriority at hbound
  omega

/-- Two threads at the maximum: the second waits for exactly one yield, which
dispatches the first. -/
theorem yields_bounded_of_reach_script : ∃ s, RegularReach .prio s ∧
    WaitsThrough .prio 2 s [.plain .threadYield] ∧
    aheadAtMaximum .prio 2 s [.plain .threadYield] = 1 ∧
    (yieldsIn .prio s [.plain .threadYield] : Int) ≤
      threadMaxPriority - (s.threads 2).priority +
        aheadAtMaximum .prio 2 s [.plain .threadYield] := by
  obtain ⟨s, hreach, hwaits, hahead⟩ := exists_reach_of_run (step .prio) Regular State.initial
    [.create 1, .create 2, .plain (.threadSetPriority (some mainThread) 100),
      .plain (.threadSetPriority (some 1) 100), .plain (.threadSetPriority (some 2) 100)]
    (fun s => WaitsThrough .prio 2 s [.plain .threadYield] ∧
      aheadAtMaximum .prio 2 s [.plain .threadYield] = 1) (by decide +kernel)
  exact ⟨s, hreach, hwaits, hahead, (yields_bounded_of_reach rfl hreach hwaits).1⟩

end UserThreads
