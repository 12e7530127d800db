import UserThreads.History.Ownership

/-!
# No lost wake-up

A monitor is a mutex, a condition and a predicate of the shared state. The
predicate belongs to the user program; here it is a Boolean beside the state
of the library, together with the thread that has made it true and has not
broadcast yet. A program that keeps the rules of the monitor leaves no thread
parked on the condition when the mutex is free and the predicate is true.
-/

namespace UserThreads

open Transition

/-- The library, the predicate, and the thread that owes a broadcast. -/
structure Monitor where
  lib : State
  pred : Bool
  owed : Option Nat

/-- A step of the library, or a write of user code to the shared state. -/
inductive MonitorInput where
  | lib (i : Input)
  | setPred (v : Bool)

/-- One step; a thread that makes the predicate true owes a broadcast, and
pays it by broadcasting. -/
def monitorStep (b : Build) (c : CondId) (x : Monitor) : MonitorInput → Option Monitor
  | .lib i => (step b x.lib i).map fun s =>
      { lib := s
        pred := x.pred
        owed := if i.broadcasts = some c ∧ x.owed = some x.lib.self then none else x.owed }
  | .setPred v =>
      if x.lib.ended = false ∧ x.lib.running.point = .user then
        some
          { lib := x.lib
            pred := v
            owed := if x.pred = false ∧ v = true then some x.lib.self else x.owed }
      else none

/-- The rules of the monitor: threads wait on `c` only with `m`, as its owner
and while the predicate is false, the predicate changes only in the hands of
the owner, and nobody releases `m` who owes a broadcast. -/
def MonitorRules (c : CondId) (m : MutexId) (x : Monitor) : MonitorInput → Prop
  | .lib i => MutexContract m x.lib i ∧ (∀ w ∈ i.waits, w.1 = c → w.2 = m ∧ x.pred = false) ∧
      (i.releases = some m → x.owed ≠ some x.lib.self)
  | .setPred v => v ≠ x.pred → owns m x.lib.self x.lib.trace = true

instance (c : CondId) (m : MutexId) (x : Monitor) (j : MonitorInput) :
    Decidable (MonitorRules c m x j) :=
  match j with
  | .lib i => inferInstanceAs (Decidable (MutexContract m x.lib i ∧
      (∀ w ∈ i.waits, w.1 = c → w.2 = m ∧ x.pred = false) ∧
      (i.releases = some m → x.owed ≠ some x.lib.self)))
  | .setPred v => inferInstanceAs (Decidable (v ≠ x.pred → owns m x.lib.self x.lib.trace = true))

/-- The monitor before anything has happened. -/
def Monitor.initial (p : Bool) : Monitor := { lib := State.initial, pred := p, owed := none }

/-! A broadcast empties the queue. -/

theorem threadSchedulerEnqueue_waitingQueue (p : Policy) (s : State) (t : Tid) :
    (threadSchedulerEnqueue p s t).waitingQueue = s.waitingQueue := by
  unfold threadSchedulerEnqueue
  split
  · rfl
  · rfl

theorem wakeFirst_queue (p : Policy) (s : State) (q : QueueId) :
    (wakeFirst p s q).waitingQueue q = (s.waitingQueue q).tail := by
  unfold wakeFirst
  split
  next hq => rw [hq]; rfl
  next t rest hq =>
    rw [threadSchedulerEnqueue_waitingQueue, hq]
    exact Function.update_self _ _ _

theorem wakeAll_queue (p : Policy) (q : QueueId) (n : Nat) (s : State)
    (h : (s.waitingQueue q).length ≤ n) : (wakeAll p q n s).waitingQueue q = [] := by
  induction n generalizing s with
  | zero => exact List.eq_nil_of_length_eq_zero (Nat.le_zero.mp h)
  | succ n ih =>
      unfold wakeAll
      split
      next hq => exact hq
      next =>
        apply ih
        rw [wakeFirst_queue, List.length_tail]
        omega

/-- After a broadcast nobody is parked on the condition. -/
theorem step_broadcast {b : Build} {s s' : State} {i : Input} {c : CondId}
    (hi : i.broadcasts = some c) (hs : step b s i = some s') :
    s'.waitingQueue (.cond c) = [] := by
  cases i with
  | resume e => cases hi
  | call call e =>
      cases call with
      | threadCondBroadcast c' =>
          obtain rfl : c' = some c := hi
          obtain ⟨-, rfl⟩ := step_call hs
          exact wakeAll_queue b.policy (.cond c) _ s (Nat.le_refl _)
      | _ => cases hi

section

variable {i : Input} {s s' : State} {c : CondId} {m : MutexId}

/-- Nobody gets into the empty queue of a condition but by a wait on it. -/
theorem Act.cond_empty (ha : Act i s s') (hno : ∀ w ∈ i.waits, w.1 ≠ c)
    (h : s.waitingQueue (.cond c) = []) : s'.waitingQueue (.cond c) = [] := by
  have hapart : ∀ {s' : State}, Apart (.cond c) s s' → s'.waitingQueue (.cond c) = [] :=
    fun ha => ha.queue.trans h
  cases ha with
  | lock m e hi huser ha => exact hapart (ha.apart (by simp))
  | unlock m e hi huser hvalid hheld hr => exact hapart (hr.apart (by simp))
  | mutexInit m e hi =>
      exact hapart (((Apart.setLocked s (by simp) 0).trans (.initQueue (by simp) _)).trans
        (.emit _ (by simp [Event.queue])))
  | mutexDestroy m e hi hq =>
      exact hapart ((Apart.setLocked s (by simp) _).trans (.emit _ (by simp [Event.queue])))
  | semInit sm v e hi hv =>
      exact hapart (((Apart.setCount s (by simp) v).trans (.initQueue (by simp) _)).trans
        (.emit _ (by simp [Event.queue])))
  | semDestroy sm e hi hq =>
      exact hapart ((Apart.setCount s (by simp) _).trans (.emit _ (by simp [Event.queue])))
  | condInit c' e hi =>
      by_cases hq : QueueId.cond c' = .cond c
      · rw [hq]
        exact Function.update_self _ _ _
      · exact hapart ((Apart.initQueue hq s).trans (.emit _ (by simpa [Event.queue] using hq)))
  | condWait c' m e hi hrun huser hready hr =>
      have hne : QueueId.cond c' ≠ .cond c := by simpa using hno (c', m) (by rw [hi]; rfl)
      exact hapart ((hr.apart (by simp)).trans (.parkAt hne _))
  | condGiveUp c' m e hi huser hready hr ha =>
      exact hapart ((hr.apart (by simp)).trans (ha.apart (by simp)))
  | relock c' m e hi hk ha hb =>
      have hback := hapart (ha.apart (by simp))
      cases hb <;> exact hback
  | join t slot own retval e hi hrun huser ht hne hlive hfree hslot hown hchain hready => exact h

theorem Move.cond_empty (hm : Move i s s') (h : s.waitingQueue (.cond c) = []) :
    s'.waitingQueue (.cond c) = [] := by
  rcases hm.apart_or (.cond c) with ha | hon
  · exact ha.queue.trans h
  · cases hon with
    | condWake c t rest rq hq =>
        rw [h] at hq
        cases hq

theorem OwnInv.owns_acquire {id : Nat} {m' : MutexId} {k : Point} (h : OwnInv m s)
    (hid : owns m id s.trace = true) (ha : Acquire m' k s s') : owns m id s'.trace = true := by
  by_cases hq : QueueId.mutex m' = .mutex m
  · obtain rfl : m' = m := by simpa using hq
    cases ha with
    | take hfree =>
        obtain ⟨o, howned, -, hheld⟩ := h.owner
        rw [hheld (by simp [howned.eq_of_owns hid])] at hfree
        cases hfree
    | park hrun hold hvalid hheld hready => exact hid
    | fail hfail => exact hid
  · exact ((ha.apart hq).owns_eq id).trans hid

/-- An owner stays the owner until it releases. -/
theorem OwnInv.owns_act {id : Nat} (h : OwnInv m s) (hid : owns m id s.trace = true)
    (hno : i.releases ≠ some m) (ha : Act i s s') : owns m id s'.trace = true := by
  have hother : ∀ m' : MutexId, i.releases = some m' → QueueId.mutex m' ≠ .mutex m := by
    intro m' hi heq
    cases heq
    exact hno hi
  have hreleased : ∀ (m' : MutexId) {s' : State}, i.releases = some m' → Release m' s s' →
      owns m id s'.trace = true :=
    fun m' _ hi hr => ((hr.apart (hother m' hi)).owns_eq id).trans hid
  cases ha with
  | lock m' e hi huser ha => exact h.owns_acquire hid ha
  | unlock m' e hi huser hvalid hheld hr => exact hreleased m' (by rw [hi]; rfl) hr
  | condWait c m' e hi hrun huser hready hr =>
      have hkept := hreleased m' (by rw [hi]; rfl) hr
      exact hkept
  | condGiveUp c m' e hi huser hready hr ha =>
      have hq := hother m' (by rw [hi]; rfl)
      exact (((hr.apart hq).trans (ha.apart hq)).owns_eq id).trans hid
  | relock c m' e hi hk ha hb =>
      have hback := h.owns_acquire hid ha
      cases hb <;> exact hback
  | _ => exact hid

end

/-- The library is sound, who owes a broadcast owns the mutex, and nobody is
parked while the predicate is true and no broadcast is owed. -/
structure MonitorInv (c : CondId) (m : MutexId) (x : Monitor) : Prop where
  settled : Settled x.lib
  own : OwnInv m x.lib
  owed : ∀ id ∈ x.owed, owns m id x.lib.trace = true
  empty : x.pred = true → x.owed = none → x.lib.waitingQueue (.cond c) = []

theorem monitorInv_initial (c : CondId) (m : MutexId) (p : Bool) :
    MonitorInv c m (.initial p) where
  settled := settled_initial
  own := ownInv_initial m
  owed := by simp [Monitor.initial]
  empty := fun _ _ => rfl

namespace MonitorInv

variable {b : Build} {c : CondId} {m : MutexId} {x x' : Monitor}

/-- A thread that owes a broadcast does not release the mutex. -/
theorem not_releases (h : MonitorInv c m x) {i : Input} (hg : MonitorRules c m x (.lib i))
    {id : Nat} (hid : id ∈ x.owed) : i.releases ≠ some m := by
  intro hi
  have hself := hg.1.2.2.2 hi
  obtain ⟨o, howned, -, -⟩ := h.own.owner
  have heq := (howned.eq_of_owns (h.owed id hid)).symm.trans (howned.eq_of_owns hself)
  rw [Option.some.inj heq] at hid
  exact hg.2.2 hi hid

theorem lib_step (h : MonitorInv c m x) {i : Input} (hg : MonitorRules c m x (.lib i))
    {s' : State} (hs : step b x.lib i = some s') {owed : Option Nat}
    (howed : owed = if i.broadcasts = some c ∧ x.owed = some x.lib.self then none else x.owed) :
    MonitorInv c m { lib := s', pred := x.pred, owed := owed } := by
  obtain ⟨hsettled, hown⟩ := h.settled.step h.own hg.1.1 hs
    (fun hrun ha => h.own.act h.settled.wellFormed hrun hg.1 ha) fun hwf hI hm => hI.move hwf hm
  refine ⟨hsettled, hown, fun id hid => ?_, fun hpred hnone => ?_⟩
  · have hold : id ∈ x.owed := by
      rw [howed] at hid
      split at hid
      · cases hid
      · exact hid
    exact (h.settled.step (I := fun s => owns m id s.trace = true) (h.owed id hold) hg.1.1 hs
      (fun _ ha => h.own.owns_act (h.owed id hold) (h.not_releases hg hold) ha)
      fun _ hI hm => ((hm.apart_mutex m).owns_eq id).trans hI).2
  · by_cases hb : i.broadcasts = some c ∧ x.owed = some x.lib.self
    · exact step_broadcast hb.1 hs
    · rw [howed, if_neg hb] at hnone
      have hno : ∀ w ∈ i.waits, w.1 ≠ c := by
        intro w hw heq
        rw [(hg.2.1 w hw heq).2] at hpred
        cases hpred
      exact (h.settled.step (I := fun s => s.waitingQueue (.cond c) = []) (h.empty hpred hnone)
        hg.1.1 hs (fun _ ha => ha.cond_empty hno (h.empty hpred hnone))
        fun _ hI hm => hm.cond_empty hI).2

theorem setPred_step (h : MonitorInv c m x) {v : Bool} (hg : MonitorRules c m x (.setPred v)) :
    MonitorInv c m
      { lib := x.lib
        pred := v
        owed := if x.pred = false ∧ v = true then some x.lib.self else x.owed } := by
  refine ⟨h.settled, h.own, fun id hid => ?_, fun hpred hnone => ?_⟩
  · split at hid
    next hrise =>
      obtain rfl := Option.some.inj hid
      exact hg (by rw [hrise.1, hrise.2]; decide)
    next => exact h.owed id hid
  · split at hnone
    next => cases hnone
    next hsame =>
      refine h.empty ?_ hnone
      cases hp : x.pred with
      | true => rfl
      | false => exact absurd ⟨hp, hpred⟩ hsame

end MonitorInv

/-- Along every run that keeps the rules, nobody is parked on the condition
when the mutex is free and the predicate is true. -/
theorem cond_empty_of_reach {b : Build} {c : CondId} {m : MutexId} {p : Bool} {x : Monitor}
    (h : Reach (monitorStep b c) (MonitorRules c m) (.initial p) x)
    (hfree : x.lib.locked m = 0) (hpred : x.pred = true) : x.lib.waitingQueue (.cond c) = [] := by
  have hinv : MonitorInv c m x := by
    refine h.invariant (monitorInv_initial c m p) ?_
    intro x x' j _ hI hg hs
    cases j with
    | lib i =>
        obtain ⟨s', hstep, rfl⟩ := Option.map_eq_some_iff.mp hs
        exact hI.lib_step hg hstep rfl
    | setPred v =>
        simp only [monitorStep] at hs
        split at hs
        next =>
          obtain rfl := Option.some.inj hs
          exact hI.setPred_step hg
        next => cases hs
  refine hinv.empty hpred ?_
  -- Who owes a broadcast owns the mutex, and nobody does.
  by_contra hsome
  obtain ⟨id, hid⟩ := Option.ne_none_iff_exists'.mp hsome
  obtain ⟨o, howned, -, hheld⟩ := hinv.own.owner
  rw [hheld (by simp [howned.eq_of_owns (hinv.owed id hid)])] at hfree
  cases hfree

/-- A run in which a thread waits, another makes the predicate true, broadcasts
and releases the mutex. -/
theorem cond_empty_of_reach_script : ∃ x,
    Reach (monitorStep .fifo 0) (MonitorRules 0 0) (.initial false) x ∧
    x.lib.locked 0 = 0 ∧ x.pred = true ∧ parkedIn (.cond 0) (x.lib.epoch (.cond 0)) = [1] ∧
    x.lib.waitingQueue (.cond 0) = [] := by
  obtain ⟨x, hreach, hfree, hpred, hparked⟩ := exists_reach_of_run (monitorStep .fifo 0)
    (MonitorRules 0 0) (.initial false)
    [.lib (.plain (.threadMutexInit (some 0))), .lib (.plain (.threadCondInit (some 0))),
      .lib (.create 1), .lib (.plain .threadYield), .lib .go,
      .lib (.plain (.threadMutexLock (some 0))),
      .lib (.plain (.threadCondWait (some 0) (some 0))), .lib .go,
      .lib (.plain (.threadMutexLock (some 0))), .setPred true,
      .lib (.plain (.threadCondBroadcast (some 0))), .lib (.plain (.threadMutexUnlock (some 0)))]
    (fun x => x.lib.locked 0 = 0 ∧ x.pred = true ∧
      parkedIn (.cond 0) (x.lib.epoch (.cond 0)) = [1]) (by decide +kernel)
  exact ⟨x, hreach, hfree, hpred, hparked, cond_empty_of_reach hreach hfree hpred⟩

end UserThreads
