import UserThreads.Laws.Preemption
import UserThreads.Laws.Semaphore
import UserThreads.Operations.Objects

/-!
# Synchronisation objects under preemption

In every calm run of the preemptive build whose calls keep their promises for an
object, wherever the timer signal comes in its operations, a semaphore conserves units
within the range of an `int`, and a mutex is taken and released in turn.
-/

namespace UserThreads

open Transition

/-! Semaphores. -/

/-- The value with which an entry sets up the semaphore. -/
def Event.semValue (sm : SemId) : Event → Option Int
  | .semSet sm' v => if sm' = sm then some v else none
  | _ => none

/-- The value of the last set-up of a semaphore. Before the first one it has the
zeros of static memory. -/
def State.semBase (s : State) (sm : SemId) : Int := latest (Event.semValue sm) 0 s.trace

/-- Units are in the counter or have been granted, the counter is a natural number
that an `int` can hold, and nobody waits for a unit that is there. -/
structure UnitLaw (sm : SemId) (s : State) : Prop where
  conserved : InBalance (Event.resets (.sem sm)) (Event.posts sm) (Event.grants sm)
    (s.semBase sm) (s.count sm) s.trace
  nonneg : 0 ≤ s.count sm
  inRange : s.count sm ≤ intMax
  empty : 0 < s.count sm → s.waitingQueue (.sem sm) = []

theorem Event.semValue_keep {sm : SemId} {e : Event} (h : e.resets (.sem sm) = false) :
    e.semValue sm = none := by
  cases e <;> simp_all [Event.resets, Event.semValue, eq_comm]

namespace UnitLaw

variable {sm : SemId} {s s' : State}

/-- The semaphore is not set up again. -/
theorem extend (h : UnitLaw sm s) {l : List Event} (htrace : s'.trace = l ++ s.trace)
    (hkeep : ∀ e ∈ l, e.resets (.sem sm) = false)
    (hchange : s'.count sm + l.countP (Event.grants sm) =
      s.count sm + l.countP (Event.posts sm))
    (hrange : 0 ≤ s'.count sm ∧ s'.count sm ≤ intMax)
    (hempty : 0 < s'.count sm → s'.waitingQueue (.sem sm) = []) : UnitLaw sm s' := by
  refine ⟨?_, hrange.1, hrange.2, hempty⟩
  have hbase : s'.semBase sm = s.semBase sm := by
    unfold State.semBase
    rw [htrace]
    exact latest_append_none fun e he => Event.semValue_keep (hkeep e he)
  rw [hbase, htrace]
  exact h.conserved.append hkeep hchange

theorem assigned {v : Int} (hv : 0 ≤ v) (hmax : v ≤ intMax)
    (htrace : s'.trace = .semSet sm v :: s.trace) (hcount : s'.count sm = v)
    (hqueue : s'.waitingQueue (.sem sm) = []) : UnitLaw sm s' := by
  have hbase : s'.semBase sm = v := by
    unfold State.semBase
    rw [htrace]
    exact latest_cons_some (if_pos rfl)
  refine ⟨?_, hcount ▸ hv, hcount ▸ hmax, fun _ => hqueue⟩
  rw [hbase, hcount, htrace]
  exact inBalance_reset (by simp [Event.resets])

/-- The range of the counter. -/
theorem range (h : UnitLaw sm s) : 0 ≤ s.count sm ∧ s.count sm ≤ intMax := ⟨h.nonneg, h.inRange⟩

theorem apart (h : UnitLaw sm s) (ha : Apart (.sem sm) s s') : UnitLaw sm s' := by
  obtain ⟨l, htrace, hnew⟩ := ha.trace
  have hcount : s'.count sm = s.count sm := ha.value
  have hposts : l.countP (Event.posts sm) = 0 :=
    List.countP_eq_zero.mpr fun e he => by simp [Event.posts_foreign (hnew e he)]
  have hgrants : l.countP (Event.grants sm) = 0 :=
    List.countP_eq_zero.mpr fun e he => by simp [Event.grants_foreign (hnew e he)]
  refine h.extend htrace (fun e he => Event.resets_foreign (hnew e he)) ?_ (hcount ▸ h.range) ?_
  · rw [hcount, hposts, hgrants]
  · rw [hcount, ha.queue]
    exact h.empty

theorem deed {careless : QueueId → Prop} (h : UnitLaw sm s) (hcareful : ¬ careless (.sem sm))
    (hd : Deed careless (.sem sm) s s') : UnitLaw sm s' := by
  cases hd with
  | apart ha => exact h.apart ha
  | park t id hbusy =>
      refine h.extend (l := [_]) rfl (by simp [Event.resets]) ?_ h.range
        fun hpos => absurd hpos (Int.not_lt.mpr hbusy)
      simp [Event.posts, Event.grants, State.setQueue, State.emit]
  | semTake id hpos =>
      have hmax := h.inRange
      refine h.extend (l := [_]) rfl (by simp [Event.resets]) ?_ ?_ fun _ => h.empty hpos
      · simp [Event.posts, Event.grants, State.setCount, State.emit]
      · simp only [State.setCount, State.emit, Function.update_self]
        omega
  | semHandOver t rest id id' hq =>
      -- A unit that finds a waiter does not enter the counter, which is 0.
      have hzero : ¬ 0 < s.count sm := fun hpos => by simp [h.empty hpos] at hq
      refine h.extend (l := [_, _]) rfl (by simp [Event.resets]) ?_ h.range
        fun hpos => absurd hpos hzero
      simp [Event.posts, Event.grants, State.setQueue, State.emit]
  | semCount id hq hmax =>
      have hnonneg := h.nonneg
      have hlt := hmax.resolve_right hcareful
      refine h.extend (l := [_]) rfl (by simp [Event.resets]) ?_ ?_ fun _ => hq
      · simp [Event.posts, Event.grants, State.setCount, State.emit]
      · simp only [State.setCount, State.emit, Function.update_self]
        omega
  | semAssign hv hset =>
      obtain ⟨hmax, hq⟩ := hset.resolve_right hcareful
      exact assigned hv hmax rfl (Function.update_self _ _ _) hq
  | tailqInit =>
      exact h.extend (l := []) rfl (by simp) rfl h.range fun _ => Function.update_self _ _ _

theorem deeds {careless : QueueId → Prop} (h : UnitLaw sm s) (hcareful : ¬ careless (.sem sm))
    (hd : Deeds careless (.sem sm) s s') : UnitLaw sm s' := by
  induction hd with
  | refl => exact h
  | tail _ hdeed ih => exact ih.deed hcareful hdeed

end UnitLaw

theorem unitLaw_initial (sm : SemId) : UnitLaw sm .initial where
  conserved := rfl
  nonneg := Int.le_refl 0
  inRange := (by decide : (0 : Int) ≤ intMax)
  empty := fun _ => rfl

namespace Preemptive

/-- The steps of a calm run that keep the promises for an object. -/
def Careful (q : QueueId) (x : Preemptive) (i : Stimulus) : Prop := x.Calm i ∧ x.Respects q i

instance (q : QueueId) (x : Preemptive) (i : Stimulus) : Decidable (x.Careful q i) :=
  inferInstanceAs (Decidable (_ ∧ _))

/-- In every careful run of the preemptive build a semaphore conserves units. -/
theorem unitLaw_of_reach {b : Build} {x : Preemptive} {sm : SemId}
    (h : Reach (step b) (Careful (.sem sm)) initial x) : UnitLaw sm x.lib :=
  h.invariant (I := fun x => UnitLaw sm x.lib) (unitLaw_initial sm) fun hreach hlaw hg hs =>
    hlaw.deeds (not_not.mpr hg.2) (step_deeds (maskInv_of_reach hreach) hs (.sem sm))

/-- Thread 1 has been created, the main thread makes the call `c`, and the timer
signal comes when it has returned. Then thread 1 makes the call. -/
def contested (c : Call) : List Stimulus :=
  creation 1 ++ .call c :: statements 3 ++ .tick :: statements 4 ++ .call c :: statements 2

/-- Thread 1 waits for the unit that the main thread has taken. -/
theorem unitLaw_of_reach_contested : ∃ x, Reach (step .fifo) (Careful (.sem 0)) initial x ∧
    x.lib.waitingQueue (.sem 0) = [1] ∧ x.lib.semBase 0 = 1 ∧ UnitLaw 0 x.lib := by
  obtain ⟨x, hreach, hqueue, hbase⟩ := exists_reach_of_run (step .fifo) (Careful (.sem 0)) initial
    (.call (.threadSemInit (some 0) 1) :: statements 3 ++ contested (.threadSemWait (some 0)))
    (fun x => x.lib.waitingQueue (.sem 0) = [1] ∧ x.lib.semBase 0 = 1) (by decide +kernel)
  exact ⟨x, hreach, hqueue, hbase, unitLaw_of_reach hreach⟩

end Preemptive

/-! Mutexes. -/

/-- The entry is a release of the mutex. -/
def Event.releases (m : MutexId) : Event → Bool
  | .mutexReleased m' _ => decide (m' = m)
  | _ => false

/-- The mutex is taken when every earlier owner has released it, and released
when one has not. -/
def TurnEntry (m : MutexId) (past : List Event) (e : Event) : Prop :=
  (e.acquires m = true → past.countP (Event.acquires m) = past.countP (Event.releases m)) ∧
    (e.releases m = true → past.countP (Event.acquires m) = past.countP (Event.releases m) + 1)

/-- The number of owners, which the field of a mutex that is not destroyed is. -/
def State.owners (s : State) (m : MutexId) : Int := if s.locked m = 1 then 1 else 0

/-- Since its last set-up a mutex has been taken and released in turn. Its field
says which of the two was the last, and nobody waits for a mutex that is free. -/
structure TurnLaw (m : MutexId) (s : State) : Prop where
  value : s.locked m = -1 ∨ s.locked m = 0 ∨ s.locked m = 1
  balanced : InBalance (Event.resets (.mutex m)) (Event.acquires m) (Event.releases m) 0
    (s.owners m) s.trace
  empty : s.locked m ≠ 1 → s.waitingQueue (.mutex m) = []
  turns : Throughout (TurnEntry m) (s.epoch (.mutex m))

section Foreign

variable {m : MutexId} {e : Event} (h : e.queue ≠ some (.mutex m))
include h

theorem Event.acquires_foreign : e.acquires m = false := by
  cases e <;> simp_all [Event.queue, Event.acquires]

theorem Event.releases_foreign : e.releases m = false := by
  cases e <;> simp_all [Event.queue, Event.releases]

end Foreign

namespace TurnLaw

variable {m : MutexId} {s s' : State}

/-- The owners are those who have taken the mutex and not released it. -/
theorem count (h : TurnLaw m s) : ((s.epoch (.mutex m)).countP (Event.acquires m) : Int) =
    s.owners m + (s.epoch (.mutex m)).countP (Event.releases m) := by
  have hbalanced := h.balanced
  unfold InBalance at hbalanced
  rw [Int.zero_add] at hbalanced
  exact hbalanced

/-- The mutex is not set up again. -/
theorem extend (h : TurnLaw m s) {l : List Event} (htrace : s'.trace = l ++ s.trace)
    (hkeep : ∀ e ∈ l, e.resets (.mutex m) = false)
    (hvalue : s'.locked m = -1 ∨ s'.locked m = 0 ∨ s'.locked m = 1)
    (hchange : s'.owners m + l.countP (Event.releases m) =
      s.owners m + l.countP (Event.acquires m))
    (hempty : s'.locked m ≠ 1 → s'.waitingQueue (.mutex m) = [])
    (hturns : Throughout (TurnEntry m) (l ++ s.epoch (.mutex m))) : TurnLaw m s' := by
  refine ⟨hvalue, ?_, hempty, ?_⟩
  · rw [htrace]
    exact h.balanced.append hkeep hchange
  · rw [State.epoch_append htrace hkeep]
    exact hturns

theorem assigned {v : Int} (hv : v = -1 ∨ v = 0) (htrace : s'.trace = .mutexSet m v :: s.trace)
    (hlocked : s'.locked m = v) (hqueue : s'.waitingQueue (.mutex m) = []) : TurnLaw m s' := by
  have hfree : s'.owners m = 0 := by
    unfold State.owners
    rw [hlocked]
    exact if_neg (by omega)
  refine ⟨by omega, ?_, fun _ => hqueue, ?_⟩
  · rw [hfree, htrace]
    exact inBalance_reset (by simp [Event.resets])
  · rw [State.epoch, htrace, since_cons_reset (by simp [Event.resets])]
    trivial

theorem apart (h : TurnLaw m s) (ha : Apart (.mutex m) s s') : TurnLaw m s' := by
  obtain ⟨l, htrace, hnew⟩ := ha.trace
  have hlocked : s'.locked m = s.locked m := ha.value
  have howners : s'.owners m = s.owners m := by
    unfold State.owners
    rw [hlocked]
  have hacquires : l.countP (Event.acquires m) = 0 :=
    List.countP_eq_zero.mpr fun e he => by simp [Event.acquires_foreign (hnew e he)]
  have hreleases : l.countP (Event.releases m) = 0 :=
    List.countP_eq_zero.mpr fun e he => by simp [Event.releases_foreign (hnew e he)]
  refine h.extend htrace (fun e he => Event.resets_foreign (hnew e he)) ?_ ?_ ?_ ?_
  · rw [hlocked]
    exact h.value
  · rw [howners, hacquires, hreleases]
  · rw [hlocked, ha.queue]
    exact h.empty
  · refine h.turns.append fun past e he => ⟨fun hacq => ?_, fun hrel => ?_⟩
    · simp [Event.acquires_foreign (hnew e he)] at hacq
    · simp [Event.releases_foreign (hnew e he)] at hrel

/-- A mutex on which a thread parks, or which `thread_mutex_unlock` releases, has
an owner. -/
theorem locked_of_busy (h : TurnLaw m s) (hbusy : s.Busy (.mutex m)) : s.locked m = 1 := by
  rcases h.value with hvalue | hvalue | hvalue
  · exact absurd hvalue hbusy.2
  · exact absurd hvalue hbusy.1
  · exact hvalue

/-- The owner releases. -/
theorem released (h : TurnLaw m s) (hlocked : s.locked m = 1) (id : Nat) :
    TurnEntry m (s.epoch (.mutex m)) (.mutexReleased m id) := by
  have hcount := h.count
  rw [State.owners, if_pos hlocked] at hcount
  refine ⟨fun hacq => ?_, fun _ => ?_⟩
  · simp [Event.acquires] at hacq
  · omega

/-- Somebody takes the mutex, which is free. -/
theorem taken (h : TurnLaw m s) (hfree : s.locked m = 0) (id : Nat) :
    TurnEntry m (s.epoch (.mutex m)) (.mutexTaken m id) := by
  have hcount := h.count
  rw [State.owners, if_neg (by omega)] at hcount
  refine ⟨fun _ => ?_, fun hrel => ?_⟩
  · omega
  · simp [Event.releases] at hrel

/-- The mutex goes to the first waiter. -/
theorem handedOver (h : TurnLaw m s) (hlocked : s.locked m = 1) (id id' : Nat) :
    TurnEntry m (.mutexReleased m id :: s.epoch (.mutex m)) (.woken (.mutex m) id') := by
  have hcount := h.count
  rw [State.owners, if_pos hlocked] at hcount
  have hacquires : (Event.mutexReleased m id :: s.epoch (.mutex m)).countP (Event.acquires m) =
      (s.epoch (.mutex m)).countP (Event.acquires m) :=
    List.countP_cons_of_neg (by simp [Event.acquires])
  have hreleases : (Event.mutexReleased m id :: s.epoch (.mutex m)).countP (Event.releases m) =
      (s.epoch (.mutex m)).countP (Event.releases m) + 1 :=
    List.countP_cons_of_pos (by simp [Event.releases])
  refine ⟨fun _ => ?_, fun hrel => ?_⟩
  · rw [hacquires, hreleases]
    omega
  · simp [Event.releases] at hrel

theorem deed {careless : QueueId → Prop} (h : TurnLaw m s) (hcareful : ¬ careless (.mutex m))
    (hd : Deed careless (.mutex m) s s') : TurnLaw m s' := by
  cases hd with
  | apart ha => exact h.apart ha
  | park t id hbusy =>
      have hlocked := h.locked_of_busy hbusy
      have hentry : TurnEntry m (s.epoch (.mutex m)) (.parked (.mutex m) id) := by
        simp [TurnEntry, Event.acquires, Event.releases]
      exact h.extend (l := [_]) rfl (by simp [Event.resets]) h.value rfl
        (fun hne => absurd hlocked hne) ⟨hentry, h.turns⟩
  | mutexTake id hfree =>
      have hlocked : ((s.setLocked m 1).emit (.mutexTaken m id)).locked m = 1 :=
        Function.update_self _ _ _
      refine h.extend (l := [_]) rfl (by simp [Event.resets]) (by omega) ?_
        (fun hne => absurd hlocked hne) ⟨h.taken hfree id, h.turns⟩
      simp [Event.acquires, Event.releases, State.owners, hlocked, hfree]
  | mutexHandOver t rest id id' hheld hq =>
      have hlocked := h.locked_of_busy (hheld.resolve_right hcareful)
      have howners : (((s.emit (.mutexReleased m id)).setQueue (.mutex m) rest).emit
          (.woken (.mutex m) id')).owners m = s.owners m := rfl
      refine h.extend (l := [_, _]) rfl (by simp [Event.resets]) h.value ?_
        (fun hne => absurd hlocked hne)
        ⟨h.handedOver hlocked id id', h.released hlocked id, h.turns⟩
      rw [howners]
      simp [Event.acquires, Event.releases]
  | mutexFree id hheld hq =>
      have hlocked := h.locked_of_busy (hheld.resolve_right hcareful)
      have hfree : ((s.emit (.mutexReleased m id)).setLocked m 0).locked m = 0 :=
        Function.update_self _ _ _
      refine h.extend (l := [_]) rfl (by simp [Event.resets]) (by omega) ?_ (fun _ => hq)
        ⟨h.released hlocked id, h.turns⟩
      simp [Event.acquires, Event.releases, State.owners, hlocked, hfree]
  | mutexAssign hv hq =>
      exact assigned hv rfl (Function.update_self _ _ _) (hq.resolve_right hcareful)
  | tailqInit =>
      exact h.extend (l := []) rfl (by simp) h.value rfl (fun _ => Function.update_self _ _ _)
        h.turns

theorem deeds {careless : QueueId → Prop} (h : TurnLaw m s) (hcareful : ¬ careless (.mutex m))
    (hd : Deeds careless (.mutex m) s s') : TurnLaw m s' := by
  induction hd with
  | refl => exact h
  | tail _ hdeed ih => exact ih.deed hcareful hdeed

end TurnLaw

theorem turnLaw_initial (m : MutexId) : TurnLaw m .initial where
  value := Or.inr (Or.inl rfl)
  balanced := rfl
  empty := fun _ => rfl
  turns := trivial

namespace Preemptive

/-- In every careful run of the preemptive build a mutex is taken and released in
turn. -/
theorem turnLaw_of_reach {b : Build} {x : Preemptive} {m : MutexId}
    (h : Reach (step b) (Careful (.mutex m)) initial x) : TurnLaw m x.lib :=
  h.invariant (I := fun x => TurnLaw m x.lib) (turnLaw_initial m) fun hreach hlaw hg hs =>
    hlaw.deeds (not_not.mpr hg.2) (step_deeds (maskInv_of_reach hreach) hs (.mutex m))

/-- Thread 1 has got the mutex from the main thread. -/
theorem turnLaw_of_reach_contested : ∃ x, Reach (step .fifo) (Careful (.mutex 0)) initial x ∧
    x.lib.locked 0 = 1 ∧ (x.lib.epoch (.mutex 0)).countP (Event.acquires 0) = 2 ∧
    TurnLaw 0 x.lib := by
  obtain ⟨x, hreach, hlocked, hcount⟩ := exists_reach_of_run (step .fifo) (Careful (.mutex 0))
    initial
    (.call (.threadMutexInit (some 0)) :: statements 3 ++
      contested (.threadMutexLock (some 0)) ++ statements 2 ++
      .call (.threadMutexUnlock (some 0)) :: statements 3)
    (fun x => x.lib.locked 0 = 1 ∧ (x.lib.epoch (.mutex 0)).countP (Event.acquires 0) = 2)
    (by decide +kernel)
  exact ⟨x, hreach, hlocked, hcount, turnLaw_of_reach hreach⟩

/-- The main thread holds the mutex and destroys it. The timer signal comes after the
test for waiting threads, and thread 1 waits for a mutex that is no longer valid. -/
theorem not_turnLaw_of_reach :
    ¬ ∀ (b : Build) (x : Preemptive), Reach (step b) Calm initial x → TurnLaw 0 x.lib := by
  intro hall
  obtain ⟨x, hreach, hlocked, hqueue⟩ := exists_reach_of_run (step .fifo) Calm initial
    (.call (.threadMutexInit (some 0)) :: statements 3 ++ creation 1 ++
      .call (.threadMutexLock (some 0)) :: statements 3 ++
      .call (.threadMutexDestroy (some 0)) :: statements 1 ++ .tick :: statements 4 ++
      .call (.threadMutexLock (some 0)) :: statements 5)
    (fun x => x.lib.locked 0 ≠ 1 ∧ x.lib.waitingQueue (.mutex 0) ≠ []) (by decide +kernel)
  exact hqueue ((hall .fifo x hreach).empty hlocked)

end Preemptive

end UserThreads
