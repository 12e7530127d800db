import UserThreads.History.Ownership

/-!
# Mutual exclusion and the order of hand-overs

The lock word says whether somebody owns the mutex, at most one thread does,
and threads that had to wait get the mutex in the order in which they parked.
A thread that locks a mutex it owns parks behind itself; that is the only way
in which an owner gets into the queue.
-/

namespace UserThreads

open Transition

/-- The lock word and the queue tell who owns the mutex. -/
structure MutexLaw (m : MutexId) (s : State) : Prop where
  unique : ∀ id id', owns m id s.trace = true → owns m id' s.trace = true → id = id'
  free_iff : s.locked m = 0 ↔ ∀ id, owns m id s.trace = false
  free_empty : s.locked m = 0 → s.waitingQueue (.mutex m) = []
  held_iff : s.locked m = 1 ↔ ∃ id, owns m id s.trace = true
  not_queued : ∀ id ∈ s.waitingIds (.mutex m), owns m id s.trace = true → Relocked m id s.trace
  fifo : FifoAt (.mutex m) s
  no_overtaking : Throughout (MutexEntry m) (s.epoch (.mutex m))

theorem OwnInv.mutexLaw {m : MutexId} {s : State} (h : OwnInv m s) : MutexLaw m s := by
  obtain ⟨o, howned, hfree, hheld⟩ := h.owner
  have hlocked : s.locked m = 0 ↔ o = none := by
    constructor
    · intro hzero
      by_contra ho
      rw [hheld ho] at hzero
      cases hzero
    · exact fun ho => (hfree ho).1
  constructor
  · intro id id' hid hid'
    exact Option.some.inj ((howned.eq_of_owns hid).symm.trans (howned.eq_of_owns hid'))
  · rw [hlocked]
    constructor
    · rintro rfl id
      rw [← Bool.not_eq_true, howned id]
      simp
    · intro hnobody
      cases o with
      | none => rfl
      | some id =>
          have howns := (howned id).mpr rfl
          rw [hnobody id] at howns
          cases howns
  · exact fun hzero => (hfree (hlocked.mp hzero)).2
  · constructor
    · intro hone
      cases o with
      | none =>
          rw [(hfree rfl).1] at hone
          cases hone
      | some id => exact ⟨id, (howned id).mpr rfl⟩
    · rintro ⟨id, hid⟩
      exact hheld (by simp [howned.eq_of_owns hid])
  · intro id hid howns
    obtain ⟨t, ht, rfl⟩ := List.mem_map.mp hid
    exact h.relocked t ht howns
  · exact h.fifo
  · exact h.entries

/-- Along every run that keeps the contract of a mutex the law holds. -/
theorem mutexLaw_of_reach {b : Build} {m : MutexId} {s : State}
    (h : Reach (step b) (MutexContract m) State.initial s) : MutexLaw m s :=
  (ownInv_of_reach h).2.mutexLaw

/-- A run in which the mutex has been handed over, and a thread still waits. -/
theorem mutexLaw_of_reach_script : ∃ s, Reach (step .fifo) (MutexContract 0) State.initial s ∧
    s.locked 0 = 1 ∧ owns 0 1 s.trace = true ∧ s.waitingIds (.mutex 0) = [2] ∧ MutexLaw 0 s := by
  obtain ⟨s, hreach, hlocked, howns, hwaiting⟩ := exists_reach_of_run (step .fifo)
    (MutexContract 0) State.initial
    [.plain (.threadMutexInit (some 0)), .create 1, .create 2, .plain (.threadMutexLock (some 0)),
      .plain .threadYield, .go, .plain (.threadMutexLock (some 0)), .go,
      .plain (.threadMutexLock (some 0)), .go, .plain (.threadMutexUnlock (some 0))]
    (fun s => s.locked 0 = 1 ∧ owns 0 1 s.trace = true ∧ s.waitingIds (.mutex 0) = [2])
    (by decide +kernel)
  exact ⟨s, hreach, hlocked, howns, hwaiting, mutexLaw_of_reach hreach⟩

/-- The main thread locks the mutex twice, and waits behind itself. -/
theorem owner_in_queue : ¬ ∀ b m s, Reach (step b) (MutexContract m) State.initial s →
    ∀ id, owns m id s.trace = true → id ∉ s.waitingIds (.mutex m) := by
  intro hall
  obtain ⟨s, hreach, howns, hwaiting⟩ := exists_reach_of_run (step .fifo) (MutexContract 0)
    State.initial
    [.plain (.threadMutexInit (some 0)), .create 1, .plain (.threadMutexLock (some 0)),
      .plain (.threadMutexLock (some 0))]
    (fun s => owns 0 0 s.trace = true ∧ s.waitingIds (.mutex 0) = [0]) (by decide +kernel)
  exact hall .fifo 0 s hreach 0 howns (by simp [hwaiting])

end UserThreads
