import UserThreads.Laws.Monitor

/-!
# No lost update

The critical section of `61-mutex.c` and `62-mutex.c`: a thread reads a shared
counter into a local variable, yields, and writes the variable back, between
`thread_mutex_lock` and `thread_mutex_unlock`. The yields let other threads run in
the middle of an update, and still the updates take effect one after the other.
-/

namespace UserThreads

open Transition

/-- The library, a shared variable, the local copies of the threads, and the
updates written so far, the latest first. -/
structure Shared (σ : Type) where
  lib : State
  cell : σ
  tmp : Nat → Option σ
  log : List (σ → σ)

/-- A step of the library, a read of the shared variable, or the write of the
updated copy. -/
inductive SharedInput (σ : Type) where
  | lib (i : Input)
  | load
  | store (update : σ → σ)

namespace Shared

variable {σ : Type}

/-- One step. User code runs between the calls of the running thread. -/
def step (b : Build) (x : Shared σ) : SharedInput σ → Option (Shared σ)
  | .lib i => (UserThreads.step b x.lib i).map fun s => { x with lib := s }
  | .load =>
      if x.lib.ended = false ∧ x.lib.running.point = .user then
        some { x with tmp := Function.update x.tmp x.lib.self (some x.cell) }
      else none
  | .store update =>
      if x.lib.ended = false ∧ x.lib.running.point = .user then
        (x.tmp x.lib.self).map fun v =>
          { x with
            cell := update v
            tmp := Function.update x.tmp x.lib.self none
            log := update :: x.log }
      else none

/-- What `thfunc` keeps to: only the owner reads and writes, and it has written
back what it has read before it releases the mutex. -/
def Rules (m : MutexId) (x : Shared σ) : SharedInput σ → Prop
  | .lib i => MutexContract m x.lib i ∧
      (i.releases = some m → (x.tmp x.lib.self).isNone = true)
  | .load => owns m x.lib.self x.lib.trace = true
  | .store _ => owns m x.lib.self x.lib.trace = true

instance (m : MutexId) (x : Shared σ) (j : SharedInput σ) : Decidable (x.Rules m j) :=
  match j with
  | .lib i => inferInstanceAs (Decidable (MutexContract m x.lib i ∧
      (i.releases = some m → (x.tmp x.lib.self).isNone = true)))
  | .load => inferInstanceAs (Decidable (owns m x.lib.self x.lib.trace = true))
  | .store _ => inferInstanceAs (Decidable (owns m x.lib.self x.lib.trace = true))

def initial (v : σ) : Shared σ where
  lib := State.initial
  cell := v
  tmp := fun _ => none
  log := []

/-- The updates, one after the other. -/
def replay (v : σ) (log : List (σ → σ)) : σ := log.foldr (fun update v => update v) v

/-- A thread that has read the variable owns the mutex, and its copy is up to
date. -/
structure Consistent (m : MutexId) (v : σ) (x : Shared σ) : Prop where
  settled : Settled x.lib
  own : OwnInv m x.lib
  copy : ∀ id, ∀ w ∈ x.tmp id, owns m id x.lib.trace = true ∧ w = x.cell
  serial : x.cell = replay v x.log

namespace Consistent

variable {b : Build} {m : MutexId} {v : σ} {x : Shared σ}

theorem unique (h : Consistent m v x) {id id' : Nat} (hid : owns m id x.lib.trace = true)
    (hid' : owns m id' x.lib.trace = true) : id = id' := by
  obtain ⟨o, howned, -, -⟩ := h.own.owner
  exact Option.some.inj ((howned.eq_of_owns hid).symm.trans (howned.eq_of_owns hid'))

/-- A thread with a copy does not release the mutex. -/
theorem not_releases (h : Consistent m v x) {i : Input} (hg : x.Rules m (.lib i)) {id : Nat}
    {w : σ} (hw : w ∈ x.tmp id) : i.releases ≠ some m := by
  intro hi
  have hself := hg.1.2.2.2 hi
  have hnone := hg.2 hi
  rw [h.unique hself (h.copy id w hw).1, Option.mem_def.mp hw] at hnone
  cases hnone

theorem lib_step (h : Consistent m v x) {i : Input} (hg : x.Rules m (.lib i)) {s' : State}
    (hs : UserThreads.step b x.lib i = some s') : Consistent m v { x with lib := s' } := by
  obtain ⟨hsettled, hown⟩ := h.settled.step h.own hg.1.1 hs
    (fun hrun ha => h.own.act h.settled.wellFormed hrun hg.1 ha) fun hwf hI hm => hI.move hwf hm
  refine ⟨hsettled, hown, fun id w hw => ⟨?_, (h.copy id w hw).2⟩, h.serial⟩
  have howns := (h.copy id w hw).1
  exact (h.settled.step (I := fun s => owns m id s.trace = true) howns hg.1.1 hs
    (fun _ ha => h.own.owns_act howns (h.not_releases hg hw) ha)
    fun _ hI hm => ((hm.apart_mutex m).owns_eq id).trans hI).2

theorem load_step (h : Consistent m v x) (hg : x.Rules m .load) :
    Consistent m v { x with tmp := Function.update x.tmp x.lib.self (some x.cell) } := by
  refine ⟨h.settled, h.own, fun id w hw => ?_, h.serial⟩
  dsimp only at hw ⊢
  by_cases hid : id = x.lib.self
  · subst hid
    rw [Function.update_self] at hw
    exact ⟨hg, (Option.some.inj hw).symm⟩
  · rw [Function.update_of_ne hid] at hw
    exact h.copy id w hw

theorem store_step (h : Consistent m v x) {update : σ → σ} (hg : x.Rules m (.store update))
    {w : σ} (hw : w ∈ x.tmp x.lib.self) :
    Consistent m v { x with
      cell := update w
      tmp := Function.update x.tmp x.lib.self none
      log := update :: x.log } := by
  refine ⟨h.settled, h.own, fun id w' hw' => ?_, ?_⟩
  · dsimp only at hw'
    -- Nobody else has a copy, since nobody else owns the mutex.
    by_cases hid : id = x.lib.self
    · subst hid
      rw [Function.update_self] at hw'
      cases hw'
    · rw [Function.update_of_ne hid] at hw'
      exact absurd (h.unique (h.copy id w' hw').1 hg) hid
  · have hcell := (h.copy _ w hw).2
    calc update w = update (replay v x.log) := by rw [hcell, ← h.serial]
      _ = replay v (update :: x.log) := rfl

end Consistent

theorem consistent_initial (m : MutexId) (v : σ) : Consistent m v (initial v) where
  settled := settled_initial
  own := ownInv_initial m
  copy := by simp [initial]
  serial := rfl

theorem Consistent.step {b : Build} {m : MutexId} {v : σ} {x x' : Shared σ} {j : SharedInput σ}
    (h : Consistent m v x) (hg : x.Rules m j) (hs : x.step b j = some x') :
    Consistent m v x' := by
  cases j with
  | lib i =>
      obtain ⟨s', hstep, rfl⟩ := Option.map_eq_some_iff.mp hs
      exact h.lib_step hg hstep
  | load =>
      simp only [Shared.step] at hs
      split at hs
      next =>
        obtain rfl := Option.some.inj hs
        exact h.load_step hg
      next => cases hs
  | store update =>
      simp only [Shared.step] at hs
      split at hs
      next =>
        obtain ⟨w, hw, rfl⟩ := Option.map_eq_some_iff.mp hs
        exact h.store_step hg hw
      next => cases hs

/-- In every run the shared variable is what the updates make of its first value,
one after the other in the order of their writes. -/
theorem serial_of_reach {b : Build} {m : MutexId} {v : σ} {x : Shared σ}
    (h : Reach (step b) (Rules m) (initial v) x) : x.cell = replay v x.log :=
  (h.invariant (consistent_initial m v) fun _ hI hg hs => hI.step hg hs).serial

/-- Thread 1 asks for the mutex while the main thread has read the counter and
not yet written it back. Both increments count. -/
theorem serial_of_reach_counter : ∃ x : Shared Int,
    Reach (step .fifo) (Rules 0) (initial 0) x ∧ x.log.length = 2 ∧ x.cell = 2 ∧
    x.cell = replay 0 x.log := by
  obtain ⟨x, hreach, hlog, hcell⟩ := exists_reach_of_run (step .fifo) (Rules 0) (initial (0 : Int))
    [.lib (.plain (.threadMutexInit (some 0))), .lib (.create 1),
      .lib (.plain (.threadMutexLock (some 0))), .load, .lib (.plain .threadYield), .lib .go,
      .lib (.plain (.threadMutexLock (some 0))), .lib .go, .store (· + 1),
      .lib (.plain (.threadMutexUnlock (some 0))), .lib (.plain .threadYield), .lib .go, .load,
      .store (· + 1), .lib (.plain (.threadMutexUnlock (some 0)))]
    (fun x => x.log.length = 2 ∧ x.cell = 2) (by decide +kernel)
  exact ⟨x, hreach, hlog, hcell, serial_of_reach hreach⟩

end Shared

end UserThreads
