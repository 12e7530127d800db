import UserThreads.Abstract.Joining
import UserThreads.Abstract.Memory

/-!
# The library invariant along a stretch

The three preservation theorems are put together, for moves, for acts, and
for whole stretches.
-/

namespace UserThreads

open Transition

theorem MainOk.congr {init : Bool} {th th' : Thread} (h : MainOk init th) (heq : th' = th) :
    MainOk init th' :=
  heq ▸ h

namespace Inv

variable {s s' : State} {i : Input}

/-- A write that gives no record a head slot or the zombie flag. -/
theorem main_write (h : Inv s) {t : Tid} {a : Thread}
    (hthreads : s'.threads = Function.update s.threads t a)
    (hinit : s'.schedulerInitialized = s.schedulerInitialized)
    (ha : a.headJoiner = (s.threads t).headJoiner)
    (hz : (s.threads t).inZombieQueue = false → a.inZombieQueue = false) :
    MainOk s'.schedulerInitialized (s'.threads mainThread) := by
  obtain ⟨hhead, hzombie⟩ := h.main
  rw [hthreads, hinit]
  by_cases ht : mainThread = t
  · subst t
    rw [Function.update_self]
    exact ⟨fun hfalse => ha.trans (hhead hfalse), hz hzombie⟩
  · rw [Function.update_of_ne ht]
    exact h.main

theorem main_modify (h : Inv s) (t : Tid) (f : Thread → Thread)
    (hf : (f (s.threads t)).headJoiner = (s.threads t).headJoiner)
    (hz : (f (s.threads t)).inZombieQueue = (s.threads t).inZombieQueue) :
    MainOk (s.modifyThread t f).schedulerInitialized ((s.modifyThread t f).threads mainThread) :=
  h.main_write rfl rfl hf (hz ▸ id)

/-- The running thread parks. -/
theorem parkAt (h : Inv s) {q : QueueId} {k : Point} (hrun : s.running.state = .running)
    (hold : s.running.point.Settled) (hk : k.queue = some q) : Inv (s.parkAt q k) where
  sched := h.sched.parkAt hrun hold hk
  join := h.join.parkAt hrun hold hk
  mem := h.mem.parkAt hold hk
  main := h.main_write rfl rfl rfl id
  slots := h.slots

/-- The first waiter of a queue becomes READY. -/
theorem wakeHead (h : Inv s) {q : QueueId} {t : Tid} {rest rq : List Tid}
    (hq : s.waitingQueue q = t :: rest) (hrq : rq.Perm (t :: s.readyQueue)) :
    Inv (s.wakeHead q t rest rq) where
  sched := h.sched.wakeHead hq hrq
  join := h.join.wakeHead h.sched hq
  mem := h.mem.wakeHead
  main := h.main_write rfl rfl rfl id
  slots := h.slots

/-- The running thread blocks on its target. -/
theorem joinAt (h : Inv s) {t : Tid} {slot own : SlotRef} {retval : Bool}
    (hrun : s.running.state = .running) (huser : s.running.point = .user) (ht : t ∈ s.handles)
    (hne : t ≠ s.currentThread) (hfree : (s.threads t).joinedBy = none)
    (hown : s.running.headJoiner = some own) : Inv (s.joinAt t slot retval) where
  sched := h.sched.joinAt hrun hne
  join := h.join.joinAt h.sched.current_mem hrun (by rw [huser]; rfl) ht hne hfree
  mem := h.mem.joinAt huser hne
  main := by
    obtain ⟨hhead, hzombie⟩ := h.main
    by_cases hmc : mainThread = s.currentThread
    · -- A main thread that joins has a head slot already.
      have hinit : s.schedulerInitialized ≠ false := by
        intro hfalse
        rw [State.running, ← hmc, hhead hfalse] at hown
        cases hown
      refine ⟨fun hfalse => absurd hfalse hinit, ?_⟩
      rw [hmc] at hzombie ⊢
      simpa [State.joinAt, State.running] using hzombie
    · by_cases hmt : mainThread = t
      · subst t
        simpa [State.joinAt, hmc, MainOk] using h.main
      · simpa [State.joinAt, hmc, hmt, MainOk] using h.main
  slots := h.slots

/-- An entry of the history changes nothing. -/
theorem emit (h : Inv s) (e : Event) : Inv (s.emit e) where
  sched := h.sched.congr rfl rfl
  join := ⟨h.join.target, h.join.joiner, h.join.blocked⟩
  mem := h.mem.congr rfl (fun _ _ => rfl) fun _ _ => rfl
  main := h.main
  slots := h.slots

theorem setLocked (h : Inv s) (m : MutexId) (v : Int) : Inv (s.setLocked m v) where
  sched := h.sched.congr rfl rfl
  join := ⟨h.join.target, h.join.joiner, h.join.blocked⟩
  mem := h.mem.congr rfl (fun _ _ => rfl) fun _ _ => rfl
  main := h.main
  slots := h.slots

theorem setCount (h : Inv s) (sm : SemId) (v : Int) : Inv (s.setCount sm v) where
  sched := h.sched.congr rfl rfl
  join := ⟨h.join.target, h.join.joiner, h.join.blocked⟩
  mem := h.mem.congr rfl (fun _ _ => rfl) fun _ _ => rfl
  main := h.main
  slots := h.slots

theorem initQueue (h : Inv s) (q : QueueId) : Inv (s.initQueue q) where
  sched := h.sched.initQueue q
  join := ⟨h.join.target, h.join.joiner, h.join.blocked⟩
  mem := h.mem.congr rfl (fun _ _ => rfl) fun _ _ => rfl
  main := h.main
  slots := h.slots

/-- A mutex is released. -/
theorem release (h : Inv s) {m : MutexId} (hr : Release m s s') : Inv s' := by
  cases hr with
  | handOff t rest rq hq hrq => exact (h.emit _).wakeHead hq hrq
  | free hq => exact (h.emit _).setLocked m 0

/-- A mutex is taken, or its taker parks. -/
theorem acquire (h : Inv s) {m : MutexId} {k : Point} (hk : k.queue = some (.mutex m))
    (ha : Acquire m k s s') : Inv s' := by
  cases ha with
  | take hfree => exact (h.setLocked m 1).emit _
  | park hrun hold hvalid hheld hready => exact h.parkAt hrun hold hk
  | fail hfail => exact h

/-- A wake-up leaves the running thread alone. -/
theorem wakeHead_running (h : Inv s) {q : QueueId} {t : Tid} {rest : List Tid}
    (hq : s.waitingQueue q = t :: rest) (hrun : s.running.state = .running) (rq : List Tid) :
    (s.wakeHead q t rest rq).running = s.running := by
  obtain ⟨-, hb, -⟩ := h.sched.of_waiting hq
  have hne : s.currentThread ≠ t := by
    rintro rfl
    rw [State.running, hb] at hrun
    cases hrun
  exact Function.update_of_ne hne _ _

/-- A release leaves the running thread alone. -/
theorem release_running (h : Inv s) {m : MutexId} (hr : Release m s s')
    (hrun : s.running.state = .running) :
    s'.currentThread = s.currentThread ∧ s'.running = s.running := by
  cases hr with
  | handOff t rest rq hq hrq => exact ⟨rfl, (h.emit _).wakeHead_running hq hrun rq⟩
  | free hq => exact ⟨rfl, rfl⟩

/-- Only two moves take a slot. -/
theorem slots_move (h : Inv s) (hm : Move i s s') : s'.SlotsOk := by
  cases hm with
  | mainInit ref count cap index active hinit hslot => exact hslot.2.2.2
  | spawned n r entry rest ref count cap index active rq hrun hk hpool hslot hrq =>
      exact hslot.2.2.2
  | claimed t code stored head sp mp tp hp hrun ht hne hdead hzombie hpoint hstored heq =>
      rw [← heq]
      obtain ⟨head, sp, mp, tp, hp, heq⟩ := State.claim_frame hne hzombie code stored
      exact heq ▸ h.slots
  | stackDeferred t map base deferred ht hdead heq =>
      rw [← heq]
      obtain ⟨map, base, deferred, heq⟩ := deferStackReclaim_frame s t
      exact heq ▸ h.slots
  | zombieLeft t queue heq =>
      rw [← heq]
      obtain ⟨queue, heq⟩ := threadZombieRemove_frame s t
      exact heq ▸ h.slots
  | stackReclaimed e rest pool mappings hd heq =>
      rw [← heq]
      exact stackPoolPush_eq _ _ ▸ h.slots
  | structDropped n r pool heap hrun hk heq =>
      rw [← heq]
      exact threadFree_eq _ _ ▸ h.slots
  | _ => exact h.slots

/-- The main thread gets its slot together with the set-up flag. -/
theorem main_move (h : Inv s) (hm : Move i s s') :
    MainOk s'.schedulerInitialized (s'.threads mainThread) := by
  cases hm with
  | mainInit ref count cap index active hinit hslot =>
      refine ⟨by simp, ?_⟩
      simpa [State.modifyThread] using h.main.2
  | spawned n r entry rest ref count cap index active rq hrun hk hpool hslot hrq =>
      obtain ⟨-, hmain, -⟩ := h.mem.held_fresh h.sched.current_mem (congrArg Point.held hk)
      have hback := h.main_modify s.currentThread (fun th => { th with point := .user }) rfl rfl
      exact hback.congr (Function.update_of_ne hmain.symm _ _)
  | claimed t code stored head sp mp tp hp hrun ht hne hdead hzombie hpoint hstored heq =>
      rw [← heq]
      have hback := h.main_modify s.currentThread
        (fun th => { th with waitingFor := none, point := .user }) rfl rfl
      by_cases hmain : t = mainThread
      · subst t
        rw [State.claim_main]
        exact hback
      · rw [State.claim_eq hmain hne hzombie, claimTarget_eq hmain hzombie]
        exact hback.congr (Function.update_of_ne (Ne.symm hmain) _ _)
  | stackDeferred t map base deferred ht hdead heq =>
      rw [← heq]
      obtain ⟨map, base, deferred, heq⟩ := deferStackReclaim_frame s t
      rw [heq]
      exact h.main_write rfl rfl rfl id
  | zombieAdd t ht hmain hdead hout => exact h.main.congr (Function.update_of_ne hmain.symm _ _)
  | zombieLeft t queue heq =>
      rw [← heq]
      obtain ⟨queue, heq⟩ := threadZombieRemove_frame s t
      rw [heq]
      exact h.main_write rfl rfl rfl fun _ => rfl
  | stackReclaimed e rest pool mappings hd heq =>
      rw [← heq]
      exact stackPoolPush_eq _ _ ▸ h.main
  | structDropped n r pool heap hrun hk heq =>
      rw [← heq]
      rw [threadFree_eq]
      exact h.main_write rfl rfl rfl id
  | scribble n th hdead hmain => exact h.main.congr (Function.update_of_ne hmain.symm _ _)
  | reprioritize f rq hrq => exact h.main
  | _ => first | exact h.main | exact h.main_write rfl rfl rfl id

/-- Every move keeps the invariant. -/
theorem move (h : Inv s) (hm : Move i s s') : Inv s' :=
  ⟨SchedInv.move h hm, JoinInv.move h hm, MemInv.move h hm, h.main_move hm, h.slots_move hm⟩

/-- So does every act on a mutex or a semaphore. -/
theorem act (h : Inv s) (ha : Act i s s') : Inv s' := by
  cases ha with
  | lock m e hi huser ha => exact h.acquire rfl ha
  | unlock m e hi huser hvalid hheld hr => exact h.release hr
  | mutexInit m e hi => exact ((h.setLocked m 0).initQueue _).emit _
  | mutexDestroy m e hi hq => exact (h.setLocked m (-1)).emit _
  | semInit sm v e hi hv => exact ((h.setCount sm v).initQueue _).emit _
  | semDestroy sm e hi hq => exact (h.setCount sm 0).emit _
  | condInit c e hi => exact (h.initQueue _).emit _
  | condWait c m e hi hrun huser hready hr =>
      obtain ⟨-, hsame⟩ := h.release_running hr hrun
      refine (h.release hr).parkAt ?_ ?_ rfl
      · rw [hsame, hrun]
      · rw [hsame, huser]
        exact Point.settled_user
  | condGiveUp c m e hi huser hready hr ha => exact (h.release hr).acquire rfl ha
  | relock c m e hi hk ha hb =>
      have hacquired := h.acquire rfl ha
      exact hb.rule i hacquired fun hm => hacquired.move hm
  | join t slot own retval e hi hrun huser ht hne hlive hfree hslot hown hchain hready =>
      exact h.joinAt hrun huser ht hne hfree hown

/-- So does any number of moves. -/
theorem moves (h : Inv s) (hm : Moves i s s') : Inv s' := by
  induction hm with
  | refl => exact h
  | tail _ hmove ih => exact ih.move hmove

theorem stretch (h : Inv s) (hs : Stretch i s s') : Inv s' := by
  rcases hs with hm | ⟨s₁, ha, hm⟩
  · exact h.moves hm
  · exact (h.act ha).moves hm

end Inv

end UserThreads
