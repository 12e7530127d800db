import UserThreads.Abstract.Invariant

/-!
# Every move keeps the queues in order

First what happens to one record, then what happens to the queues.
-/

namespace UserThreads

open Transition

theorem Point.of_queue {k : Point} {q : QueueId} (h : k.queue = some q) :
    k.sigset = none ∧ k.target = none ∧ k.held = none ∧ k ≠ .user := by
  cases k <;> simp_all [Point.queue, Point.sigset, Point.target, Point.held]

theorem Point.of_target {k : Point} {t : Tid} (h : k.target = some t) :
    k.sigset = none ∧ k.queue = none ∧ k.held = none ∧ k ≠ .user := by
  cases k <;> simp_all [Point.queue, Point.sigset, Point.target, Point.held]

theorem Point.of_sigset {k : Point} (h : k.sigset.isSome) :
    k.queue = none ∧ k.target = none ∧ k.held = none ∧ k ≠ .user := by
  cases k <;> simp_all [Point.queue, Point.sigset, Point.target, Point.held]

theorem Point.settled_user : Point.user.Settled := ⟨rfl, rfl⟩

namespace ThreadOk

variable {th : Thread}

/-- A waiter may be made READY. -/
theorem ready_of_queue {q : QueueId} (ok : ThreadOk th) (hb : th.state = .blocked)
    (hq : th.point.queue = some q) :
    ThreadOk { th with state := .ready, inReadyQueue := true } := by
  obtain ⟨hsig, htar, -, huser⟩ := Point.of_queue hq
  cases ok
  constructor <;> simp_all

/-- A joiner may be made READY. -/
theorem ready_of_target {t : Tid} (ok : ThreadOk th) (hb : th.state = .blocked)
    (ht : th.point.target = some t) :
    ThreadOk { th with state := .ready, inReadyQueue := true } := by
  obtain ⟨hsig, hq, -, huser⟩ := Point.of_target ht
  cases ok
  constructor <;> simp_all

/-- A thread in `thread_sigwait` may be made READY. -/
theorem ready_of_signal (ok : ThreadOk th) (hb : th.state = .blocked)
    (hw : th.waitingForSignal = true) (pending : BitVec 32) :
    ThreadOk { th with
      pendingSignals := pending
      waitingForSignal := false
      waitedSignals := 0
      state := .ready
      inReadyQueue := true } := by
  obtain ⟨-, -, -, huser⟩ := Point.of_sigset (ok.signal.mp hw).2
  cases ok
  constructor <;> simp_all

theorem park {q : QueueId} {k : Point} (ok : ThreadOk th) (hrun : th.state = .running)
    (hold : th.point.Settled) (hk : k.queue = some q) :
    ThreadOk { th with state := .blocked, point := k } := by
  obtain ⟨hsig, htar, -, -⟩ := Point.of_queue hk
  obtain ⟨hold, -⟩ := hold
  cases ok
  constructor <;> simp_all [Point.Blocking]

theorem joinAt (ok : ThreadOk th) (hrun : th.state = .running) (t : Tid) (retval : Bool)
    (slot : Option SlotRef) :
    ThreadOk { th with
      headJoiner := slot
      state := .blocked
      waitingFor := some t
      point := .join t retval } := by
  cases ok
  constructor <;> simp_all [Point.Blocking, Point.target, Point.sigset]

theorem sigwaitAt (ok : ThreadOk th) (hrun : th.state = .running) (hold : th.point.Settled)
    {set : BitVec 32} (hpending : th.pendingSignals &&& set = 0) :
    ThreadOk { th with
      waitingForSignal := true
      waitedSignals := set
      state := .blocked
      point := .sigwait set } := by
  obtain ⟨htar, -⟩ := hold
  cases ok
  constructor <;> simp_all [Point.Blocking, Point.target, Point.sigset]

/-- A running thread may be made READY. -/
theorem yieldAt (ok : ThreadOk th) (hrun : th.state = .running) {k : Point}
    (hold : k.target = th.point.target) (huser : k ≠ .user) :
    ThreadOk { th with state := .ready, inReadyQueue := true, point := k } := by
  cases ok
  constructor <;> simp_all

/-- A READY thread may be made RUNNING. -/
theorem dispatch (ok : ThreadOk th) (hready : th.state = .ready) :
    ThreadOk { th with state := .running, inReadyQueue := false } := by
  cases ok
  constructor <;> simp_all

theorem terminate (ok : ThreadOk th) (hrun : th.state = .running) (huser : th.point = .user)
    (v : Value) : ThreadOk { th with retval := v, state := .terminated } := by
  cases ok
  constructor <;> simp_all

/-- A running thread may move between points outside `thread_join`. -/
theorem setPoint (ok : ThreadOk th) (hrun : th.state = .running) {k : Point}
    (hold : th.point.target = none) (hk : k.target = none) :
    ThreadOk { th with point := k } := by
  cases ok
  constructor <;> simp_all

theorem leaveJoin (ok : ThreadOk th) (hrun : th.state = .running) :
    ThreadOk { th with waitingFor := none, point := .user } := by
  cases ok
  constructor <;> simp_all [Point.target, Point.sigset]

theorem fresh (entry : StackEntry) (ref : Option SlotRef) (id : Nat) :
    ThreadOk { th.fresh entry with
      inReadyQueue := true
      headJoiner := ref
      point := .entry
      id := id } := by
  constructor <;> simp [Thread.fresh, Point.target, Point.sigset]

/-- A record that does not wait for a signal may receive one. -/
theorem receive (ok : ThreadOk th) {bits : BitVec 32}
    (hno : ¬ (th.state = .blocked ∧ th.waitingForSignal = true ∧ th.waitedSignals &&& bits ≠ 0)) :
    ThreadOk { th with pendingSignals := th.pendingSignals ||| bits } := by
  refine ⟨ok.flag, ok.zombie, ok.waiting, ok.blocking, ok.suspended, ok.dead, ok.unmasked,
    ok.signal, ?_, ok.idle⟩
  intro set hset hw
  obtain ⟨hwaited, hpending⟩ := ok.waited set hset hw
  have hbits : set &&& bits = 0 := by
    by_contra hne
    exact hno ⟨(ok.signal.mp hw).1, hw, by rwa [hwaited]⟩
  refine ⟨hwaited, ?_⟩
  change (th.pendingSignals ||| bits) &&& set = 0
  rw [BitVec.and_comm, BitVec.and_or_distrib_left, BitVec.and_comm set, hpending, hbits]
  rfl

theorem setJoinedBy (ok : ThreadOk th) (j : Option Tid) : ThreadOk { th with joinedBy := j } := by
  cases ok
  constructor <;> assumption

theorem setHead (ok : ThreadOk th) (ref : Option SlotRef) :
    ThreadOk { th with headJoiner := ref } := by
  cases ok
  constructor <;> assumption

theorem setOverflow (ok : ThreadOk th) : ThreadOk { th with stackOverflow := true } := by
  cases ok
  constructor <;> assumption

theorem setStack (ok : ThreadOk th) (map : Option Addr) (base : Addr) :
    ThreadOk { th with stackMap := map, stackBase := base } := by
  cases ok
  constructor <;> assumption

theorem consume (ok : ThreadOk th) (hrun : th.state = .running) (pending : BitVec 32) :
    ThreadOk { th with pendingSignals := pending } := by
  cases ok
  constructor <;> simp_all

end ThreadOk

namespace SchedInv

variable {s : State}

/-- The invariant reads the queues and the records. -/
theorem congr {s' : State} (h : SchedInv s) (hqueues : s'.queues = s.queues)
    (hthreads : s'.threads = s.threads) : SchedInv s' := by
  simp only [State.queues, Prod.mk.injEq] at hqueues
  obtain ⟨hhandles, hcur, hready, hzombie, hwait, hlost⟩ := hqueues
  constructor
  · exact hhandles ▸ h.handles_nodup
  · exact hhandles ▸ hcur ▸ h.current_mem
  · exact hhandles ▸ hready ▸ hthreads ▸ h.ready
  · exact hhandles ▸ hzombie ▸ hthreads ▸ h.zombie
  · exact hhandles ▸ hwait ▸ hlost ▸ hthreads ▸ h.wait
  · exact hhandles ▸ hcur ▸ hthreads ▸ h.running
  · exact hhandles ▸ hthreads ▸ h.threads_ok

/-- Only the processor's owner is `RUNNING` after a write of another state. -/
theorem running_update (h : SchedInv s) {t : Tid} {a : Thread} (ha : a.state ≠ .running) :
    ∀ u ∈ s.handles, (Function.update s.threads t a u).state = .running → u = s.currentThread :=
  forall_update (P := fun u (th : Thread) => th.state = .running → u = s.currentThread) h.running
    fun _ hrun => absurd hrun ha

/-- Any record write that leaves the state and the queue memberships alone. -/
theorem write (h : SchedInv s) {t : Tid} {a : Thread} (hok : t ∈ s.handles → ThreadOk a)
    (hstate : a.state = (s.threads t).state)
    (hq : a.state = .blocked → a.point.queue = (s.threads t).point.queue)
    (hz : a.inZombieQueue = (s.threads t).inZombieQueue) :
    SchedInv { s with threads := Function.update s.threads t a } := by
  refine ⟨h.handles_nodup, h.current_mem, h.ready.update (by rw [hstate]),
    h.zombie.update (by rw [hz]), fun q => (h.wait q).update ?_, ?_,
    forall_update h.threads_ok hok⟩
  · constructor
    · rintro ⟨hb, hk⟩
      exact ⟨hstate ▸ hb, (hq hb) ▸ hk⟩
    · rintro ⟨hb, hk⟩
      have ha : a.state = .blocked := hstate.trans hb
      exact ⟨ha, (hq ha).trans hk⟩
  · intro u hu hrun
    exact h.running u hu ((proj_update Thread.state hstate u).symm.trans hrun)

/-- The running thread may move between points outside `thread_join`. -/
theorem setPoint (h : SchedInv s) {k : Point} (hrun : s.running.state = .running)
    (hold : s.running.point.target = none) (hk : k.target = none) :
    SchedInv (s.setPoint s.currentThread k) := by
  have hr : (s.threads s.currentThread).state = .running := hrun
  exact h.write (fun _ => (h.threads_ok _ h.current_mem).setPoint hrun hold hk) rfl (by simp [hr])
    rfl

/-- Writes to structs that are no threads are invisible. -/
theorem scribble (h : SchedInv s) {n : Tid} (hn : n ∉ s.handles) (a : Thread) :
    SchedInv { s with threads := Function.update s.threads n a } :=
  ⟨h.handles_nodup, h.current_mem, h.ready.update_dead hn, h.zombie.update_dead hn,
    fun q => (h.wait q).update_dead hn,
    forall_update (P := fun u (th : Thread) => th.state = .running → u = s.currentThread) h.running
      fun hmem => absurd hmem hn,
    forall_update h.threads_ok fun hmem => absurd hmem hn⟩

/-- A waiting thread is live, blocked and at a point of its queue. -/
theorem of_mem_waiting (h : SchedInv s) {q : QueueId} {t : Tid} (ht : t ∈ s.waitingQueue q) :
    t ∈ s.handles ∧ (s.threads t).state = .blocked ∧ (s.threads t).point.queue = some q :=
  ((h.wait q).mem_iff t).mp (List.mem_append_left _ ht)

theorem of_waiting (h : SchedInv s) {q : QueueId} {t : Tid} {rest : List Tid}
    (hq : s.waitingQueue q = t :: rest) :
    t ∈ s.handles ∧ (s.threads t).state = .blocked ∧ (s.threads t).point.queue = some q :=
  h.of_mem_waiting (by simp [hq])

/-- The first waiter of a queue moves to the ready queue. -/
theorem wakeHead (h : SchedInv s) {q : QueueId} {t : Tid} {rest rq : List Tid}
    (hq : s.waitingQueue q = t :: rest) (hrq : rq.Perm (t :: s.readyQueue)) :
    SchedInv (s.wakeHead q t rest rq) := by
  obtain ⟨hl, hb, hk⟩ := h.of_waiting hq
  refine ⟨h.handles_nodup, h.current_mem, ?_, h.zombie.update Iff.rfl, fun q' => ?_,
    h.running_update (by simp),
    forall_update h.threads_ok fun _ => (h.threads_ok t hl).ready_of_queue hb hk⟩
  · exact h.ready.update_enter hl (by simp [hb]) rfl hrq
  · by_cases hqq : q' = q
    · subst q'
      have hp : (t :: (rest ++ s.lost q)).Perm (s.waitingQueue q ++ s.lost q) := by
        rw [hq, List.cons_append]
      have hleave := (h.wait q).update_leave
        (a := { s.threads t with state := .ready, inReadyQueue := true }) (by simp) hp
      simpa [State.wakeHead] using hleave
    · have hsame := (h.wait q').update (t := t)
        (a := { s.threads t with state := .ready, inReadyQueue := true })
        (by simp [hk, Ne.symm hqq])
      simpa [State.wakeHead, hqq] using hsame

/-- The running thread moves to a wait queue. -/
theorem parkAt (h : SchedInv s) {q : QueueId} {k : Point} (hrun : s.running.state = .running)
    (hold : s.running.point.Settled) (hk : k.queue = some q) : SchedInv (s.parkAt q k) := by
  have hcur := h.threads_ok _ h.current_mem
  have hr : (s.threads s.currentThread).state = .running := hrun
  refine ⟨h.handles_nodup, h.current_mem, h.ready.update (by simp [hr]),
    h.zombie.update Iff.rfl, fun q' => ?_, h.running_update (by simp),
    forall_update h.threads_ok fun _ => hcur.park hrun hold hk⟩
  by_cases hqq : q' = q
  · subst q'
    have henter := (h.wait q).update_enter h.current_mem
      (a := { s.running with state := .blocked, point := k }) (by simp [hr]) (by simp [hk])
      ((List.perm_append_singleton s.currentThread (s.waitingQueue q)).append_right (s.lost q))
    simpa [State.parkAt] using henter
  · have hsame := (h.wait q').update (t := s.currentThread)
      (a := { s.running with state := .blocked, point := k }) (by simp [hr, hk, Ne.symm hqq])
    simpa [State.parkAt, hqq] using hsame

theorem yieldAt (h : SchedInv s) {k : Point} {rq : List Tid} (hrun : s.running.state = .running)
    (hold : k = s.running.point ∨ s.running.point.Settled ∧ ∃ c, k = .yielded c)
    (huser : k ≠ .user) (hrq : rq.Perm (s.currentThread :: s.readyQueue)) :
    SchedInv (s.yieldAt k rq) := by
  have hcur := h.threads_ok _ h.current_mem
  have hr : (s.threads s.currentThread).state = .running := hrun
  have hk : k.target = s.running.point.target := by
    rcases hold with rfl | ⟨⟨ht, -⟩, c, rfl⟩
    · rfl
    · rw [ht]
      rfl
  refine ⟨h.handles_nodup, h.current_mem, ?_, h.zombie.update Iff.rfl, fun q' => ?_,
    h.running_update (by simp), forall_update h.threads_ok fun _ => hcur.yieldAt hrun hk huser⟩
  · exact h.ready.update_enter h.current_mem (by simp [hr]) rfl hrq
  · exact (h.wait q').update (by simp [hr])

theorem dispatch (h : SchedInv s) {next : Tid} {rq : List Tid}
    (hrun : s.running.state ≠ .running) (hrq : (next :: rq).Perm s.readyQueue) :
    SchedInv (s.dispatch next rq) := by
  obtain ⟨hl, hready⟩ := (h.ready.mem_iff next).mp (hrq.mem_iff.mp (by simp))
  refine ⟨h.handles_nodup, hl, h.ready.update_leave (by simp) hrq, h.zombie.update Iff.rfl,
    fun q => (h.wait q).update (by simp [hready]), ?_,
    forall_update h.threads_ok fun _ => (h.threads_ok next hl).dispatch hready⟩
  refine forall_update (P := fun u (th : Thread) => th.state = .running → u = next) ?_
    fun _ _ => rfl
  intro u hu hur
  obtain rfl := h.running u hu hur
  exact absurd hur hrun

/-- The running thread leaves the processor without entering a queue. -/
theorem leave (h : SchedInv s) {a : Thread} (hok : ThreadOk a)
    (hrun : s.running.state = .running)
    (hstate : a.state = .terminated ∨ a.state = .blocked ∧ a.point.queue = none)
    (hz : a.inZombieQueue = s.running.inZombieQueue) :
    SchedInv { s with threads := Function.update s.threads s.currentThread a } := by
  have hr : (s.threads s.currentThread).state = .running := hrun
  have hready : a.state ≠ .ready ∧ a.state ≠ .running := by
    rcases hstate with ha | ⟨ha, -⟩ <;> simp [ha]
  refine ⟨h.handles_nodup, h.current_mem, h.ready.update (by simp [hr, hready.1]),
    h.zombie.update (by rw [hz]; rfl), fun q => (h.wait q).update ?_,
    h.running_update hready.2, forall_update h.threads_ok fun _ => hok⟩
  rcases hstate with ha | ⟨ha, hq⟩
  · simp [hr, ha]
  · simp [hr, hq]

/-- A thread blocked outside the wait queues becomes ready. -/
theorem wake (h : SchedInv s) {t : Tid} {a : Thread} {rq : List Tid} (hok : ThreadOk a)
    (hl : t ∈ s.handles) (hb : (s.threads t).state = .blocked)
    (hq : (s.threads t).point.queue = none) (hstate : a.state = .ready)
    (hz : a.inZombieQueue = (s.threads t).inZombieQueue)
    (hrq : rq.Perm (t :: s.readyQueue)) :
    SchedInv { s with threads := Function.update s.threads t a, readyQueue := rq } := by
  refine ⟨h.handles_nodup, h.current_mem, ?_, h.zombie.update (by rw [hz]), fun q => ?_,
    h.running_update (by simp [hstate]), forall_update h.threads_ok fun _ => hok⟩
  · exact h.ready.update_enter hl (by simp [hb]) hstate hrq
  · exact (h.wait q).update (by simp [hstate, hq])

/-- A terminated thread enters the zombie queue. -/
theorem zombieAdd (h : SchedInv s) {t : Tid} (ht : t ∈ s.handles)
    (hdead : (s.threads t).state = .terminated) (hout : (s.threads t).inZombieQueue = false) :
    SchedInv (threadZombieAdd s t) := by
  have hok : ThreadOk { s.threads t with inZombieQueue := true } := by
    cases h.threads_ok t ht
    constructor <;> simp_all
  refine ⟨h.handles_nodup, h.current_mem, h.ready.update Iff.rfl, ?_,
    fun q => (h.wait q).update Iff.rfl, h.running_update (by simp [hdead]),
    forall_update h.threads_ok fun _ => hok⟩
  exact h.zombie.update_enter ht (by simp [hout]) rfl (List.perm_append_singleton _ _)

theorem zombieRemove (h : SchedInv s) (t : Tid) : SchedInv (threadZombieRemove s t) := by
  unfold threadZombieRemove
  split
  next hz =>
    by_cases ht : t ∈ s.handles
    · have hdead := (h.threads_ok t ht).zombie hz
      have hok : ThreadOk { s.threads t with inZombieQueue := false } := by
        cases h.threads_ok t ht
        constructor <;> simp_all
      refine ⟨h.handles_nodup, h.current_mem, h.ready.update Iff.rfl, ?_,
        fun q => (h.wait q).update Iff.rfl, h.running_update (by simp [hdead]),
        forall_update h.threads_ok fun _ => hok⟩
      exact h.zombie.update_leave (by simp)
        (List.perm_cons_erase ((h.zombie.mem_iff t).mpr ⟨ht, hz⟩)).symm
    · have hnot : t ∉ s.zombieQueue := fun hm => ht ((h.zombie.mem_iff t).mp hm).1
      rw [List.erase_of_not_mem hnot]
      exact h.scribble ht _
  next => exact h

/-- A joined thread leaves the library. -/
theorem claim (h : SchedInv s) {t : Tid} {code : Int} {stored : Option Value}
    (hrun : s.running.state = .running) (hne : t ≠ s.currentThread)
    (hdead : (s.threads t).state = .terminated)
    (hzombie : (s.threads t).inZombieQueue = false) : SchedInv (s.claim t code stored) := by
  have hr : (s.threads s.currentThread).state = .running := hrun
  have hout : SchedInv { s with handles := s.handles.erase t } := by
    refine ⟨h.handles_nodup.erase t, ?_, h.ready.erase_live h.handles_nodup (by simp [hdead]),
      h.zombie.erase_live h.handles_nodup (by simp [hzombie]),
      fun q => (h.wait q).erase_live h.handles_nodup (by simp [hdead]), ?_, ?_⟩
    · exact (List.mem_erase_of_ne (Ne.symm hne)).mpr h.current_mem
    · exact fun u hu => h.running u (List.mem_of_mem_erase hu)
    · exact fun u hu => h.threads_ok u (List.mem_of_mem_erase hu)
  have hback := hout.write (t := s.currentThread)
    (fun _ => (h.threads_ok _ h.current_mem).leaveJoin hr) rfl (by simp [hr]) rfl
  by_cases hmain : t = mainThread
  · subst t
    apply hback.congr <;> simp [State.claim_main, State.running, State.queues]
  · have hdrop := hback.scribble (n := t) h.handles_nodup.not_mem_erase
      { s.threads t with headJoiner := none }
    apply hdrop.congr <;>
      simp [State.claim_eq hmain hne hzombie, claimTarget_eq hmain hzombie, State.running,
        State.queues]

/-- A new thread enters the ready queue. -/
theorem spawn (h : SchedInv s) {n : Tid} (entry : StackEntry) (rest : List StackEntry)
    (ref : SlotRef) {rq : List Tid} (hrun : s.running.state = .running)
    (hold : s.running.point.target = none) (hn : n ∉ s.handles)
    (hrq : rq.Perm (n :: s.readyQueue)) : SchedInv (s.spawn n entry rest ref rq) := by
  have hr : (s.threads s.currentThread).state = .running := hrun
  have hback := h.write (t := s.currentThread)
    (fun _ => (h.threads_ok _ h.current_mem).setPoint (k := .user) hr hold rfl) rfl
    (by simp [hr]) rfl
  have hnew := hback.scribble hn
    { (s.threads n).fresh entry with
      inReadyQueue := true
      headJoiner := some ref
      point := .entry
      id := s.nextThreadId }
  refine ⟨List.nodup_cons.mpr ⟨hn, h.handles_nodup⟩, List.mem_cons_of_mem _ h.current_mem, ?_, ?_,
    fun q => ?_, ?_, ?_⟩
  · exact hnew.ready.cons_live_enter hn (by simp [Thread.fresh]) hrq
  · exact hnew.zombie.cons_live_out (by simp [Thread.fresh])
  · exact (hnew.wait q).cons_live_out (by simp [Thread.fresh])
  · intro u hu
    rcases List.mem_cons.mp hu with rfl | hu
    · simp [State.spawn, Thread.fresh]
    · exact hnew.running u hu
  · intro u hu
    rcases List.mem_cons.mp hu with rfl | hu
    · simpa [State.spawn] using ThreadOk.fresh entry (some ref) s.nextThreadId
    · exact hnew.threads_ok u hu

/-- A thread that is forgotten by its queue stays blocked. -/
theorem initQueue (h : SchedInv s) (q : QueueId) : SchedInv (s.initQueue q) := by
  refine ⟨h.handles_nodup, h.current_mem, h.ready, h.zombie, fun q' => ?_, h.running,
    h.threads_ok⟩
  by_cases hq : q' = q
  · subst q'
    have hp : (s.lost q ++ s.waitingQueue q).Perm (s.waitingQueue q ++ s.lost q) :=
      List.perm_append_comm
    simpa [State.initQueue] using (h.wait q).perm hp
  · simpa [State.initQueue, hq] using h.wait q'

theorem joinAt (h : SchedInv s) {t : Tid} {slot : SlotRef} {retval : Bool}
    (hrun : s.running.state = .running) (hne : t ≠ s.currentThread) :
    SchedInv (s.joinAt t slot retval) := by
  have hcur := h.threads_ok _ h.current_mem
  have hjoined := h.write (t := t)
    (fun ht => (h.threads_ok t ht).setJoinedBy (some s.currentThread)) rfl (fun _ => rfl) rfl
  refine (hjoined.leave (hcur.joinAt hrun t retval (some slot)) ?_ (Or.inr ⟨rfl, rfl⟩) ?_).congr
    rfl rfl
  · simpa [State.running, hne.symm] using hrun
  · simp [State.running, hne.symm]

/-- Every move keeps the queues in order. -/
theorem move {s' : State} {i : Input} (inv : Inv s) (hm : Move i s s') : SchedInv s' := by
  have h := inv.sched
  have hcur := h.threads_ok _ h.current_mem
  cases hm with
  | errno e => exact h.congr rfl rfl
  | returned c code => exact h.congr rfl rfl
  | restate hrun => exact h.congr rfl rfl
  | sigwaitGiveUp hrun => exact h.congr rfl rfl
  | semTake sm hpos => exact h.congr rfl rfl
  | semPostCount sm hq => exact h.congr rfl rfl
  | endProcess => exact h.congr rfl rfl
  | mapStack e hpool hfresh => exact h.congr rfl rfl
  | stackReclaimed e rest pool mappings hd heq =>
      rw [← heq]
      rw [stackPoolPush_eq]
      exact h.congr rfl rfl
  | toUser hrun hk => exact h.setPoint hrun hk.1 rfl
  | reprioritize f rq hrq =>
      refine ⟨h.handles_nodup, h.current_mem, (h.ready.perm hrq).congr fun _ _ => Iff.rfl,
        h.zombie.congr fun _ _ => Iff.rfl, fun q => (h.wait q).congr fun _ _ => Iff.rfl,
        h.running, fun t ht => ?_⟩
      cases h.threads_ok t ht
      constructor <;> assumption
  | semPark sm hrun huser hcount =>
      exact h.parkAt hrun (by rw [huser]; exact Point.settled_user) rfl
  | yieldAt k rq hrun hold huser hrq => exact h.yieldAt hrun hold huser hrq
  | dispatch next rq hrun hrq => exact h.dispatch hrun hrq
  | condWake c t rest rq hq hrq => exact h.wakeHead hq hrq
  | semPostWake sm t rest rq hq hrq =>
      have hpost : SchedInv (s.emit (.semPosted sm s.self)) := h.congr rfl rfl
      exact hpost.wakeHead hq hrq
  | claimed t code stored head sp mp tp hp hrun ht hne hdead hzombie hpoint hstored heq =>
      rw [← heq]
      exact h.claim hrun hne hdead hzombie
  | terminate v hrun huser =>
      exact (h.leave (hcur.terminate hrun huser v) hrun (Or.inl rfl) rfl).congr rfl rfl
  | overflow hrun => exact h.write (fun _ => hcur.setOverflow) rfl (fun _ => rfl) rfl
  | stackDeferred t map base deferred ht hdead heq =>
      rw [← heq]
      unfold deferStackReclaim
      split
      · exact h
      · split
        · exact (h.write (fun ht => (h.threads_ok t ht).setStack none 0) rfl (fun _ => rfl)
            rfl).congr rfl rfl
        · exact h
  | zombieAdd t ht hmain hdead hout => exact h.zombieAdd ht hdead hout
  | zombieLeft t queue heq =>
      rw [← heq]
      exact h.zombieRemove t
  | wakeJoiner d j rq hd hdead hj hblocked hrq =>
      obtain ⟨hl, htar⟩ := inv.join.joiner d hd j hj
      obtain ⟨-, hq, -, -⟩ := Point.of_target htar
      exact (h.wake ((h.threads_ok j hl).ready_of_target hblocked htar) hl hblocked hq rfl rfl
        hrq).congr rfl rfl
  | sigwaitAt set hrun hold hpending =>
      exact (h.leave (hcur.sigwaitAt hrun hold hpending) hrun (Or.inr ⟨rfl, rfl⟩) rfl).congr rfl rfl
  | signalSend t sig hsig ht hno =>
      have hwritten := h.write (fun ht => (h.threads_ok t ht).receive hno) rfl (fun _ => rfl) rfl
      exact hwritten.congr rfl rfl
  | signalWake t sig rq hsig ht hblocked hwait hset hrq =>
      have hok := h.threads_ok t ht
      obtain ⟨hq, -, -, -⟩ := Point.of_sigset (hok.signal.mp hwait).2
      exact (h.wake (hok.ready_of_signal hblocked hwait _) ht hblocked hq rfl rfl hrq).congr rfl rfl
  | signalConsume set sig hrun hsig hpos =>
      have hok := hcur.consume hrun (s.running.pendingSignals &&& ~~~threadSignalBit sig)
      exact (h.write (fun _ => hok) rfl (fun _ => rfl) rfl).congr rfl rfl
  | mainInit ref count cap index active hinit hslot =>
      exact (h.write (fun hl => (h.threads_ok mainThread hl).setHead (some ref)) rfl (fun _ => rfl)
        rfl).congr rfl rfl
  | takeStruct n rest hrun huser hpool =>
      exact (h.setPoint (k := .create n 0) hrun (by simp [huser, Point.target]) rfl).congr rfl rfl
  | mallocStruct n hrun huser hmain hfresh =>
      exact (h.setPoint (k := .create n 0) hrun (by simp [huser, Point.target]) rfl).congr rfl rfl
  | retry n r r' hrun hk =>
      exact h.setPoint (k := .create n r') hrun (by simp [hk, Point.target]) rfl
  | scribble n th hdead hmain => exact h.scribble hdead th
  | structDropped n r pool heap hrun hk heq =>
      rw [← heq]
      rw [threadFree_eq]
      exact (h.setPoint (k := .user) hrun (by simp [hk, Point.target]) rfl).congr rfl rfl
  | spawned n r entry rest ref count cap index active rq hrun hk hpool hslot hrq =>
      have hheld : (s.threads s.currentThread).point.held = some n := congrArg Point.held hk
      exact (h.spawn entry rest ref hrun (congrArg Point.target hk)
        (inv.mem.held_fresh h.current_mem hheld).1 hrq).congr rfl rfl

end SchedInv

end UserThreads
