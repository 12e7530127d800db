import UserThreads.History.Identity
import UserThreads.Transition.History

/-!
# The history of a synchronisation object

Mutexes, semaphores and conditions share one history: threads park on them
and are woken from them. Most of what the library does leaves a given object
apart, and then nothing that is read off its history changes. Since its last
set-up, every object wakes threads in the order in which they parked.
-/

namespace UserThreads

open Transition

/-- The object that an entry is about. -/
def Event.queue : Event → Option QueueId
  | .parked q _ => some q
  | .woken q _ => some q
  | .mutexSet m _ => some (.mutex m)
  | .mutexTaken m _ => some (.mutex m)
  | .mutexReleased m _ => some (.mutex m)
  | .semSet sm _ => some (.sem sm)
  | .semTaken sm _ => some (.sem sm)
  | .semPosted sm _ => some (.sem sm)
  | .condSet c => some (.cond c)
  | _ => none

/-- The entry is a set-up of the object. -/
def Event.resets (q : QueueId) : Event → Bool
  | .mutexSet m _ => q = .mutex m
  | .semSet sm _ => q = .sem sm
  | .condSet c => q = .cond c
  | _ => false

def Event.parkedOn (q : QueueId) : Event → Option Nat
  | .parked q' id => if q' = q then some id else none
  | _ => none

def Event.wokenFrom (q : QueueId) : Event → Option Nat
  | .woken q' id => if q' = q then some id else none
  | _ => none

theorem Event.parkedOn_self (q : QueueId) (id : Nat) :
    (Event.parked q id).parkedOn q = some id := if_pos rfl

theorem Event.wokenFrom_self (q : QueueId) (id : Nat) :
    (Event.woken q id).wokenFrom q = some id := if_pos rfl

/-- The history of an object since its last set-up. -/
def State.epoch (s : State) (q : QueueId) : List Event := since (Event.resets q) s.trace

theorem State.epoch_append {s s' : State} {q : QueueId} {l : List Event}
    (htrace : s'.trace = l ++ s.trace) (hnew : ∀ e ∈ l, e.resets q = false) :
    s'.epoch q = l ++ s.epoch q := by
  rw [State.epoch, htrace]
  exact since_append_keep hnew

/-- The ids of the threads that parked on an object, the first one first. -/
def parkedIn (q : QueueId) : List Event → List Nat := order (Event.parkedOn q)

/-- The ids of the threads that were woken from an object, the first one first. -/
def wokenIn (q : QueueId) : List Event → List Nat := order (Event.wokenFrom q)

/-- The ids of the threads that wait on an object. -/
def State.waitingIds (s : State) (q : QueueId) : List Nat :=
  (s.waitingQueue q).map fun t => (s.threads t).id

/-- The integer field of an object. -/
def State.value (s : State) : QueueId → Int
  | .mutex m => s.locked m
  | .sem sm => s.count sm
  | .cond _ => 0

section Foreign

variable {q : QueueId} {e : Event} (h : e.queue ≠ some q)
include h

theorem Event.resets_foreign : e.resets q = false := by
  cases e <;> simp_all [Event.queue, Event.resets, eq_comm]

theorem Event.parkedOn_foreign : e.parkedOn q = none := by
  cases e <;> simp_all [Event.queue, Event.parkedOn]

theorem Event.wokenFrom_foreign : e.wokenFrom q = none := by
  cases e <;> simp_all [Event.queue, Event.wokenFrom]

end Foreign

/-- Nothing happens to the object of `q`. -/
structure Apart (q : QueueId) (s s' : State) : Prop where
  queue : s'.waitingQueue q = s.waitingQueue q
  value : s'.value q = s.value q
  trace : ∃ l, s'.trace = l ++ s.trace ∧ ∀ e ∈ l, e.queue ≠ some q

namespace Apart

variable {q : QueueId} {s s₁ s' : State}

/-- No object is touched, and none is spoken of. -/
theorem quiet (hqueue : s'.waitingQueue = s.waitingQueue) (hlocked : s'.locked = s.locked)
    (hcount : s'.count = s.count) {l : List Event} (htrace : s'.trace = l ++ s.trace)
    (hnew : ∀ e ∈ l, e.queue = none) : Apart q s s' where
  queue := congrFun hqueue q
  value := by
    cases q with
    | mutex m => exact congrFun hlocked m
    | sem sm => exact congrFun hcount sm
    | cond c => rfl
  trace := by
    refine ⟨l, htrace, fun e he => ?_⟩
    rw [hnew e he]
    simp

theorem trans (h₁ : Apart q s s₁) (h₂ : Apart q s₁ s') : Apart q s s' where
  queue := h₂.queue.trans h₁.queue
  value := h₂.value.trans h₁.value
  trace := by
    obtain ⟨new₁, htrace₁, hnew₁⟩ := h₁.trace
    obtain ⟨new₂, htrace₂, hnew₂⟩ := h₂.trace
    refine ⟨new₂ ++ new₁, by rw [htrace₂, htrace₁, List.append_assoc], fun e he => ?_⟩
    rcases List.mem_append.mp he with he | he
    · exact hnew₂ e he
    · exact hnew₁ e he

theorem epoch (h : Apart q s s') :
    ∃ l, s'.epoch q = l ++ s.epoch q ∧ ∀ e ∈ l, e.queue ≠ some q := by
  obtain ⟨l, htrace, hnew⟩ := h.trace
  exact ⟨l, State.epoch_append htrace fun e he => Event.resets_foreign (hnew e he), hnew⟩

variable {q' : QueueId} (hne : q' ≠ q)
include hne

theorem parkAt (k : Point) : Apart q s (s.parkAt q' k) where
  queue := Function.update_of_ne hne.symm _ _
  value := by cases q <;> rfl
  trace := ⟨[_, _], rfl, by simp [Event.queue, hne]⟩

/-- A wake-up from another object, after an entry about that object. -/
theorem wakeHead {t : Tid} {rest rq : List Tid} {l : List Event}
    (hnew : ∀ e ∈ l, e.queue ≠ some q) :
    Apart q s ({ s with trace := l ++ s.trace }.wakeHead q' t rest rq) where
  queue := Function.update_of_ne hne.symm _ _
  value := by cases q <;> rfl
  trace := by
    refine ⟨_ :: _ :: l, rfl, ?_⟩
    simpa [Event.queue, hne] using hnew

theorem initQueue (s : State) : Apart q s (s.initQueue q') where
  queue := Function.update_of_ne hne.symm _ _
  value := by cases q <;> rfl
  trace := ⟨[], rfl, by simp⟩

end Apart

theorem Apart.emit {q : QueueId} (s : State) {e : Event} (he : e.queue ≠ some q) :
    Apart q s (s.emit e) where
  queue := rfl
  value := by cases q <;> rfl
  trace := ⟨[e], rfl, by simpa using he⟩

theorem Apart.setLocked {q : QueueId} (s : State) {m : MutexId} (hne : q ≠ .mutex m) (v : Int) :
    Apart q s (s.setLocked m v) where
  queue := rfl
  value := by
    cases q with
    | mutex m' => exact Function.update_of_ne (fun e => hne (congrArg QueueId.mutex e)) _ _
    | sem sm => rfl
    | cond c => rfl
  trace := ⟨[], rfl, by simp⟩

theorem Apart.setCount {q : QueueId} (s : State) {sm : SemId} (hne : q ≠ .sem sm) (v : Int) :
    Apart q s (s.setCount sm v) where
  queue := rfl
  value := by
    cases q with
    | mutex m => rfl
    | sem sm' => exact Function.update_of_ne (fun e => hne (congrArg QueueId.sem e)) _ _
    | cond c => rfl
  trace := ⟨[], rfl, by simp⟩

/-- The moves on an object. Moves on mutexes there are none. -/
inductive MoveOn : QueueId → State → State → Prop
  | semPark {s : State} (sm : SemId) (hrun : s.running.state = .running)
      (hcount : s.count sm ≤ 0) : MoveOn (.sem sm) s (s.parkAt (.sem sm) (.semWait sm))
  | condWake {s : State} (c : CondId) (t : Tid) (rest rq : List Tid)
      (hq : s.waitingQueue (.cond c) = t :: rest) :
      MoveOn (.cond c) s (s.wakeHead (.cond c) t rest rq)
  | semPostWake {s : State} (sm : SemId) (t : Tid) (rest rq : List Tid)
      (hq : s.waitingQueue (.sem sm) = t :: rest) :
      MoveOn (.sem sm) s ((s.emit (.semPosted sm s.self)).wakeHead (.sem sm) t rest rq)
  | semPostCount {s : State} (sm : SemId) (hq : s.waitingQueue (.sem sm) = []) :
      MoveOn (.sem sm) s ((s.emit (.semPosted sm s.self)).setCount sm (s.count sm + 1))
  | semTake {s : State} (sm : SemId) (hpos : s.count sm > 0) :
      MoveOn (.sem sm) s ((s.setCount sm (s.count sm - 1)).emit (.semTaken sm s.self))

section

variable {i : Input} {s s' : State}

/-- A move leaves the object apart, or is a move on it. -/
theorem Move.apart_or (hm : Move i s s') (q : QueueId) : Apart q s s' ∨ MoveOn q s s' := by
  cases hm with
  | semPark sm hrun huser hcount =>
      by_cases hq : .sem sm = q
      · subst hq
        exact Or.inr (.semPark sm hrun hcount)
      · exact Or.inl (.parkAt hq _)
  | condWake c t rest rq hwait hrq =>
      by_cases hq : .cond c = q
      · subst hq
        exact Or.inr (.condWake c t rest rq hwait)
      · exact Or.inl (.wakeHead hq (l := []) (by simp))
  | semPostWake sm t rest rq hwait hrq =>
      by_cases hq : .sem sm = q
      · subst hq
        exact Or.inr (.semPostWake sm t rest rq hwait)
      · exact Or.inl (.wakeHead hq (l := [.semPosted sm s.self]) (by simp [Event.queue, hq]))
  | semPostCount sm hwait =>
      by_cases hq : .sem sm = q
      · subst hq
        exact Or.inr (.semPostCount sm hwait)
      · exact Or.inl ((Apart.emit s (by simpa [Event.queue] using hq)).trans
          (.setCount _ (Ne.symm hq) _))
  | semTake sm hpos =>
      by_cases hq : .sem sm = q
      · subst hq
        exact Or.inr (.semTake sm hpos)
      · exact Or.inl ((Apart.setCount s (Ne.symm hq) _).trans
          (.emit _ (by simpa [Event.queue] using hq)))
  | _ =>
      first
      | exact Or.inl (.quiet rfl rfl rfl (l := []) rfl (by simp))
      | exact Or.inl (.quiet rfl rfl rfl (l := [_]) rfl (by simp [Event.queue]))
      | exact Or.inl (.quiet rfl rfl rfl (l := [_, _]) rfl (by simp [Event.queue]))

theorem Move.apart_mutex (hm : Move i s s') (m : MutexId) : Apart (.mutex m) s s' := by
  rcases hm.apart_or (.mutex m) with h | h
  · exact h
  · cases h

theorem Release.apart {m : MutexId} {q : QueueId} (hr : Release m s s') (hq : .mutex m ≠ q) :
    Apart q s s' := by
  cases hr with
  | handOff t rest rq hwait hrq =>
      exact .wakeHead hq (l := [.mutexReleased m s.self]) (by simp [Event.queue, hq])
  | free hwait =>
      exact (Apart.emit s (by simpa [Event.queue] using hq)).trans (.setLocked _ hq.symm _)

theorem Acquire.apart {m : MutexId} {k : Point} {q : QueueId} (ha : Acquire m k s s')
    (hq : .mutex m ≠ q) : Apart q s s' := by
  cases ha with
  | take hfree =>
      exact (Apart.setLocked s hq.symm 1).trans (.emit _ (by simpa [Event.queue] using hq))
  | park hrun hold hvalid hheld hready => exact .parkAt hq k
  | fail hfail => exact .quiet rfl rfl rfl (l := []) rfl (by simp)

end

/-- Since the last set-up, the threads that parked are those that were woken,
in the same order, and then those that still wait. -/
def FifoAt (q : QueueId) (s : State) : Prop :=
  parkedIn q (s.epoch q) = wokenIn q (s.epoch q) ++ s.waitingIds q

namespace FifoAt

variable {q : QueueId} {s s' : State}

/-- Nobody parks on the object or is woken from it, and it is not set up. -/
theorem neutral (h : FifoAt q s) (hqueue : s'.waitingQueue q = s.waitingQueue q)
    (hid : ∀ t ∈ s.waitingQueue q, (s'.threads t).id = (s.threads t).id)
    {l : List Event} (htrace : s'.trace = l ++ s.trace)
    (hnew : ∀ e ∈ l, e.resets q = false ∧ e.parkedOn q = none ∧ e.wokenFrom q = none) :
    FifoAt q s' := by
  have hwaiting : s'.waitingIds q = s.waitingIds q := by
    rw [State.waitingIds, hqueue]
    exact List.map_congr_left hid
  rw [FifoAt, State.epoch_append htrace fun e he => (hnew e he).1, parkedIn,
    order_append_none fun e he => (hnew e he).2.1, wokenIn,
    order_append_none fun e he => (hnew e he).2.2, hwaiting]
  exact h

theorem apart (h : FifoAt q s) (ha : Apart q s s')
    (hid : ∀ t ∈ s.waitingQueue q, (s'.threads t).id = (s.threads t).id) : FifoAt q s' := by
  obtain ⟨l, htrace, hnew⟩ := ha.trace
  refine h.neutral ha.queue hid htrace fun e he => ?_
  exact ⟨Event.resets_foreign (hnew e he), Event.parkedOn_foreign (hnew e he),
    Event.wokenFrom_foreign (hnew e he)⟩

theorem park (h : FifoAt q s) (k : Point) : FifoAt q (s.parkAt q k) := by
  have hepoch : (s.parkAt q k).epoch q = .parked q s.self ::
      .stateSet s.self s.running.state .blocked s.running.point none :: s.epoch q := by
    exact State.epoch_append (l := [_, _]) rfl (by simp [Event.resets])
  have hwaiting : (s.parkAt q k).waitingIds q = s.waitingIds q ++ [s.self] := by
    calc (s.parkAt q k).waitingIds q
        = ((s.parkAt q k).waitingQueue q).map fun t => (s.threads t).id :=
          List.map_congr_left fun t _ => proj_update Thread.id (by rfl) t
      _ = s.waitingIds q ++ [s.self] := by simp [State.parkAt, State.waitingIds, State.self]
  rw [FifoAt, hepoch, hwaiting, parkedIn, order_cons_some (Event.parkedOn_self q _),
    order_cons_none rfl, wokenIn, order_cons_none rfl, order_cons_none rfl, ← List.append_assoc]
  exact congrArg (· ++ [s.self]) h

theorem wake (h : FifoAt q s) {t : Tid} {rest : List Tid} (hq : s.waitingQueue q = t :: rest)
    (rq : List Tid) : FifoAt q (s.wakeHead q t rest rq) := by
  have hepoch : (s.wakeHead q t rest rq).epoch q = .stateSet (s.threads t).id (s.threads t).state
      .ready (s.threads t).point (some q.waker) :: .woken q (s.threads t).id :: s.epoch q := by
    exact State.epoch_append (l := [_, _]) rfl (by simp [Event.resets])
  have hwaiting : s.waitingIds q = (s.threads t).id :: (s.wakeHead q t rest rq).waitingIds q := by
    calc s.waitingIds q
        = (s.threads t).id :: ((s.wakeHead q t rest rq).waitingQueue q).map
            fun t => (s.threads t).id := by simp [State.waitingIds, State.wakeHead, hq]
      _ = (s.threads t).id :: (s.wakeHead q t rest rq).waitingIds q := by
          refine congrArg (_ :: ·) (List.map_congr_left fun u _ => ?_)
          exact (proj_update Thread.id (by rfl) u).symm
  rw [FifoAt, hepoch, parkedIn, order_cons_none rfl, order_cons_none rfl, wokenIn,
    order_cons_none rfl, order_cons_some (Event.wokenFrom_self q _), List.append_assoc]
  rw [FifoAt, hwaiting] at h
  exact h

theorem reset {e : Event} {past : List Event} (htrace : s.trace = e :: past)
    (he : e.resets q = true) (hq : s.waitingQueue q = []) : FifoAt q s := by
  rw [FifoAt, State.epoch, htrace, since_cons_reset he, State.waitingIds, hq]
  rfl

variable {i : Input}

theorem move (h : FifoAt q s) (hwf : WellFormed s) (hm : Move i s s') : FifoAt q s' := by
  rcases hm.apart_or q with ha | hon
  · exact h.apart ha fun t ht => hm.id_eq hwf.inv (hwf.inv.sched.of_mem_waiting ht).1
  · cases hon with
    | semPark sm hrun hcount => exact h.park _
    | condWake c t rest rq hq => exact h.wake hq rq
    | semPostWake sm t rest rq hq =>
        have hpost : FifoAt (.sem sm) (s.emit (.semPosted sm s.self)) :=
          h.neutral rfl (fun _ _ => rfl) (l := [_]) rfl
            (by simp [Event.resets, Event.parkedOn, Event.wokenFrom])
        exact hpost.wake hq rq
    | semPostCount sm hq =>
        exact h.neutral rfl (fun _ _ => rfl) (l := [_]) rfl
          (by simp [Event.resets, Event.parkedOn, Event.wokenFrom])
    | semTake sm hpos =>
        exact h.neutral rfl (fun _ _ => rfl) (l := [_]) rfl
          (by simp [Event.resets, Event.parkedOn, Event.wokenFrom])

theorem release (h : FifoAt q s) {m : MutexId} (hr : Release m s s') : FifoAt q s' := by
  by_cases hq : .mutex m = q
  · subst hq
    cases hr with
    | handOff t rest rq hq hrq =>
        have hreleased : FifoAt (.mutex m) (s.emit (.mutexReleased m s.self)) :=
          h.neutral rfl (fun _ _ => rfl) (l := [_]) rfl
            (by simp [Event.resets, Event.parkedOn, Event.wokenFrom])
        exact hreleased.wake hq rq
    | free hq =>
        exact h.neutral rfl (fun _ _ => rfl) (l := [_]) rfl
          (by simp [Event.resets, Event.parkedOn, Event.wokenFrom])
  · exact h.apart (hr.apart hq) fun t _ => hr.id_eq t

theorem acquire (h : FifoAt q s) {m : MutexId} {k : Point} (ha : Acquire m k s s') :
    FifoAt q s' := by
  by_cases hq : .mutex m = q
  · subst hq
    cases ha with
    | take hfree =>
        exact h.neutral rfl (fun _ _ => rfl) (l := [_]) rfl
          (by simp [Event.resets, Event.parkedOn, Event.wokenFrom])
    | park hrun hold hvalid hheld hready => exact h.park k
    | fail hfail => exact h
  · exact h.apart (ha.apart hq) fun t _ => ha.id_eq t

/-- A set-up empties the queue of its object. -/
theorem setUp (h : FifoAt q s) (q' : QueueId) {e : Event} (he : e.resets q' = true)
    (hother : q' ≠ q → Apart q s s') (hqueue : s'.waitingQueue q' = [])
    (hthreads : s'.threads = s.threads) (htrace : s'.trace = e :: s.trace) : FifoAt q s' := by
  by_cases hq : q' = q
  · subst hq
    exact reset htrace he hqueue
  · exact h.apart (hother hq) fun t _ => by rw [hthreads]

theorem act (h : FifoAt q s) (ha : Act i s s') : FifoAt q s' := by
  cases ha with
  | lock m e hi huser ha => exact h.acquire ha
  | unlock m e hi huser hvalid hheld hr => exact h.release hr
  | mutexInit m e hi =>
      refine h.setUp (.mutex m) (by simp [Event.resets]) (fun hne => ?_)
        (Function.update_self _ _ _) rfl rfl
      exact ((Apart.setLocked s hne.symm 0).trans (.initQueue hne _)).trans
        (.emit _ (by simpa [Event.queue] using hne))
  | mutexDestroy m e hi hq =>
      refine h.setUp (.mutex m) (by simp [Event.resets]) (fun hne => ?_) hq rfl rfl
      exact (Apart.setLocked s hne.symm _).trans (.emit _ (by simpa [Event.queue] using hne))
  | semInit sm v e hi hv =>
      refine h.setUp (.sem sm) (by simp [Event.resets]) (fun hne => ?_)
        (Function.update_self _ _ _) rfl rfl
      exact ((Apart.setCount s hne.symm v).trans (.initQueue hne _)).trans
        (.emit _ (by simpa [Event.queue] using hne))
  | semDestroy sm e hi hq =>
      refine h.setUp (.sem sm) (by simp [Event.resets]) (fun hne => ?_) hq rfl rfl
      exact (Apart.setCount s hne.symm _).trans (.emit _ (by simpa [Event.queue] using hne))
  | condInit c e hi =>
      refine h.setUp (.cond c) (by simp [Event.resets]) (fun hne => ?_)
        (Function.update_self _ _ _) rfl rfl
      exact (Apart.initQueue hne s).trans (.emit _ (by simpa [Event.queue] using hne))
  | condWait c m e hi hrun huser hready hr =>
      have hreleased := h.release hr
      by_cases hq : .cond c = q
      · subst hq
        exact hreleased.park _
      · exact hreleased.apart (.parkAt hq _) fun t _ => proj_update Thread.id (by rfl) t
  | condGiveUp c m e hi huser hready hr ha => exact (h.release hr).acquire ha
  | relock c m e hi hk ha hb =>
      have hacquired := h.acquire ha
      cases hb with
      | user hrun hk =>
          exact hacquired.apart (.quiet rfl rfl rfl (l := []) rfl (by simp))
            fun t _ => proj_update Thread.id (by rfl) t
      | switched hrun => exact hacquired
  | join t slot own retval e hi hrun huser ht hne hlive hfree hslot hown hchain hready =>
      exact h.apart (.quiet rfl rfl rfl (l := [_]) rfl (by simp [Event.queue]))
        fun u _ => joinAt_proj Thread.id hne (by rfl) (by rfl) u

end FifoAt

/-- In every regular run, every object wakes threads in the order in which
they parked on it. -/
theorem RegularReach.fifo {b : Build} {s : State} (h : RegularReach b s) (q : QueueId) :
    FifoAt q s :=
  (Settled.reach h (fun _ _ hg => hg) settled_initial (I := FifoAt q) rfl
    (fun _ _ hI _ ha => hI.act ha) fun hwf hI hm => hI.move hwf hm).2

end UserThreads
