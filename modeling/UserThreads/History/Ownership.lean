import UserThreads.History.Queues

/-!
# Who owns a mutex

A mutex has no owner field. A thread owns it from the entry that gives it the
mutex, by the fast path or by a hand-over, to the entry of its release; at any
time the history names at most one owner, provided that only the owner
releases.
-/

namespace UserThreads

open Transition

/-- What an entry says about the ownership of `m` by the thread `id`. -/
def ownVerdict (m : MutexId) (id : Nat) : Event → Option Bool
  | .mutexTaken m' id' => if m' = m ∧ id' = id then some true else none
  | .woken q id' => if q = .mutex m ∧ id' = id then some true else none
  | .mutexReleased m' id' => if m' = m ∧ id' = id then some false else none
  | _ => none

/-- The thread `id` owns the mutex `m`, as the history has it. -/
def owns (m : MutexId) (id : Nat) (hist : List Event) : Bool := latest (ownVerdict m id) false hist

/-- The owner, if there is one. -/
def OwnedBy (m : MutexId) (hist : List Event) (owner : Option Nat) : Prop :=
  ∀ id, owns m id hist = true ↔ owner = some id

theorem ownVerdict_foreign {m : MutexId} {e : Event} (h : e.queue ≠ some (.mutex m)) (id : Nat) :
    ownVerdict m id e = none := by
  cases e <;> simp_all [Event.queue, ownVerdict]

theorem owns_foreign {m : MutexId} {l hist : List Event}
    (h : ∀ e ∈ l, e.queue ≠ some (.mutex m)) (id : Nat) :
    owns m id (l ++ hist) = owns m id hist :=
  latest_append_none fun e he => ownVerdict_foreign (h e he) id

theorem Apart.owns_eq {m : MutexId} {s s' : State} (h : Apart (.mutex m) s s') (id : Nat) :
    owns m id s'.trace = owns m id s.trace := by
  obtain ⟨l, htrace, hnew⟩ := h.trace
  rw [htrace]
  exact owns_foreign hnew id

namespace OwnedBy

variable {m : MutexId} {hist : List Event} {owner : Option Nat} {id : Nat}

theorem taken (h : OwnedBy m hist none) : OwnedBy m (.mutexTaken m id :: hist) (some id) := by
  intro id'
  have hnone := h id'
  by_cases heq : id = id'
  · simp [owns, latest, ownVerdict, heq]
  · simpa [owns, latest, ownVerdict, heq] using hnone

theorem released (h : OwnedBy m hist (some id)) :
    OwnedBy m (.mutexReleased m id :: hist) none := by
  intro id'
  have hsome := h id'
  by_cases heq : id = id'
  · simp [owns, latest, ownVerdict, heq]
  · simpa [owns, latest, ownVerdict, heq] using hsome

theorem handed (h : OwnedBy m hist none) : OwnedBy m (.woken (.mutex m) id :: hist) (some id) := by
  intro id'
  have hnone := h id'
  by_cases heq : id = id'
  · simp [owns, latest, ownVerdict, heq]
  · simpa [owns, latest, ownVerdict, heq] using hnone

theorem congr (h : OwnedBy m hist owner) {hist' : List Event}
    (hsame : ∀ id, owns m id hist' = owns m id hist) : OwnedBy m hist' owner := by
  intro id
  rw [hsame id]
  exact h id

theorem eq_of_owns (h : OwnedBy m hist owner) (hid : owns m id hist = true) : owner = some id :=
  (h id).mp hid

end OwnedBy

/-- What a record says about ownership: a thread that has come out of the
queue of the mutex owns it, a thread in a wait with the mutex does not. -/
structure OwnOk (m : MutexId) (own : Nat → Bool) (th : Thread) : Prop where
  granted : th.point.queue = some (.mutex m) → th.state ≠ .blocked → own th.id = true
  waiting : ∀ c, th.point = .condWait c m → own th.id = false

/-- The point is not one at which a thread waits for the mutex. -/
def Point.Clear (m : MutexId) (k : Point) : Prop :=
  k.queue ≠ some (.mutex m) ∧ ∀ c, k ≠ .condWait c m

namespace OwnOk

variable {m : MutexId} {own own' : Nat → Bool} {th th' : Thread}

theorem clear (h : th.point.Clear m) : OwnOk m own th :=
  ⟨fun hq => absurd hq h.1, fun c hc => absurd hc (h.2 c)⟩

theorem congr (h : OwnOk m own th) (hid : th'.id = th.id) (hpoint : th'.point = th.point)
    (hstate : th'.state ≠ .blocked → th.state ≠ .blocked) : OwnOk m own th' := by
  constructor
  · intro hq hne
    rw [hid]
    exact h.granted (hpoint ▸ hq) (hstate hne)
  · intro c hc
    rw [hid]
    exact h.waiting c (hpoint ▸ hc)

/-- A thread that waited for something else becomes ready. -/
theorem woken (h : OwnOk m own th) (hq : th.point.queue ≠ some (.mutex m)) (hid : th'.id = th.id)
    (hpoint : th'.point = th.point) : OwnOk m own th' := by
  constructor
  · intro hq'
    exact absurd (hpoint ▸ hq') hq
  · intro c hc
    rw [hid]
    exact h.waiting c (hpoint ▸ hc)

end OwnOk

/-- What the ownership of mutexes reads of a record. -/
def Thread.waitView (th : Thread) : Nat × Point × ThreadState := (th.id, th.point, th.state)

theorem OwnOk.view {m : MutexId} {own : Nat → Bool} {th th' : Thread} (h : OwnOk m own th)
    (hview : th'.waitView = th.waitView) : OwnOk m own th' := by
  obtain ⟨hid, hpoint, hstate⟩ : th'.id = th.id ∧ th'.point = th.point ∧ th'.state = th.state := by
    simpa [Thread.waitView] using hview
  exact h.congr hid hpoint fun hne => hstate ▸ hne

section

variable {i : Input} {m : MutexId} {own : Nat → Bool} {s s' : State}
  (h : ∀ t ∈ s.handles, OwnOk m own (s.threads t))
include h

/-- No move puts a thread into the queue of a mutex or takes one out. -/
theorem Move.ownOk (hwf : WellFormed s) (hm : Move i s s') :
    ∀ t ∈ s'.handles, OwnOk m own (s'.threads t) := by
  have hinv := hwf.inv
  have hcur := h s.currentThread hinv.sched.current_mem
  cases hm with
  | toUser hrun hk => exact forall_update h fun _ => .clear ⟨by simp [Point.queue], by simp⟩
  | semPark sm hrun huser hcount =>
      exact forall_update h fun _ => .clear ⟨by simp [Point.queue], by simp⟩
  | yieldAt k rq hrun hold huser hrq =>
      refine forall_update h fun _ => ?_
      rcases hold with rfl | ⟨-, c, rfl⟩
      · refine hcur.congr rfl rfl fun _ => ?_
        rw [← State.running, hrun]
        simp
      · exact .clear ⟨by simp [Point.queue], by simp⟩
  | dispatch next rq hrun hrq =>
      obtain ⟨-, hready⟩ := (hinv.sched.ready.mem_iff next).mp (hrq.mem_iff.mp List.mem_cons_self)
      refine forall_update h fun hnext => (h next hnext).congr rfl rfl fun _ => ?_
      rw [hready]
      simp
  | condWake c t rest rq hq hrq =>
      obtain ⟨-, -, hpoint⟩ := hinv.sched.of_waiting hq
      exact forall_update h fun ht => (h t ht).woken (by simp [hpoint]) rfl rfl
  | semPostWake sm t rest rq hq hrq =>
      obtain ⟨-, -, hpoint⟩ := hinv.sched.of_waiting hq
      exact forall_update h fun ht => (h t ht).woken (by simp [hpoint]) rfl rfl
  | claimed t code stored head sp mp tp hp hrun ht hne hdead hzombie hpoint hstored heq =>
      have hback := forall_update (t := s.currentThread)
        (a := { s.running with waitingFor := none, point := .user }) h
        fun _ => .clear ⟨by simp [Point.queue], by simp⟩
      intro u hu
      exact forall_update (a := { s.threads t with headJoiner := head }) hback
        (fun ht => (h t ht).congr rfl rfl id) u (List.mem_of_mem_erase hu)
  | terminate v hrun huser =>
      refine forall_update h fun _ => .clear ?_
      simp [Point.Clear, huser, Point.queue]
  | wakeJoiner d j rq hd hdead hj hblocked hrq =>
      obtain ⟨-, htarget⟩ := hinv.join.joiner d hd j hj
      refine forall_update h fun hj => (h j hj).woken ?_ rfl rfl
      simp [(Point.of_target htarget).2.1]
  | sigwaitAt set hrun hold hpending =>
      exact forall_update h fun _ => .clear ⟨by simp [Point.queue], by simp⟩
  | signalWake t sig rq hsig ht hblocked hwait hset hrq =>
      obtain ⟨-, hsome⟩ := (hinv.sched.threads_ok t ht).signal.mp hwait
      refine forall_update h fun ht => (h t ht).woken ?_ rfl rfl
      simp [(Point.of_sigset hsome).1]
  | takeStruct n rest hrun huser hpool =>
      exact forall_update h fun _ => .clear ⟨by simp [Point.queue], by simp⟩
  | mallocStruct n hrun huser hmain hfresh =>
      exact forall_update h fun _ => .clear ⟨by simp [Point.queue], by simp⟩
  | retry n r r' hrun hk =>
      exact forall_update h fun _ => .clear ⟨by simp [Point.queue], by simp⟩
  | structDropped n r pool heap hrun hk heq =>
      exact forall_update h fun _ => .clear ⟨by simp [Point.queue], by simp⟩
  | scribble n th hdead hmain => exact forall_update h fun hn => absurd hn hdead
  | spawned n r entry rest ref count cap index active rq hrun hk hpool hslot hrq =>
      obtain ⟨hfresh, -, -⟩ := hinv.mem.held_fresh hinv.sched.current_mem (congrArg Point.held hk)
      have hback := forall_update (t := s.currentThread) (a := { s.running with point := .user }) h
        fun _ => .clear ⟨by simp [Point.queue], by simp⟩
      intro u hu
      rcases List.mem_cons.mp hu with rfl | hu
      · refine .clear ?_
        simp [State.spawn, State.slotGiven, Point.Clear, Point.queue]
      · exact forall_update hback (fun hn => absurd hn hfresh) u hu
  | reprioritize f rq hrq => exact fun t ht => (h t ht).view rfl
  | _ =>
      first
      | exact h
      | exact fun t ht => (h t ht).view (proj_update Thread.waitView (by rfl) t)

end

/-- A thread parked on the mutex while it owned it. -/
def Relocked (m : MutexId) (id : Nat) (hist : List Event) : Prop :=
  ∃ past, (.parked (.mutex m) id :: past) <:+ hist ∧ owns m id past = true

/-- The fast path is taken only when everybody who parked has been woken. -/
def MutexEntry (m : MutexId) (past : List Event) : Event → Prop
  | .mutexTaken m' _ => m' = m → parkedIn (.mutex m) past = wokenIn (.mutex m) past
  | _ => True

/-- The lock word, the queue, the records and the history agree on the owner. -/
structure OwnInv (m : MutexId) (s : State) : Prop where
  owner : ∃ o, OwnedBy m s.trace o ∧
    (o = none → s.locked m = 0 ∧ s.waitingQueue (.mutex m) = []) ∧ (o ≠ none → s.locked m = 1)
  threads_ok : ∀ t ∈ s.handles, OwnOk m (fun id => owns m id s.trace) (s.threads t)
  relocked : ∀ t ∈ s.waitingQueue (.mutex m), owns m (s.threads t).id s.trace = true →
    Relocked m (s.threads t).id s.trace
  fifo : FifoAt (.mutex m) s
  entries : Throughout (MutexEntry m) (s.epoch (.mutex m))

theorem ownInv_initial (m : MutexId) : OwnInv m State.initial where
  owner := ⟨none, fun id => by simp [owns, latest, State.initial], fun _ => ⟨rfl, rfl⟩,
    fun h => absurd rfl h⟩
  threads_ok := fun t _ => .clear ⟨by simp [State.initial, Thread.main, Point.queue],
    by simp [State.initial, Thread.main]⟩
  relocked := by simp [State.initial]
  fifo := rfl
  entries := trivial

/-- What the callers promise about the mutex: only the owner releases it, and
it is not destroyed, nor initialised again while somebody owns it. -/
def MutexContract (m : MutexId) (s : State) (i : Input) : Prop :=
  Regular s i ∧ (i.initialises = some (.mutex m) → s.locked m = 0) ∧
    (i.destroys = some (.mutex m) → s.waitingQueue (.mutex m) ≠ []) ∧
    (i.releases = some m → owns m s.self s.trace = true)

instance (m : MutexId) (s : State) (i : Input) : Decidable (MutexContract m s i) :=
  inferInstanceAs (Decidable (_ ∧ (_ → _) ∧ (_ → _) ∧ (_ → _)))

theorem mutexEntry_foreign {m : MutexId} {e : Event} (h : e.queue ≠ some (.mutex m))
    (past : List Event) : MutexEntry m past e := by
  cases e <;> simp_all [Event.queue, MutexEntry]

theorem Relocked.append {m : MutexId} {id : Nat} {l hist : List Event}
    (h : Relocked m id hist) : Relocked m id (l ++ hist) := by
  obtain ⟨past, hsuffix, howns⟩ := h
  exact ⟨past, hsuffix.trans (List.suffix_append l hist), howns⟩

namespace OwnInv

variable {i : Input} {m : MutexId} {s s' : State}

/-- Nothing happens to the mutex. -/
theorem apart (h : OwnInv m s) (ha : Apart (.mutex m) s s')
    (hid : ∀ t ∈ s.waitingQueue (.mutex m), (s'.threads t).id = (s.threads t).id)
    (hok : ∀ t ∈ s'.handles, OwnOk m (fun id => owns m id s.trace) (s'.threads t)) :
    OwnInv m s' where
  owner := by
    obtain ⟨o, howned, hfree, hheld⟩ := h.owner
    refine ⟨o, howned.congr ha.owns_eq, fun ho => ?_, fun ho => ?_⟩
    · rw [ha.queue]
      exact ⟨ha.value.trans (hfree ho).1, (hfree ho).2⟩
    · exact ha.value.trans (hheld ho)
  threads_ok := by
    simp only [ha.owns_eq]
    exact hok
  relocked := by
    intro t ht howns
    rw [ha.queue] at ht
    rw [hid t ht] at howns ⊢
    rw [ha.owns_eq] at howns
    obtain ⟨l, htrace, -⟩ := ha.trace
    rw [htrace]
    exact (h.relocked t ht howns).append
  fifo := h.fifo.apart ha hid
  entries := by
    obtain ⟨l, hepoch, hnew⟩ := ha.epoch
    rw [hepoch]
    exact h.entries.append fun past e he => mutexEntry_foreign (hnew e he) past

theorem move (h : OwnInv m s) (hwf : WellFormed s) (hm : Move i s s') : OwnInv m s' :=
  h.apart (hm.apart_mutex m) (fun _ ht => hm.id_eq hwf.inv (hwf.inv.sched.of_mem_waiting ht).1)
    (Move.ownOk h.threads_ok hwf hm)

/-- The running thread takes the free mutex. -/
theorem take (h : OwnInv m s) (hwf : WellFormed s) (hfree : s.locked m = 0)
    (hpoint : ∀ c, s.running.point ≠ .condWait c m) :
    OwnInv m ((s.setLocked m 1).emit (.mutexTaken m s.self)) := by
  obtain ⟨o, howned, hnone, hsome⟩ := h.owner
  obtain rfl : o = none := by
    by_contra ho
    rw [hsome ho] at hfree
    cases hfree
  have hqueue := (hnone rfl).2
  have hnobody : ∀ id, owns m id s.trace = false := by
    intro id
    rw [← Bool.not_eq_true, howned id]
    simp
  have htaken : OwnedBy m (.mutexTaken m s.self :: s.trace) (some s.self) := howned.taken
  constructor
  · exact ⟨some s.self, htaken, by simp, fun _ => Function.update_self _ _ _⟩
  · intro t ht
    have hok := h.threads_ok t ht
    constructor
    · intro hq hne
      have hold := hok.granted hq hne
      rw [hnobody] at hold
      cases hold
    · intro c hc
      rw [← Bool.not_eq_true]
      intro howns
      have heq := (htaken _).mp howns
      have hself : t = s.currentThread :=
        hwf.ids.inj t ht _ hwf.inv.sched.current_mem (Option.some.inj heq).symm
      subst t
      exact hpoint c hc
  · intro t ht
    rw [show ((s.setLocked m 1).emit (.mutexTaken m s.self)).waitingQueue = s.waitingQueue from rfl,
      hqueue] at ht
    cases ht
  · exact h.fifo.neutral rfl (fun _ _ => rfl) (l := [_]) rfl
      (by simp [Event.resets, Event.parkedOn, Event.wokenFrom])
  · rw [State.epoch_append (s := s) (l := [.mutexTaken m s.self]) rfl (by simp [Event.resets])]
    refine ⟨fun _ => ?_, h.entries⟩
    have hfifo := h.fifo
    rw [FifoAt, State.waitingIds, hqueue] at hfifo
    simpa using hfifo

/-- The running thread parks, whether or not it owns the mutex itself. -/
theorem park (h : OwnInv m s) (hheld : s.locked m ≠ 0) {k : Point}
    (hk : k.queue = some (.mutex m)) : OwnInv m (s.parkAt (.mutex m) k) := by
  have hid : ∀ t, ((s.parkAt (.mutex m) k).threads t).id = (s.threads t).id :=
    fun t => proj_update Thread.id (by rfl) t
  obtain ⟨o, howned, hnone, hsome⟩ := h.owner
  constructor
  · exact ⟨o, howned, fun ho => absurd (hnone ho).1 hheld, hsome⟩
  · refine forall_update (P := fun _ th => OwnOk m (fun id => owns m id s.trace) th) h.threads_ok
      fun _ => ⟨fun _ hne => absurd rfl hne, ?_⟩
    rintro c rfl
    cases hk
  · intro t ht howns
    rw [hid t] at howns ⊢
    by_cases htc : t = s.currentThread
    · subst t
      exact ⟨_, List.suffix_refl _, howns⟩
    · have hold : t ∈ s.waitingQueue (.mutex m) := by
        simpa [State.parkAt, htc] using ht
      exact (h.relocked t hold howns).append (l := [_, _])
  · exact h.fifo.park k
  · rw [State.epoch_append (s := s) (l := [_, _]) rfl (by simp [Event.resets])]
    exact ⟨trivial, trivial, h.entries⟩

theorem acquire (h : OwnInv m s) (hwf : WellFormed s) {k : Point}
    (hk : k.queue = some (.mutex m)) (hpoint : ∀ c, s.running.point ≠ .condWait c m)
    (ha : Acquire m k s s') : OwnInv m s' := by
  cases ha with
  | take hfree => exact h.take hwf hfree hpoint
  | park hrun hold hvalid hheld hready => exact h.park hheld hk
  | fail hfail => exact h

/-- While a thread in user code owns the mutex, the others that lock it are
blocked. -/
theorem blocked_of_user (h : OwnInv m s) (hwf : WellFormed s) (huser : s.running.point = .user)
    (hself : owns m s.self s.trace = true) {t : Tid} (ht : t ∈ s.handles)
    (hq : (s.threads t).point.queue = some (.mutex m)) : (s.threads t).state = .blocked := by
  by_contra hne
  have howns := (h.threads_ok t ht).granted hq hne
  obtain ⟨o, howned, -, -⟩ := h.owner
  have heq := (howned.eq_of_owns howns).symm.trans (howned.eq_of_owns hself)
  have htc : t = s.currentThread :=
    hwf.ids.inj t ht _ hwf.inv.sched.current_mem (Option.some.inj heq)
  rw [htc, ← State.running, huser] at hq
  cases hq

/-- The owner hands the mutex to the first waiter, or nobody owns it next. -/
theorem release (h : OwnInv m s) (hwf : WellFormed s) (hrun : s.running.state = .running)
    (huser : s.running.point = .user) (hself : owns m s.self s.trace = true)
    (hr : Release m s s') : OwnInv m s' ∧ owns m s.self s'.trace = false := by
  have hcur := hwf.inv.sched.current_mem
  have hfifo := h.fifo.release hr
  have hblocked := fun {t : Tid} => h.blocked_of_user hwf huser hself (t := t)
  obtain ⟨o, howned, hnone, hsome⟩ := h.owner
  obtain rfl := howned.eq_of_owns hself
  cases hr with
  | handOff t rest rq hq hrq =>
      obtain ⟨ht, hstate, hpoint⟩ := hwf.inv.sched.of_waiting hq
      generalize hs' : (s.emit (.mutexReleased m s.self)).wakeHead (.mutex m) t rest rq = s'
        at hfifo ⊢
      have hthreads : s'.threads = Function.update s.threads t
          { s.threads t with state := .ready, inReadyQueue := true } := by rw [← hs']; rfl
      have hhanded : OwnedBy m s'.trace (some (s.threads t).id) := by
        rw [← hs']
        exact howned.released.handed
      have honly : ∀ u ∈ s.handles, owns m (s.threads u).id s'.trace = true → u = t :=
        fun u hu howns => hwf.ids.inj u hu t ht (Option.some.inj (hhanded.eq_of_owns howns)).symm
      have hnotWait : ∀ c, (s.threads t).point ≠ .condWait c m := by
        intro c hc
        rw [hc] at hpoint
        cases hpoint
      refine ⟨⟨⟨_, hhanded, by simp, fun _ => ?_⟩, ?_, ?_, hfifo, ?_⟩, ?_⟩
      · rw [← hs']
        exact hsome (by simp)
      · rw [hthreads, show s'.handles = s.handles by rw [← hs']; rfl]
        refine forall_update (P := fun _ th => OwnOk m (fun id => owns m id s'.trace) th) ?_ ?_
        · intro u hu
          refine ⟨fun huq hne => absurd (hblocked hu huq) hne, fun c hc => ?_⟩
          rw [← Bool.not_eq_true]
          intro howns
          exact hnotWait c (honly u hu howns ▸ hc)
        · intro _
          exact ⟨fun _ _ => (hhanded _).mpr rfl, fun c hc => absurd hc (hnotWait c)⟩
      · intro u hu howns
        -- The new owner has left the queue, and nobody else owns the mutex.
        have hrest : u ∈ rest := by
          rw [← hs'] at hu
          simpa [State.wakeHead] using hu
        have hmem := (hwf.inv.sched.of_mem_waiting (q := .mutex m) (t := u) (by simp [hq, hrest])).1
        have hidu : (s'.threads u).id = (s.threads u).id := by
          rw [hthreads]
          exact proj_update Thread.id (by rfl) u
        rw [hidu] at howns
        have hnd := (List.nodup_append.mp (hwf.inv.sched.wait (.mutex m)).nodup).1
        rw [hq] at hnd
        exact absurd (honly u hmem howns ▸ hrest) (List.nodup_cons.mp hnd).1
      · rw [← hs', State.epoch_append (s := s) (l := [_, _, _]) rfl (by simp [Event.resets])]
        exact ⟨trivial, trivial, trivial, h.entries⟩
      · rw [← Bool.not_eq_true]
        intro howns
        rw [← honly _ hcur howns, ← State.running, hrun] at hstate
        cases hstate
  | free hq =>
      have hreleased : OwnedBy m (.mutexReleased m s.self :: s.trace) none := howned.released
      have hnobody : ∀ id, owns m id (.mutexReleased m s.self :: s.trace) = false := by
        intro id
        rw [← Bool.not_eq_true, hreleased id]
        simp
      refine ⟨⟨⟨none, hreleased, fun _ => ⟨Function.update_self _ _ _, hq⟩, by simp⟩, ?_, ?_, hfifo,
        ?_⟩, hnobody _⟩
      · intro t ht
        exact ⟨fun htq hne => absurd (hblocked ht htq) hne, fun c _ => hnobody _⟩
      · intro t ht howns
        exact absurd howns (by simp [State.setLocked, State.emit, hnobody])
      · rw [State.epoch_append (s := s) (l := [.mutexReleased m s.self]) rfl
          (by simp [Event.resets])]
        exact ⟨trivial, h.entries⟩

/-- No record changes, and nothing happens to the mutex. -/
theorem keep (h : OwnInv m s) (ha : Apart (.mutex m) s s') (hthreads : s'.threads = s.threads)
    (hhandles : s'.handles = s.handles) : OwnInv m s' := by
  refine h.apart ha (fun t _ => by rw [hthreads]) ?_
  rw [hthreads, hhandles]
  exact h.threads_ok

/-- The running thread parks on something else. -/
theorem parkOther (h : OwnInv m s) {q : QueueId} {k : Point} (hne : q ≠ .mutex m)
    (hk : k.queue = some q) (hwait : ∀ c, k = .condWait c m → owns m s.self s.trace = false) :
    OwnInv m (s.parkAt q k) := by
  refine h.apart (.parkAt hne k) (fun t _ => proj_update Thread.id (by rfl) t) ?_
  refine forall_update (P := fun _ th => OwnOk m (fun id => owns m id s.trace) th) h.threads_ok
    fun _ => ⟨fun hq => ?_, hwait⟩
  exact absurd (Option.some.inj (hk.symm.trans hq)) hne

variable {m' : MutexId} (hne : QueueId.mutex m' ≠ .mutex m)
include hne

theorem releaseOther (h : OwnInv m s) (hwf : WellFormed s) (hr : Release m' s s') :
    OwnInv m s' := by
  refine h.apart (hr.apart hne) (fun t _ => hr.id_eq t) ?_
  cases hr with
  | handOff t rest rq hq hrq =>
      obtain ⟨-, -, hpoint⟩ := hwf.inv.sched.of_waiting hq
      refine forall_update (P := fun _ th => OwnOk m (fun id => owns m id s.trace) th) h.threads_ok
        fun ht => (h.threads_ok t ht).woken ?_ rfl rfl
      rw [hpoint]
      exact fun heq => hne (Option.some.inj heq)
  | free hq => exact h.threads_ok

theorem acquireOther (h : OwnInv m s) {k : Point} (hk : k.queue = some (.mutex m'))
    (ha : Acquire m' k s s') : OwnInv m s' := by
  cases ha with
  | take hfree => exact h.keep (Acquire.apart (.take (k := k) hfree) hne) rfl rfl
  | park hrun hold hvalid hheld hready =>
      refine h.parkOther hne hk ?_
      rintro c rfl
      cases hk
  | fail hfail => exact h

omit hne

/-- The wait of the running thread is over: it has the mutex back, has parked
for it, or goes on without it. -/
theorem relock (h : OwnInv m s) (hwf : WellFormed s) (hrun : s.running.state = .running)
    {c : CondId} {s₁ : State} (ha : Acquire m (.condRelock c m 0) s s₁) (hb : Back s₁ s') :
    OwnInv m s' := by
  cases ha with
  | take hfree =>
      cases hb with
      | switched hleft => exact absurd hrun hleft
      | user hrun' hk =>
          -- The order of the return and the acquisition does not matter.
          have hback : Move (.resume .plain) s (s.setPoint s.currentThread .user) :=
            .toUser hrun hk
          have htaken := (h.move hwf hback).take (hwf.move hback) hfree
            (by simp [State.setPoint, State.modifyThread, State.running])
          have hself : (s.setPoint s.currentThread .user).self = s.self := by
            simp [State.self, State.setPoint, State.modifyThread]
          rw [hself] at htaken
          exact htaken
  | park hrun' hold hvalid hheld hready =>
      cases hb with
      | switched hleft => exact h.park hheld rfl
      | user hrun' hk => simp [State.parkAt, State.running] at hrun'
  | fail hfail => exact hb.rule (.resume .plain) h fun hm => h.move hwf hm

/-- The set-up of a mutex that nobody owns. -/
theorem init (h : OwnInv m s) (hfree : s.locked m = 0) :
    OwnInv m (((s.setLocked m 0).initQueue (.mutex m)).emit (.mutexSet m 0)) := by
  obtain ⟨o, howned, hnone, hsome⟩ := h.owner
  obtain rfl : o = none := by
    by_contra ho
    rw [hsome ho] at hfree
    cases hfree
  have hqueue : (((s.setLocked m 0).initQueue (.mutex m)).emit (.mutexSet m 0)).waitingQueue
      (.mutex m) = [] := Function.update_self _ _ _
  refine ⟨⟨none, howned, fun _ => ⟨Function.update_self _ _ _, hqueue⟩, by simp⟩, h.threads_ok, ?_,
    FifoAt.reset rfl (by simp [Event.resets]) hqueue, ?_⟩
  · rw [hqueue]
    simp
  · rw [State.epoch, State.emit, since_cons_reset (by simp [Event.resets])]
    trivial

theorem act (h : OwnInv m s) (hwf : WellFormed s) (hrun : s.running.state = .running)
    (hg : MutexContract m s i) (ha : Act i s s') : OwnInv m s' := by
  obtain ⟨-, hinit, hdestroy, hrelease⟩ := hg
  cases ha with
  | lock m' e hi huser ha =>
      by_cases hq : QueueId.mutex m' = .mutex m
      · obtain rfl : m' = m := by simpa using hq
        exact h.acquire hwf rfl (by simp [huser]) ha
      · exact h.acquireOther hq rfl ha
  | unlock m' e hi huser hvalid hheld hr =>
      by_cases hq : QueueId.mutex m' = .mutex m
      · obtain rfl : m' = m := by simpa using hq
        exact (h.release hwf hrun huser (hrelease (by rw [hi]; rfl)) hr).1
      · exact h.releaseOther hq hwf hr
  | mutexInit m' e hi =>
      by_cases hq : QueueId.mutex m' = .mutex m
      · obtain rfl : m' = m := by simpa using hq
        exact h.init (hinit (by rw [hi]; rfl))
      · exact h.keep (((Apart.setLocked s (Ne.symm hq) 0).trans (.initQueue hq _)).trans
          (.emit _ (by simpa [Event.queue] using hq))) rfl rfl
  | mutexDestroy m' e hi hqueue =>
      have hq : QueueId.mutex m' ≠ .mutex m := by
        intro heq
        rw [heq] at hqueue
        exact hdestroy (by rw [hi, ← heq]; rfl) hqueue
      exact h.keep ((Apart.setLocked s hq.symm _).trans
        (.emit _ (by simpa [Event.queue] using hq))) rfl rfl
  | semInit sm v e hi hv =>
      exact h.keep (((Apart.setCount s (by simp) v).trans (.initQueue (by simp) _)).trans
        (.emit _ (by simp [Event.queue]))) rfl rfl
  | semDestroy sm e hi hq =>
      exact h.keep ((Apart.setCount s (by simp) _).trans (.emit _ (by simp [Event.queue]))) rfl rfl
  | condInit c e hi =>
      exact h.keep ((Apart.initQueue (by simp) s).trans (.emit _ (by simp [Event.queue]))) rfl rfl
  | condWait c m' e hi hrun huser hready hr =>
      by_cases hq : QueueId.mutex m' = .mutex m
      · obtain rfl : m' = m := by simpa using hq
        obtain ⟨hreleased, hlost⟩ := h.release hwf hrun huser (hrelease (by rw [hi]; rfl)) hr
        obtain ⟨-, hsame⟩ := hwf.inv.release_running hr hrun
        refine hreleased.parkOther (by simp) rfl fun _ _ => ?_
        rwa [State.self, ← State.running, hsame]
      · refine (h.releaseOther hq hwf hr).parkOther (by simp) rfl fun c' hc => ?_
        cases hc
        exact absurd rfl hq
  | condGiveUp c m' e hi huser hready hr ha =>
      by_cases hq : QueueId.mutex m' = .mutex m
      · obtain rfl : m' = m := by simpa using hq
        have hreleased := (h.release hwf hrun huser (hrelease (by rw [hi]; rfl)) hr).1
        obtain ⟨-, hsame⟩ := hwf.inv.release_running hr hrun
        exact hreleased.acquire (hwf.release hr) rfl (by simp [hsame, huser]) ha
      · exact (h.releaseOther hq hwf hr).acquireOther hq rfl ha
  | relock c m' e hi hk ha hb =>
      by_cases hq : QueueId.mutex m' = .mutex m
      · obtain rfl : m' = m := by simpa using hq
        exact h.relock hwf hrun ha hb
      · have hacquired := h.acquireOther hq rfl ha
        exact hb.rule i hacquired fun hm => hacquired.move (hwf.acquire rfl ha) hm
  | join t slot own retval e hi hrun huser ht hne hlive hfree hslot hown hchain hready =>
      refine h.apart (.quiet rfl rfl rfl (l := [_]) rfl (by simp [Event.queue]))
        (fun u _ => joinAt_proj Thread.id hne (by rfl) (by rfl) u) ?_
      have htarget := forall_update (P := fun _ th => OwnOk m (fun id => owns m id s.trace) th)
        (t := t) (a := { s.threads t with joinedBy := some s.currentThread }) h.threads_ok
        fun ht => (h.threads_ok t ht).view rfl
      exact forall_update htarget fun _ => .clear ⟨by simp [Point.queue], by simp⟩

end OwnInv

/-- Along every run that keeps the contract the owner is known. -/
theorem ownInv_of_reach {b : Build} {m : MutexId} {s : State}
    (h : Reach (step b) (MutexContract m) State.initial s) : Settled s ∧ OwnInv m s :=
  Settled.reach h (fun _ _ hg => hg.1) settled_initial (ownInv_initial m)
    (fun hwf hrun hI hg ha => hI.act hwf hrun hg ha) fun hwf hI hm => hI.move hwf hm

end UserThreads
