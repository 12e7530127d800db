import UserThreads.History.Identity
import UserThreads.Transition.History

/-!
# The lifecycle of threads

Every assignment to the state of a thread is recorded with the state it
replaces, the point at which the thread stands and, for a wake-up, its cause.
The law reads the history: each assignment starts from the state that the
previous one left, and is one that the lifecycle has.
-/

namespace UserThreads

open Transition

/-- The operation is the one that a thread blocked at the point waits for. -/
def Point.WokenBy : Point → Waker → Prop
  | .join t _, .threadExit dying => dying = t
  | .mutexLock m, .mutexRelease m' => m' = m
  | .condRelock _ m _, .mutexRelease m' => m' = m
  | .semWait sm, .semPost sm' => sm' = sm
  | .condWait c _, .condSignal c' => c' = c
  | .sigwait set, .signalSend sig => (1 ≤ sig ∧ sig ≤ 32) ∧ set &&& threadSignalBit sig ≠ 0
  | _, _ => False

/-- What an entry says about the state of the thread `id`. -/
def stateVerdict (id : Nat) : Event → Option ThreadState
  | .created id' _ => if id' = id then some .ready else none
  | .stateSet id' _ new _ _ => if id' = id then some new else none
  | _ => none

/-- The state of a thread as the history has it; `main` starts out running. -/
def stateOf (id : Nat) : List Event → ThreadState := latest (stateVerdict id) .running

/-- The assignments of the lifecycle, after the history `past`. -/
inductive Change (past : List Event) (id : Nat) :
    ThreadState → ThreadState → Point → Option Waker → Prop
  | dispatched {k : Point} : Change past id .ready .running k none
  | yielded {k : Point} : Change past id .running .ready k none
  | blocked {k : Point} : Change past id .running .blocked k none
  | terminated {k : Point} : Change past id .running .terminated k none
  | kept {k : Point} : Change past id .running .running k none
  | woken {k : Point} {w : Waker} (h : k.WokenBy w) : Change past id .blocked .ready k (some w)
  | gaveUp {k : Point} {rest : List Event}
      (h : past = .stateSet id .running .blocked k none :: rest) :
      Change past id .blocked .running k none

/-- An entry that assigns a state starts from the state before it. -/
def LawfulEntry (past : List Event) : Event → Prop
  | .stateSet id old new k w => old = stateOf id past ∧ Change past id old new k w
  | _ => True

/-- The history is lawful, and each thread is in the state that it gives. -/
structure LifecycleLaw (s : State) : Prop where
  lawful : Throughout LawfulEntry s.trace
  recorded : ∀ t ∈ s.handles, (s.threads t).state = stateOf (s.threads t).id s.trace

theorem lifecycleLaw_initial : LifecycleLaw State.initial :=
  ⟨trivial, fun _ _ => rfl⟩

/-- The head of a wait queue waits for the operation that empties the queue. -/
theorem wokenBy_of_queue {k : Point} {q : QueueId} (h : k.queue = some q) : k.WokenBy q.waker := by
  cases k <;> simp [Point.queue] at h <;> subst h <;> rfl

theorem wokenBy_of_target {k : Point} {t : Tid} (h : k.target = some t) :
    k.WokenBy (.threadExit t) := by
  cases k <;> simp [Point.target] at h
  exact h.symm

theorem wokenBy_of_sigset {k : Point} {set : BitVec 32} {sig : Int} (h : k.sigset = some set)
    (hsig : 1 ≤ sig ∧ sig ≤ 32) (hset : set &&& threadSignalBit sig ≠ 0) :
    k.WokenBy (.signalSend sig) := by
  cases k <;> simp [Point.sigset] at h
  subst h
  exact ⟨hsig, hset⟩

namespace LifecycleLaw

variable {i : Input} {s s' : State}

/-- Nothing is said about any state, and none changes. -/
theorem silent (h : LifecycleLaw s) (hsub : s'.handles ⊆ s.handles)
    (hsame : ∀ t ∈ s.handles, (s'.threads t).id = (s.threads t).id ∧
      (s'.threads t).state = (s.threads t).state)
    {l : List Event} (htrace : s'.trace = l ++ s.trace)
    (hnew : ∀ e ∈ l, ∀ past id, stateVerdict id e = none ∧ LawfulEntry past e) :
    LifecycleLaw s' where
  lawful := by
    rw [htrace]
    exact h.lawful.append fun past e he => (hnew e he past 0).2
  recorded := by
    rw [htrace]
    exact Mirrors.silent (k := Thread.id) h.recorded hsub (fun t ht => (hsame t ht).1)
      (fun t ht => (hsame t ht).2) fun id e he => (hnew e he [] id).1

/-- One thread changes its state, as the lifecycle allows. -/
theorem change (h : LifecycleLaw s) {t : Tid} {a : Thread} {old new : ThreadState} {k : Point}
    {w : Option Waker} (ht : t ∈ s.handles)
    (hinj : ∀ u ∈ s.handles, (s.threads u).id = (s.threads t).id → u = t)
    (hhandles : s'.handles = s.handles)
    (hthreads : s'.threads = Function.update s.threads t a) (hid : a.id = (s.threads t).id)
    (hold : (s.threads t).state = old) (hnew : a.state = new)
    (htrace : s'.trace = .stateSet (s.threads t).id old new k w :: s.trace)
    (hchange : Change s.trace (s.threads t).id old new k w) : LifecycleLaw s' where
  lawful := by
    rw [htrace]
    exact ⟨⟨hold ▸ h.recorded t ht, hchange⟩, h.lawful⟩
  recorded := by
    rw [htrace, hhandles, hthreads]
    refine Mirrors.set (k := Thread.id) h.recorded hinj hid ?_ ?_
    · simp [stateVerdict, hnew]
    · intro id hne
      simp [stateVerdict, Ne.symm hne]

theorem wakeHead (h : LifecycleLaw s) (hwf : WellFormed s) {q : QueueId} {t : Tid}
    {rest : List Tid} (hq : s.waitingQueue q = t :: rest) (rq : List Tid) {l : List Event}
    (hnew : ∀ e ∈ l, ∀ past id, stateVerdict id e = none ∧ LawfulEntry past e) :
    LifecycleLaw ({ s with trace := l ++ s.trace }.wakeHead q t rest rq) := by
  obtain ⟨ht, hblocked, hpoint⟩ := hwf.inv.sched.of_waiting hq
  have hmid : LifecycleLaw { s with trace := .woken q (s.threads t).id :: (l ++ s.trace) } := by
    refine h.silent (l := .woken q (s.threads t).id :: l) (List.Subset.refl _)
      (fun _ _ => ⟨rfl, rfl⟩) rfl ?_
    intro e he past id
    rcases List.mem_cons.mp he with rfl | he
    · exact ⟨rfl, trivial⟩
    · exact hnew e he past id
  refine hmid.change ht (fun u hu => hwf.ids.inj u hu t ht) rfl rfl rfl rfl rfl rfl ?_
  simp only [hblocked]
  exact .woken (wokenBy_of_queue hpoint)

/-- The running thread leaves the processor for a state of the lifecycle. -/
theorem leave (h : LifecycleLaw s) (hwf : WellFormed s) (hrun : s.running.state = .running)
    {a : Thread} (hhandles : s'.handles = s.handles)
    (hthreads : s'.threads = Function.update s.threads s.currentThread a)
    (hid : a.id = s.running.id) {l : List Event}
    (hnew : ∀ e ∈ l, ∀ past id, stateVerdict id e = none ∧ LawfulEntry past e)
    (htrace : s'.trace = .stateSet s.self s.running.state a.state s.running.point none ::
      (l ++ s.trace)) (hne : a.state = .ready ∨ a.state = .blocked ∨ a.state = .terminated) :
    LifecycleLaw s' := by
  have hmid : LifecycleLaw { s with trace := l ++ s.trace } :=
    h.silent (List.Subset.refl _) (fun _ _ => ⟨rfl, rfl⟩) rfl hnew
  refine hmid.change hwf.inv.sched.current_mem
    (fun u hu => hwf.ids.inj u hu _ hwf.inv.sched.current_mem) hhandles hthreads hid rfl rfl
    htrace ?_
  have hrun' : (s.threads s.currentThread).state = .running := hrun
  simp only [hrun']
  rcases hne with hr | hb | ht
  · rw [hr]
    exact .yielded
  · rw [hb]
    exact .blocked
  · rw [ht]
    exact .terminated

theorem parkAt (h : LifecycleLaw s) (hwf : WellFormed s) (hrun : s.running.state = .running)
    (q : QueueId) (k : Point) : LifecycleLaw (s.parkAt q k) := by
  have hleft : LifecycleLaw { s.parkAt q k with
      trace := .stateSet s.self s.running.state .blocked s.running.point none :: s.trace } :=
    h.leave hwf hrun rfl rfl rfl (l := []) (by simp) rfl (Or.inr (Or.inl rfl))
  exact hleft.silent (List.Subset.refl _) (fun _ _ => ⟨rfl, rfl⟩) (l := [.parked q s.self]) rfl
    (by simp [stateVerdict, LawfulEntry])

/-- A new thread is ready; its id is new to the history. -/
theorem spawned (h : LifecycleLaw s) (hwf : WellFormed s) {n : Tid}
    (hhandles : s'.handles = n :: s.handles)
    (hsame : ∀ t ∈ s.handles, (s'.threads t).id = (s.threads t).id ∧
      (s'.threads t).state = (s.threads t).state)
    (hid : (s'.threads n).id = s.nextThreadId) (hstate : (s'.threads n).state = .ready)
    (htrace : s'.trace = .created s.nextThreadId n :: s.trace) : LifecycleLaw s' where
  lawful := by
    rw [htrace]
    exact ⟨trivial, h.lawful⟩
  recorded := by
    rw [htrace, hhandles]
    refine Mirrors.cons (k := Thread.id) (l := [.created s.nextThreadId n]) h.recorded
      (fun t ht => (hsame t ht).1) (fun t ht => (hsame t ht).2) ?_ ?_
    · intro t ht e he
      obtain rfl := List.mem_singleton.mp he
      have := hwf.ids.bound t ht
      simp [stateVerdict]
      omega
    · rw [hid, hstate]
      simp [latest, stateVerdict]

theorem move (h : LifecycleLaw s) (hwf : WellFormed s) (hm : Move i s s') : LifecycleLaw s' := by
  have hcur := hwf.inv.sched.current_mem
  have hinj : ∀ t ∈ s.handles, ∀ u ∈ s.handles, (s.threads u).id = (s.threads t).id → u = t :=
    fun t ht u hu => hwf.ids.inj u hu t ht
  have hid : ∀ t ∈ s.handles, (s'.threads t).id = (s.threads t).id :=
    fun t ht => hm.id_eq hwf.inv ht
  cases hm with
  | restate hrun =>
      exact h.change hcur (hinj _ hcur) rfl (Function.update_eq_self _ _).symm rfl hrun hrun rfl
        .kept
  | semPark sm hrun huser hcount => exact h.parkAt hwf hrun _ _
  | yieldAt k rq hrun hold huser hrq =>
      exact h.leave hwf hrun rfl rfl rfl (l := []) (by simp) rfl (Or.inl rfl)
  | dispatch next rq hrun hrq =>
      obtain ⟨hnext, hready⟩ :=
        (hwf.inv.sched.ready.mem_iff next).mp (hrq.mem_iff.mp List.mem_cons_self)
      refine h.change hnext (hinj _ hnext) rfl rfl rfl rfl rfl rfl ?_
      rw [hready]
      exact .dispatched
  | condWake c t rest rq hq hrq => exact h.wakeHead hwf hq rq (l := []) (by simp)
  | semPostWake sm t rest rq hq hrq =>
      exact h.wakeHead hwf hq rq (l := [.semPosted sm s.self]) (by simp [stateVerdict, LawfulEntry])
  | terminate v hrun huser =>
      exact h.leave hwf hrun rfl rfl rfl (l := [.exited s.self v])
        (by simp [stateVerdict, LawfulEntry]) rfl (Or.inr (Or.inr rfl))
  | wakeJoiner d j rq hd hdead hj hblocked hrq =>
      obtain ⟨hmem, htarget⟩ := hwf.inv.join.joiner d hd j hj
      refine h.change hmem (hinj _ hmem) rfl rfl rfl rfl rfl rfl ?_
      rw [hblocked]
      exact .woken (wokenBy_of_target htarget)
  | sigwaitAt set hrun hold hpending =>
      exact h.leave hwf hrun rfl rfl rfl (l := []) (by simp) rfl (Or.inr (Or.inl rfl))
  | sigwaitGiveUp hrun =>
      -- The thread is blocked between the two entries, and only there.
      refine ⟨⟨⟨?_, .gaveUp rfl⟩, ⟨hrun ▸ h.recorded _ hcur, .blocked⟩, h.lawful⟩, fun t ht => ?_⟩
      · simp [stateOf, latest, stateVerdict, State.emit]
      · by_cases htc : t = s.currentThread
        · subst t
          simpa [stateOf, latest, stateVerdict, State.emit, State.self, State.running] using hrun
        · have hne : (s.threads t).id ≠ s.self := fun heq => htc (hinj _ hcur t ht heq)
          simpa [stateOf, latest, stateVerdict, State.emit, hne.symm] using h.recorded t ht
  | signalWake t sig rq hsig ht hblocked hwait hset hrq =>
      have hmid : LifecycleLaw (s.emit (.signalSent (s.threads t).id sig)) :=
        h.silent (List.Subset.refl _) (fun _ _ => ⟨rfl, rfl⟩) (l := [_]) rfl
          (by simp [stateVerdict, LawfulEntry])
      refine hmid.change ht (hinj t ht) rfl rfl rfl hblocked rfl (by rw [hblocked]; rfl) ?_
      obtain ⟨-, hsome⟩ := (hwf.inv.sched.threads_ok t ht).signal.mp hwait
      obtain ⟨set, hset'⟩ := Option.isSome_iff_exists.mp hsome
      obtain ⟨hwaited, -⟩ := (hwf.inv.sched.threads_ok t ht).waited set hset' hwait
      exact .woken (wokenBy_of_sigset hset' hsig (hwaited ▸ hset))
  | spawned n r entry rest ref count cap index active rq hrun hk hpool hslot hrq =>
      obtain ⟨hfresh, -, -⟩ := hwf.inv.mem.held_fresh hcur (congrArg Point.held hk)
      refine h.spawned hwf rfl (fun t ht => ⟨hid t ht, ?_⟩) ?_ ?_ rfl
      · have hne : t ≠ n := fun e => hfresh (e ▸ ht)
        exact spawn_proj (s := s.slotGiven n ref count cap index active) Thread.state rfl hne
      · simp [State.spawn, State.slotGiven]
      · simp [State.spawn, State.slotGiven, Thread.fresh]
  | claimed t code stored head sp mp tp hp hrun ht hne hdead hzombie hpoint hstored heq =>
      exact h.silent List.erase_subset
        (fun u hu => ⟨hid u hu, claimed_proj Thread.state hne (by rfl) (by rfl) u⟩) (l := [_]) rfl
        (by simp [stateVerdict, LawfulEntry])
  | scribble n th hdead hmain =>
      refine h.silent (List.Subset.refl _) (fun t ht => ⟨hid t ht, ?_⟩) (l := []) rfl (by simp)
      have hne : t ≠ n := fun e => hdead (e ▸ ht)
      exact congrArg Thread.state (Function.update_of_ne hne _ _)
  | reprioritize f rq hrq =>
      exact h.silent (List.Subset.refl _) (fun _ _ => ⟨rfl, rfl⟩) (l := []) rfl (by simp)
  | _ =>
      first
      | exact h.silent (List.Subset.refl _) (fun t ht => ⟨hid t ht, rfl⟩) (l := []) rfl (by simp)
      | exact h.silent (List.Subset.refl _) (fun t ht => ⟨hid t ht, rfl⟩) (l := [_]) rfl
          (by simp [stateVerdict, LawfulEntry])
      | exact h.silent (List.Subset.refl _)
          (fun t ht => ⟨hid t ht, proj_update Thread.state (by rfl) t⟩) (l := []) rfl (by simp)
      | exact h.silent (List.Subset.refl _)
          (fun t ht => ⟨hid t ht, proj_update Thread.state (by rfl) t⟩) (l := [_]) rfl
          (by simp [stateVerdict, LawfulEntry])

theorem release (h : LifecycleLaw s) (hwf : WellFormed s) {m : MutexId} (hr : Release m s s') :
    LifecycleLaw s' := by
  cases hr with
  | handOff t rest rq hq hrq =>
      exact h.wakeHead hwf hq rq (l := [.mutexReleased m s.self])
        (by simp [stateVerdict, LawfulEntry])
  | free hq =>
      exact h.silent (List.Subset.refl _) (fun _ _ => ⟨rfl, rfl⟩) (l := [_]) rfl
        (by simp [stateVerdict, LawfulEntry])

theorem acquire (h : LifecycleLaw s) (hwf : WellFormed s) {m : MutexId} {k : Point}
    (ha : Acquire m k s s') : LifecycleLaw s' := by
  cases ha with
  | take hfree =>
      exact h.silent (List.Subset.refl _) (fun _ _ => ⟨rfl, rfl⟩) (l := [_]) rfl
        (by simp [stateVerdict, LawfulEntry])
  | park hrun hold hvalid hheld hready => exact h.parkAt hwf hrun _ k
  | fail hfail => exact h

theorem act (h : LifecycleLaw s) (hwf : WellFormed s) (ha : Act i s s') : LifecycleLaw s' := by
  have hcur := hwf.inv.sched.current_mem
  cases ha with
  | lock m e hi huser ha => exact h.acquire hwf ha
  | unlock m e hi huser hvalid hheld hr => exact h.release hwf hr
  | condWait c m e hi hrun huser hready hr =>
      obtain ⟨-, hsame⟩ := hwf.inv.release_running hr hrun
      exact (h.release hwf hr).parkAt (hwf.release hr) (by rw [hsame, hrun]) _ _
  | condGiveUp c m e hi huser hready hr ha =>
      exact (h.release hwf hr).acquire (hwf.release hr) ha
  | relock c m e hi hk ha hb =>
      exact hb.rule i (h.acquire hwf ha) fun hm => (h.acquire hwf ha).move (hwf.acquire rfl ha) hm
  | join t slot own retval e hi hrun huser ht hne hlive hfree hslot hown hchain hready =>
      -- The target's record is written first, then the joiner blocks.
      let mid := s.modifyThread t fun th => { th with joinedBy := some s.currentThread }
      have hproj : ∀ u, (mid.threads u).id = (s.threads u).id ∧
          (mid.threads u).state = (s.threads u).state :=
        fun u => ⟨proj_update Thread.id (by rfl) u, proj_update Thread.state (by rfl) u⟩
      have hmid : LifecycleLaw mid :=
        h.silent (List.Subset.refl _) (fun u _ => hproj u) (l := []) rfl (by simp)
      have hself : mid.threads s.currentThread = s.running := Function.update_of_ne hne.symm _ _
      refine hmid.change (t := s.currentThread) (k := s.running.point) hcur ?_ rfl rfl ?_ ?_ rfl ?_
        .blocked
      · intro u hu heq
        rw [(hproj u).1, (hproj s.currentThread).1] at heq
        exact hwf.ids.inj u hu _ hcur heq
      · rw [hself]
      · rw [hself, hrun]
      · rw [hself, ← hrun]
        rfl
  | _ =>
      exact h.silent (List.Subset.refl _) (fun _ _ => ⟨rfl, rfl⟩) (l := [_]) rfl
        (by simp [stateVerdict, LawfulEntry])

end LifecycleLaw

/-- In every state of a regular run the states of the threads have followed
the lifecycle, and each wake-up was the one its thread waited for. -/
theorem lifecycleLaw_of_reach {b : Build} {s : State} (h : RegularReach b s) : LifecycleLaw s :=
  (Settled.reach h (fun _ _ hg => hg) settled_initial lifecycleLaw_initial
    (fun hwf _ hI _ ha => hI.act hwf ha) fun hwf hI hm => hI.move hwf hm).2

/-- A run in which a joiner is woken by the exit of its target. -/
theorem lifecycleLaw_of_reach_script : ∃ s, RegularReach .fifo s ∧
    .stateSet 0 .blocked .ready (.join 1 true) (some (.threadExit 1)) ∈ s.trace ∧
    LifecycleLaw s := by
  obtain ⟨s, hreach, hmem⟩ := exists_reach_of_run (step .fifo) Regular State.initial
    [.create 1, .plain (.threadJoin (some 1) true), .go, .plain (.threadExit 7)]
    (fun s => .stateSet 0 .blocked .ready (.join 1 true) (some (.threadExit 1)) ∈ s.trace)
    (by decide +kernel)
  exact ⟨s, hreach, hmem, lifecycleLaw_of_reach hreach⟩

/-- After a join that found no other thread ready, the exit of the target
wakes the former joiner out of a semaphore queue. -/
theorem not_lifecycleLaw_of_reach :
    ¬ ∀ b s, Reach (step b) ValidHandle State.initial s → LifecycleLaw s := by
  intro hall
  obtain ⟨s, hreach, hmem⟩ := exists_reach_of_run (step .fifo) ValidHandle State.initial
    [.plain (.threadSemInit (some 0) 0), .plain (.threadSemInit (some 1) 0), .create 1,
      .plain .threadYield, .go, .plain (.threadSemWait (some 0)), .go,
      .plain (.threadJoin (some 1) true), .plain (.threadSemPost (some 0)),
      .plain (.threadSemWait (some 1)), .go, .plain (.threadExit 7)]
    (fun s => .stateSet 0 .blocked .ready (.semWait 1) (some (.threadExit 1)) ∈ s.trace)
    (by decide +kernel)
  obtain ⟨past, -, -, hchange⟩ := (hall .fifo s hreach).lawful.of_mem hmem
  cases hchange with
  | woken h => exact h

end UserThreads
