import UserThreads.Operations.Step

/-!
# Identities

A struct is recycled, an `id` is not. The history speaks of threads by their
`id`, so everything that is read off it rests on two facts: live threads have
different ids, and the history names no id that has not been given out.
-/

namespace UserThreads

open Transition

/-- The id of the thread that an entry of the history is about. -/
def Event.subject : Event → Option Nat
  | .created id _ => some id
  | .stateSet id _ _ _ _ => some id
  | .exited id _ => some id
  | .joined target _ _ => some target
  | .parked _ id => some id
  | .woken _ id => some id
  | .mutexSet _ _ => none
  | .mutexTaken _ id => some id
  | .mutexReleased _ id => some id
  | .semSet _ _ => none
  | .semTaken _ id => some id
  | .semPosted _ id => some id
  | .condSet _ => none
  | .signalSent id _ => some id
  | .signalConsumed id _ _ => some id
  | .returned id _ _ => some id

/-- The entry is about a thread that exists. -/
def State.Names (s : State) (e : Event) : Prop :=
  ∀ id ∈ e.subject, ∃ t ∈ s.handles, id = (s.threads t).id

/-- The entries that a piece of code adds to the history are about threads
that exist. -/
def Extends (s s' : State) : Prop :=
  ∃ evs, s'.trace = evs ++ s.trace ∧ ∀ e ∈ evs, s.Names e

namespace Extends

variable {s s' : State}

theorem none (htrace : s'.trace = s.trace) : Extends s s' :=
  ⟨[], htrace, by simp⟩

theorem one {e : Event} {t : Tid} (ht : t ∈ s.handles) (htrace : s'.trace = e :: s.trace)
    (he : ∀ id ∈ e.subject, id = (s.threads t).id) : Extends s s' := by
  refine ⟨[e], htrace, ?_⟩
  intro e' he' id hid
  obtain rfl := List.mem_singleton.mp he'
  exact ⟨t, ht, he id hid⟩

theorem two {e e' : Event} {t u : Tid} (ht : t ∈ s.handles) (hu : u ∈ s.handles)
    (htrace : s'.trace = e :: e' :: s.trace) (he : ∀ id ∈ e.subject, id = (s.threads t).id)
    (he' : ∀ id ∈ e'.subject, id = (s.threads u).id) : Extends s s' := by
  refine ⟨[e, e'], htrace, ?_⟩
  intro x hx id hid
  rcases List.mem_pair.mp hx with rfl | rfl
  · exact ⟨t, ht, he id hid⟩
  · exact ⟨u, hu, he' id hid⟩

theorem trans {s₁ : State} (h₁ : Extends s s₁) (h₂ : Extends s₁ s')
    (hsub : s₁.handles ⊆ s.handles)
    (hid : ∀ t ∈ s₁.handles, (s₁.threads t).id = (s.threads t).id) : Extends s s' := by
  obtain ⟨evs₁, htrace₁, hnames₁⟩ := h₁
  obtain ⟨evs₂, htrace₂, hnames₂⟩ := h₂
  refine ⟨evs₂ ++ evs₁, by rw [htrace₂, htrace₁, List.append_assoc], ?_⟩
  intro e he id hsubj
  rcases List.mem_append.mp he with he | he
  · obtain ⟨t, ht, rfl⟩ := hnames₂ e he id hsubj
    exact ⟨t, hsub ht, hid t ht⟩
  · exact hnames₁ e he id hsubj

end Extends

structure IdInv (s : State) : Prop where
  positive : 0 < s.nextThreadId
  bound : ∀ t ∈ s.handles, (s.threads t).id < s.nextThreadId
  inj : ∀ t ∈ s.handles, ∀ u ∈ s.handles, (s.threads t).id = (s.threads u).id → t = u
  past : ∀ e ∈ s.trace, ∀ id ∈ e.subject, id < s.nextThreadId

theorem idInv_initial : IdInv State.initial where
  positive := Nat.one_pos
  bound := by simp [State.initial, Thread.main]
  inj := by simp [State.initial]
  past := by simp [State.initial]

/-- Nothing but a creation gives out an id. -/
theorem IdInv.extend {s s' : State} (h : IdInv s) (hsub : s'.handles ⊆ s.handles)
    (hid : ∀ t ∈ s.handles, (s'.threads t).id = (s.threads t).id)
    (hnext : s'.nextThreadId = s.nextThreadId) (hext : Extends s s') : IdInv s' where
  positive := hnext ▸ h.positive
  bound := by
    intro t ht
    rw [hid t (hsub ht), hnext]
    exact h.bound t (hsub ht)
  inj := by
    intro t ht u hu heq
    rw [hid t (hsub ht), hid u (hsub hu)] at heq
    exact h.inj t (hsub ht) u (hsub hu) heq
  past := by
    obtain ⟨evs, htrace, hnames⟩ := hext
    intro e he id hsubj
    rw [hnext]
    rw [htrace] at he
    rcases List.mem_append.mp he with he | he
    · obtain ⟨t, ht, rfl⟩ := hnames e he id hsubj
      exact h.bound t ht
    · exact h.past e he id hsubj

section

variable {i : Input} {s s' : State}

/-- What a claim leaves alone in the two records it writes, it leaves alone in
every record. -/
theorem claimed_proj {β : Type*} (π : Thread → β) {t : Tid} (hne : t ≠ s.currentThread)
    {code : Int} {stored : Option Value} {head : Option SlotRef} {sp : List StackEntry}
    {mp : List Addr} {tp hp : List Tid}
    (hcur : π { s.running with waitingFor := none, point := .user } =
      π (s.threads s.currentThread))
    (htarget : π { s.threads t with headJoiner := head } = π (s.threads t)) (u : Tid) :
    π ((s.claimed t code stored head sp mp tp hp).threads u) = π (s.threads u) := by
  refine (proj_update π ?_ u).trans (proj_update π hcur u)
  rw [Function.update_of_ne hne]
  exact htarget

/-- The same for the two records that a blocking join writes. -/
theorem joinAt_proj {β : Type*} (π : Thread → β) {t : Tid} (hne : t ≠ s.currentThread)
    {slot : SlotRef} {retval : Bool}
    (htarget : π { s.threads t with joinedBy := some s.currentThread } = π (s.threads t))
    (hcur : π { s.running with
        headJoiner := some slot
        state := .blocked
        waitingFor := some t
        point := .join t retval } = π (s.threads s.currentThread)) (u : Tid) :
    π ((s.joinAt t slot retval).threads u) = π (s.threads u) := by
  refine (proj_update π ?_ u).trans (proj_update π htarget u)
  rw [Function.update_of_ne hne.symm]
  exact hcur

/-- A creation touches one other record, the creator's, and there the point. -/
theorem spawn_proj {β : Type*} (π : Thread → β) {n : Tid} {entry : StackEntry}
    {rest : List StackEntry} {ref : SlotRef} {rq : List Tid}
    (hcur : π { s.running with point := .user } = π (s.threads s.currentThread)) {u : Tid}
    (hne : u ≠ n) :
    π ((s.spawn n entry rest ref rq).threads u) = π (s.threads u) := by
  refine (congrArg π (Function.update_of_ne hne _ _)).trans ?_
  exact proj_update π hcur u

/-- A move writes no live thread's id. -/
theorem Move.id_eq (h : Inv s) (hm : Move i s s') {t : Tid} (ht : t ∈ s.handles) :
    (s'.threads t).id = (s.threads t).id := by
  cases hm with
  | scribble n th hdead hmain =>
      have hne : t ≠ n := fun e => hdead (e ▸ ht)
      exact congrArg Thread.id (Function.update_of_ne hne _ _)
  | claimed u code stored head sp mp tp hp hrun hu hne hdead hzombie hpoint hstored heq =>
      exact claimed_proj Thread.id hne (by rfl) (by rfl) t
  | spawned n r entry rest ref count cap index active rq hrun hk hpool hslot hrq =>
      obtain ⟨hfresh, -, -⟩ := h.mem.held_fresh h.sched.current_mem (congrArg Point.held hk)
      have hne : t ≠ n := fun e => hfresh (e ▸ ht)
      exact spawn_proj (s := s.slotGiven n ref count cap index active) Thread.id rfl hne
  | reprioritize f rq hrq => rfl
  | _ => first | rfl | exact proj_update Thread.id (by rfl) t

theorem Release.id_eq {m : MutexId} (hr : Release m s s') (t : Tid) :
    (s'.threads t).id = (s.threads t).id := by
  cases hr with
  | handOff u rest rq hq hrq => exact proj_update Thread.id (by rfl) t
  | free hq => rfl

theorem Acquire.id_eq {m : MutexId} {k : Point} (ha : Acquire m k s s') (t : Tid) :
    (s'.threads t).id = (s.threads t).id := by
  cases ha with
  | take hfree => rfl
  | park hrun hold hvalid hheld hready => exact proj_update Thread.id (by rfl) t
  | fail hfail => rfl

theorem Act.id_eq (ha : Act i s s') (t : Tid) : (s'.threads t).id = (s.threads t).id := by
  cases ha with
  | lock m e hi huser ha => exact ha.id_eq t
  | unlock m e hi huser hvalid hheld hr => exact hr.id_eq t
  | condWait c m e hi hrun huser hready hr =>
      exact (proj_update Thread.id (by rfl) t).trans (hr.id_eq t)
  | condGiveUp c m e hi huser hready hr ha => exact (ha.id_eq t).trans (hr.id_eq t)
  | relock c m e hi hk ha hb =>
      cases hb with
      | user hrun hk => exact (proj_update Thread.id (by rfl) t).trans (ha.id_eq t)
      | switched hrun => exact ha.id_eq t
  | join u slot own retval e hi hrun huser hu hne hlive hfree hslot hown hchain hready =>
      exact joinAt_proj Thread.id hne (by rfl) (by rfl) t
  | _ => rfl

theorem Release.handles {m : MutexId} (hr : Release m s s') : s'.handles = s.handles := by
  cases hr <;> rfl

theorem Acquire.handles {m : MutexId} {k : Point} (ha : Acquire m k s s') :
    s'.handles = s.handles := by
  cases ha <;> rfl

/-- An act creates and claims no thread. -/
theorem Act.handles (ha : Act i s s') :
    s'.handles = s.handles ∧ s'.nextThreadId = s.nextThreadId := by
  cases ha with
  | lock m e hi huser ha => cases ha <;> exact ⟨rfl, rfl⟩
  | unlock m e hi huser hvalid hheld hr => cases hr <;> exact ⟨rfl, rfl⟩
  | condWait c m e hi hrun huser hready hr => cases hr <;> exact ⟨rfl, rfl⟩
  | condGiveUp c m e hi huser hready hr ha => cases hr <;> cases ha <;> exact ⟨rfl, rfl⟩
  | relock c m e hi hk ha hb => cases ha <;> cases hb <;> exact ⟨rfl, rfl⟩
  | _ => exact ⟨rfl, rfl⟩

theorem extends_parkAt (h : Inv s) (q : QueueId) (k : Point) : Extends s (s.parkAt q k) :=
  .two h.sched.current_mem h.sched.current_mem rfl (by simp [Event.subject, State.self])
    (by simp [Event.subject, State.self])

/-- A post or a release, and the wake-up that goes with it. -/
theorem extends_wakeHead (h : Inv s) {q : QueueId} {t : Tid} {rest : List Tid}
    (hq : s.waitingQueue q = t :: rest) (rq : List Tid) {e : Event}
    (he : ∀ id ∈ e.subject, id = s.self) : Extends s ((s.emit e).wakeHead q t rest rq) := by
  have ht := (h.sched.of_waiting hq).1
  have hemit : Extends s (s.emit e) := .one h.sched.current_mem rfl he
  refine hemit.trans (.two ht ht rfl ?_ ?_) (List.Subset.refl _) (fun _ _ => rfl)
  · simp [Event.subject]
  · simp [Event.subject]

theorem Release.extends {m : MutexId} (h : Inv s) (hr : Release m s s') : Extends s s' := by
  cases hr with
  | handOff t rest rq hq hrq => exact extends_wakeHead h hq rq (by simp [Event.subject])
  | free hq => exact .one h.sched.current_mem rfl (by simp [Event.subject, State.self])

theorem Acquire.extends {m : MutexId} {k : Point} (h : Inv s) (ha : Acquire m k s s') :
    Extends s s' := by
  cases ha with
  | take hfree => exact .one h.sched.current_mem rfl (by simp [Event.subject, State.self])
  | park hrun hold hvalid hheld hready => exact extends_parkAt h _ k
  | fail hfail => exact .none rfl

theorem Act.extends (h : Inv s) (ha : Act i s s') : Extends s s' := by
  have hcur := h.sched.current_mem
  cases ha with
  | lock m e hi huser ha => exact ha.extends h
  | unlock m e hi huser hvalid hheld hr => exact hr.extends h
  | condWait c m e hi hrun huser hready hr =>
      exact (hr.extends h).trans (extends_parkAt (h.release hr) _ _)
        (hr.handles ▸ List.Subset.refl _) fun t _ => hr.id_eq t
  | condGiveUp c m e hi huser hready hr ha =>
      exact (hr.extends h).trans (ha.extends (h.release hr)) (hr.handles ▸ List.Subset.refl _)
        fun t _ => hr.id_eq t
  | relock c m e hi hk ha hb =>
      obtain ⟨evs, htrace, hnames⟩ := ha.extends h
      cases hb <;> exact ⟨evs, htrace, hnames⟩
  | join t slot own retval e hi hrun huser ht hne hlive hfree hslot hown hchain hready =>
      exact .one hcur rfl (by simp [Event.subject, State.self])
  | _ => exact .one hcur rfl (by simp [Event.subject])

/-- A move speaks of threads that exist, unless it creates one. -/
theorem Move.extends (h : Inv s) (hm : Move i s s') (hnew : s'.handles ⊆ s.handles) :
    Extends s s' := by
  have hcur := h.sched.current_mem
  cases hm with
  | spawned n r entry rest ref count cap index active rq hrun hk hpool hslot hrq =>
      obtain ⟨hfresh, -, -⟩ := h.mem.held_fresh hcur (congrArg Point.held hk)
      exact absurd (hnew List.mem_cons_self) hfresh
  | condWake c t rest rq hq hrq =>
      have ht := (h.sched.of_waiting hq).1
      exact .two ht ht rfl (by simp [Event.subject]) (by simp [Event.subject])
  | semPostWake sm t rest rq hq hrq => exact extends_wakeHead h hq rq (by simp [Event.subject])
  | dispatch next rq hrun hrq =>
      have hnext := ((h.sched.ready.mem_iff next).mp (hrq.mem_iff.mp List.mem_cons_self)).1
      exact .one hnext rfl (by simp [Event.subject])
  | wakeJoiner d j rq hd hdead hj hblocked hrq =>
      exact .one (h.join.joiner d hd j hj).1 rfl (by simp [Event.subject])
  | claimed t code stored head sp mp tp hp hrun ht hne hdead hzombie hpoint hstored heq =>
      exact .one ht rfl (by simp [Event.subject])
  | signalSend t sig hsig ht hno => exact .one ht rfl (by simp [Event.subject])
  | signalWake t sig rq hsig ht hblocked hwait hset hrq =>
      exact .two ht ht rfl (by simp [Event.subject]) (by simp [Event.subject])
  | _ =>
      first
      | exact .none rfl
      | exact .one hcur rfl (by simp [Event.subject, State.self])
      | exact .two hcur hcur rfl (by simp [Event.subject, State.self])
          (by simp [Event.subject, State.self])

/-- A move creates one thread, with the next id, or none. -/
theorem Move.creates (h : Inv s) (hm : Move i s s') :
    s'.handles ⊆ s.handles ∧ s'.nextThreadId = s.nextThreadId ∨
    ∃ n, n ∉ s.handles ∧ s'.handles = n :: s.handles ∧ (s'.threads n).id = s.nextThreadId ∧
      s'.nextThreadId = s.nextThreadId + 1 ∧ s'.trace = .created s.nextThreadId n :: s.trace := by
  cases hm with
  | spawned n r entry rest ref count cap index active rq hrun hk hpool hslot hrq =>
      obtain ⟨hfresh, -, -⟩ := h.mem.held_fresh h.sched.current_mem (congrArg Point.held hk)
      refine Or.inr ⟨n, hfresh, rfl, ?_, rfl, rfl⟩
      simp [State.spawn, State.slotGiven]
  | claimed t code stored head sp mp tp hp hrun ht hne hdead hzombie hpoint hstored heq =>
      exact Or.inl ⟨List.erase_subset, rfl⟩
  | _ => exact Or.inl ⟨List.Subset.refl _, rfl⟩

theorem IdInv.move (hid : IdInv s) (h : Inv s) (hm : Move i s s') : IdInv s' := by
  rcases hm.creates h with ⟨hsub, hnext⟩ | ⟨n, hfresh, hhandles, hn, hnext, htrace⟩
  · exact hid.extend hsub (fun t ht => hm.id_eq h ht) hnext (hm.extends h hsub)
  · -- The new thread gets an id that neither a thread nor the history has.
    have hold : ∀ t ∈ s'.handles, t ≠ n → t ∈ s.handles := by
      intro t ht hne
      rw [hhandles] at ht
      exact (List.mem_cons.mp ht).resolve_left hne
    have hlt : ∀ t ∈ s'.handles, t ≠ n → (s'.threads t).id < s.nextThreadId := by
      intro t ht hne
      rw [hm.id_eq h (hold t ht hne)]
      exact hid.bound t (hold t ht hne)
    constructor
    · omega
    · intro t ht
      by_cases hne : t = n
      · rw [hne, hn]
        omega
      · have := hlt t ht hne
        omega
    · intro t ht u hu heq
      by_cases htn : t = n <;> by_cases hun : u = n
      · rw [htn, hun]
      · have := hlt u hu hun
        rw [← heq, htn, hn] at this
        omega
      · have := hlt t ht htn
        rw [heq, hun, hn] at this
        omega
      · rw [hm.id_eq h (hold t ht htn), hm.id_eq h (hold u hu hun)] at heq
        exact hid.inj t (hold t ht htn) u (hold u hu hun) heq
    · intro e he id hsubj
      rw [htrace] at he
      rcases List.mem_cons.mp he with rfl | he
      · obtain rfl : s.nextThreadId = id := by simpa [Event.subject] using hsubj
        omega
      · have := hid.past e he id hsubj
        omega

theorem IdInv.release {m : MutexId} (hid : IdInv s) (h : Inv s) (hr : Release m s s') :
    IdInv s' := by
  refine hid.extend (hr.handles ▸ List.Subset.refl _) (fun t _ => hr.id_eq t) ?_ (hr.extends h)
  cases hr <;> rfl

theorem IdInv.acquire {m : MutexId} {k : Point} (hid : IdInv s) (h : Inv s)
    (ha : Acquire m k s s') : IdInv s' := by
  refine hid.extend (ha.handles ▸ List.Subset.refl _) (fun t _ => ha.id_eq t) ?_ (ha.extends h)
  cases ha <;> rfl

theorem IdInv.act (hid : IdInv s) (h : Inv s) (ha : Act i s s') : IdInv s' :=
  hid.extend (ha.handles.1 ▸ List.Subset.refl _) (fun t _ => ha.id_eq t) ha.handles.2 (ha.extends h)

end

/-- The invariant together with what the history may name. -/
structure WellFormed (s : State) : Prop where
  inv : Inv s
  ids : IdInv s

namespace WellFormed

variable {i : Input} {s s' : State}

theorem move (h : WellFormed s) (hm : Move i s s') : WellFormed s' :=
  ⟨h.inv.move hm, h.ids.move h.inv hm⟩

theorem act (h : WellFormed s) (ha : Act i s s') : WellFormed s' :=
  ⟨h.inv.act ha, h.ids.act h.inv ha⟩

theorem release {m : MutexId} (h : WellFormed s) (hr : Release m s s') : WellFormed s' :=
  ⟨h.inv.release hr, h.ids.release h.inv hr⟩

theorem acquire {m : MutexId} {k : Point} (h : WellFormed s) (hk : k.queue = some (.mutex m))
    (ha : Acquire m k s s') : WellFormed s' :=
  ⟨h.inv.acquire hk ha, h.ids.acquire h.inv ha⟩

/-- A property that moves keep is kept by any number of them. -/
theorem moves {I : State → Prop} (h : WellFormed s) (hI : I s) (hm : Moves i s s')
    (hmove : ∀ {s s' : State}, WellFormed s → I s → Move i s s' → I s') :
    WellFormed s' ∧ I s' := by
  induction hm with
  | refl => exact ⟨h, hI⟩
  | tail _ hstep ih => exact ⟨ih.1.move hstep, hmove ih.1 ih.2 hstep⟩

/-- A property that the act of a stretch keeps, and every move, is kept by the
whole stretch. -/
theorem stretch {I : State → Prop} (h : WellFormed s) (hI : I s) (hs : Stretch i s s')
    (hact : ∀ {s' : State}, Act i s s' → I s')
    (hmove : ∀ {s s' : State}, WellFormed s → I s → Move i s s' → I s') :
    WellFormed s' ∧ I s' := by
  rcases hs with hm | ⟨s₁, ha, hm⟩
  · exact h.moves hI hm hmove
  · exact (h.act ha).moves (hact ha) hm hmove

end WellFormed

/-- What holds between the stretches of a regular run. -/
structure Settled (s : State) : Prop where
  sound : Sound s
  ids : IdInv s

theorem Settled.wellFormed {s : State} (h : Settled s) : WellFormed s := ⟨h.sound.inv, h.ids⟩

theorem settled_initial : Settled State.initial := ⟨sound_initial, idInv_initial⟩

/-- It is enough for a step to keep a property that the act of its stretch
keeps it, and that every move does. -/
theorem Settled.step {b : Build} {s s' : State} {i : Input} {I : State → Prop} (h : Settled s)
    (hI : I s) (hg : Regular s i) (hs : UserThreads.step b s i = some s')
    (hact : ∀ {s' : State}, s.running.state = .running → Act i s s' → I s')
    (hmove : ∀ {s s' : State}, WellFormed s → I s → Move i s s' → I s') : Settled s' ∧ I s' := by
  have hstretch := (step_completed h.sound hg hs).stretch
  have hrun := h.sound.runs (ended_of_step hs)
  have hkept := h.wellFormed.stretch hI hstretch (hact hrun) hmove
  exact ⟨⟨h.sound.step hg hs, hkept.1.ids⟩, hkept.2⟩

/-- The rule by which properties of the history are proved along a run. -/
theorem Settled.reach {b : Build} {guard : State → Input → Prop} {s₀ s : State}
    {I : State → Prop} (hreach : Reach (UserThreads.step b) guard s₀ s)
    (hguard : ∀ s i, guard s i → Regular s i) (h₀ : Settled s₀) (hI : I s₀)
    (hact : ∀ {s s' : State} {i : Input}, WellFormed s → s.running.state = .running → I s →
      guard s i → Act i s s' → I s')
    (hmove : ∀ {s s' : State} {i : Input}, WellFormed s → I s → Move i s s' → I s') :
    Settled s ∧ I s := by
  refine hreach.invariant (I := fun s => Settled s ∧ I s) ⟨h₀, hI⟩ ?_
  rintro s s' i - ⟨h, hI⟩ hg hstep
  exact h.step hI (hguard s i hg) hstep (fun hrun => hact h.wellFormed hrun hI hg) hmove

theorem RegularReach.settled {b : Build} {s : State} (h : RegularReach b s) : Settled s :=
  (Settled.reach (I := fun _ => True) h (fun _ _ hg => hg) settled_initial trivial
    (fun _ _ _ _ _ => trivial) fun _ _ _ => trivial).1

/-- `s` comes after `s₀`: the history has grown, and a thread with an id of
that time has been there all along. -/
structure Later (s₀ s : State) : Prop where
  history : s₀.trace <:+ s.trace
  next : s₀.nextThreadId ≤ s.nextThreadId
  same : ∀ t ∈ s.handles, (s.threads t).id < s₀.nextThreadId →
    t ∈ s₀.handles ∧ (s₀.threads t).id = (s.threads t).id

namespace Later

variable {i : Input} {s₀ s s' : State}

theorem refl (s : State) : Later s s :=
  ⟨List.suffix_refl _, Nat.le_refl _, fun _ ht _ => ⟨ht, rfl⟩⟩

/-- Nothing is created, and entries are added to the history. -/
theorem extend (h : Later s₀ s) (hsub : s'.handles ⊆ s.handles)
    (hid : ∀ t ∈ s.handles, (s'.threads t).id = (s.threads t).id)
    (hnext : s'.nextThreadId = s.nextThreadId) (hext : Extends s s') : Later s₀ s' := by
  obtain ⟨evs, htrace, -⟩ := hext
  refine ⟨?_, by rw [hnext]; exact h.next, fun t ht hlt => ?_⟩
  · rw [htrace]
    exact h.history.trans (List.suffix_append evs s.trace)
  · rw [hid t (hsub ht)] at hlt ⊢
    exact h.same t (hsub ht) hlt

theorem move (h : Later s₀ s) (hinv : Inv s) (hm : Move i s s') : Later s₀ s' := by
  rcases hm.creates hinv with ⟨hsub, hnext⟩ | ⟨n, hfresh, hhandles, hn, hnext, htrace⟩
  · exact h.extend hsub (fun t ht => hm.id_eq hinv ht) hnext (hm.extends hinv hsub)
  · have hle := h.next
    refine ⟨?_, by omega, fun t ht hlt => ?_⟩
    · rw [htrace]
      exact h.history.trans (List.suffix_cons _ _)
    · rw [hhandles] at ht
      rcases List.mem_cons.mp ht with rfl | hold
      · omega
      · rw [hm.id_eq hinv hold] at hlt ⊢
        exact h.same t hold hlt

theorem act (h : Later s₀ s) (hinv : Inv s) (ha : Act i s s') : Later s₀ s' := by
  obtain ⟨hhandles, hnext⟩ := ha.handles
  refine h.extend ?_ (fun t _ => ha.id_eq t) hnext (ha.extends hinv)
  rw [hhandles]
  exact List.Subset.refl _

/-- The states of a regular run are later than the one where it starts. -/
theorem of_reach {b : Build} {guard : State → Input → Prop}
    (hreach : Reach (UserThreads.step b) guard s₀ s) (hguard : ∀ s i, guard s i → Regular s i)
    (h₀ : Settled s₀) : Settled s ∧ Later s₀ s :=
  Settled.reach hreach hguard h₀ (refl s₀) (fun hwf _ h _ ha => h.act hwf.inv ha)
    fun hwf h hm => h.move hwf.inv hm

end Later

end UserThreads
