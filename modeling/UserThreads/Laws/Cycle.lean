import UserThreads.History.Slots

/-!
# Cycles of joins

The chain test of `thread_join` compares slots, and a blocking join moves its
caller alone to the slot of the target: threads that wait for the caller stay
behind. The test therefore finds a cycle when the chain that the join would
close lies in one slot, and only then.
-/

namespace UserThreads

open Transition Relation

/-- `x` is blocked in `thread_join` on `y`. -/
def State.WaitsFor (s : State) (x y : Tid) : Prop :=
  x ∈ s.handles ∧ (s.threads x).state = .blocked ∧ (s.threads x).waitingFor = some y

instance (s : State) (x y : Tid) : Decidable (s.WaitsFor x y) :=
  inferInstanceAs (Decidable (_ ∧ _ ∧ _))

/-- From `t` to the running thread, each thread waits for the next one, and
all of them have the same slot. -/
def State.ChainInOneSlot (s : State) (t : Tid) : Prop :=
  ∃ r, TransGen (Within s.WaitsFor s.slotOf r) t s.currentThread

/-- A join on a thread that nobody has joined and that waits for the caller, directly
or through others, finds the chain between them in one slot, if a thread is ready. -/
def ClosesInOneSlot (s : State) (i : Input) : Prop :=
  ∀ t ∈ i.joinTarget, (s.threads t).joinedBy = none → s.readyQueue ≠ [] →
    TransGen s.WaitsFor t s.currentThread → s.ChainInOneSlot t

/-- No joins form a cycle. A join that would close one gets `EINVAL` where its target
has a joiner, and otherwise `EDEADLK` exactly when the chain lies in one slot or
nobody is ready. -/
structure CycleLaw (s : State) : Prop where
  acyclic : Acyclic s.WaitsFor
  refused : ∀ t ∈ s.handles, ∀ retval, s.ended = false → (s.threads t).joinedBy = none →
    TransGen s.WaitsFor t s.currentThread →
      ((threadJoin s (some t) retval).2 = some edeadlk ↔
        s.ChainInOneSlot t ∨ s.readyQueue = [])
  invalid : ∀ t ∈ s.handles, ∀ retval, (s.threads t).joinedBy ≠ none →
    TransGen s.WaitsFor t s.currentThread →
      threadJoin s (some t) retval = (s.setErrno .einval, some (-1))

section

variable {i : Input} {s s' : State} {x y : Tid}

theorem State.WaitsFor.joins (h : s.WaitsFor x y) : s.Joins x y := ⟨h.1, h.2.2⟩

/-- A joiner stays blocked as long as its target lives, and a target that waits
itself lives. -/
theorem Inv.waitsFor (h : Inv s) (hlive : (s.threads y).state ≠ .terminated) {u v : Tid}
    (hj : s.Joins u v) (hv : v = y ∨ ∃ w, s.Joins v w) : s.WaitsFor u v := by
  have hlive' : (s.threads v).state ≠ .terminated := by
    rcases hv with rfl | ⟨w, hw⟩
    · exact hlive
    · exact fun hdead => h.not_joins_of_dead hdead w hw
  exact ⟨hj.1, h.join.blocked u hj.1 v (h.joins_target hj) hlive', hj.2⟩

/-- A chain that ends in a live thread is a chain of blocked threads. -/
theorem Inv.waitsFor_of_joins (h : Inv s) (hlive : (s.threads y).state ≠ .terminated)
    (hpath : TransGen s.Joins x y) : TransGen s.WaitsFor x y :=
  transGen_of_links hpath fun _ _ hj hv => h.waitsFor hlive hj hv

theorem Inv.waitsFor_within (h : Inv s) (hlive : (s.threads y).state ≠ .terminated) {r : SlotRef}
    (hpath : TransGen (Within s.Joins s.slotOf r) x y) :
    TransGen (Within s.WaitsFor s.slotOf r) x y := by
  refine transGen_of_links hpath fun u v hlink hv => ⟨h.waitsFor hlive hlink.1 ?_, hlink.2⟩
  rcases hv with rfl | ⟨w, hw⟩
  · exact Or.inl rfl
  · exact Or.inr ⟨w, hw.1⟩

/-- The ends of a chain in one slot have the same slot. -/
theorem State.ChainInOneSlot.slotOf_eq {t : Tid} (h : s.ChainInOneSlot t) :
    ∃ r, s.slotOf t = some r ∧ s.slotOf s.currentThread = some r := by
  obtain ⟨r, hpath⟩ := h
  obtain ⟨u, hfirst, -⟩ := TransGen.head'_iff.mp hpath
  obtain ⟨v, -, hlast⟩ := TransGen.tail'_iff.mp hpath
  exact ⟨r, hfirst.2.1, hlast.2.2⟩

/-- Nobody starts to wait during a move. -/
theorem Move.waitingFor (hm : Move i s s') (hx : x ∈ s'.handles) :
    (s'.threads x).waitingFor = none ∨
      x ∈ s.handles ∧ (s'.threads x).waitingFor = (s.threads x).waitingFor := by
  cases hm with
  | claimed t code stored head sp mp tp hp hrun ht hne hdead hzombie hpoint hstored heq =>
      by_cases hxc : x = s.currentThread
      · subst x
        simp [State.claimed, hne.symm]
      · refine Or.inr ⟨List.mem_of_mem_erase hx, ?_⟩
        refine (proj_update Thread.waitingFor ?_ x).trans ?_
        · simp [hne]
        · simp [hxc]
  | spawned n r entry rest ref count cap index active rq hrun hk hpool hslot hrq =>
      by_cases hxn : x = n
      · subst x
        simp [State.spawn, Thread.fresh]
      · exact Or.inr ⟨(List.mem_cons.mp hx).resolve_left hxn,
          spawn_proj (s := s.slotGiven n ref count cap index active) Thread.waitingFor rfl hxn⟩
  | scribble n th hdead hmain =>
      have hne : x ≠ n := fun e => hdead (e ▸ hx)
      exact Or.inr ⟨hx, congrArg Thread.waitingFor (Function.update_of_ne hne _ _)⟩
  | reprioritize f rq hrq => exact Or.inr ⟨hx, rfl⟩
  | _ =>
      first
      | exact Or.inr ⟨hx, rfl⟩
      | exact Or.inr ⟨hx, proj_update Thread.waitingFor (by rfl) x⟩

theorem Move.joins (hm : Move i s s') (hj : s'.Joins x y) : s.Joins x y := by
  rcases hm.waitingFor hj.1 with hnone | ⟨hx, heq⟩
  · rw [hj.2] at hnone
    cases hnone
  · exact ⟨hx, heq.symm.trans hj.2⟩

theorem Release.waitingFor {m : MutexId} (hr : Release m s s') (x : Tid) :
    (s'.threads x).waitingFor = (s.threads x).waitingFor := by
  cases hr with
  | handOff t rest rq hq hrq => exact proj_update Thread.waitingFor (by rfl) x
  | free hq => rfl

theorem Acquire.waitingFor {m : MutexId} {k : Point} (ha : Acquire m k s s') (x : Tid) :
    (s'.threads x).waitingFor = (s.threads x).waitingFor := by
  cases ha with
  | take hfree => rfl
  | park hrun hold hvalid hheld hready => exact proj_update Thread.waitingFor (by rfl) x
  | fail hfail => rfl

/-- The join of `t` gets past the chain test: nobody has joined `t`, another thread is
ready, and the slots differ. -/
structure State.PassesTest (s : State) (t : Tid) : Prop where
  ne : t ≠ s.currentThread
  free : (s.threads t).joinedBy = none
  ready : s.readyQueue ≠ []
  slots : s.slotOf t ≠ s.slotOf s.currentThread

/-- A blocking join adds one link, from the caller to its target. Its target is
the head of its slot, so the slots were different. -/
theorem Act.joins (h : Inv s) (hslots : SlotInv s) (ha : Act i s s') (hj : s'.Joins x y) :
    s.Joins x y ∨ (x = s.currentThread ∧ i.joinTarget = some y ∧ s.PassesTest y) := by
  have hx : x ∈ s.handles := ha.handles.1 ▸ hj.1
  have hsame : (s'.threads x).waitingFor = (s.threads x).waitingFor → s.Joins x y :=
    fun heq => ⟨hx, heq.symm.trans hj.2⟩
  cases ha with
  | lock m e hi huser ha => exact Or.inl (hsame (ha.waitingFor x))
  | unlock m e hi huser hvalid hheld hr => exact Or.inl (hsame (hr.waitingFor x))
  | condWait c m e hi hrun huser hready hr =>
      exact Or.inl (hsame ((proj_update Thread.waitingFor (by rfl) x).trans (hr.waitingFor x)))
  | condGiveUp c m e hi huser hready hr ha =>
      exact Or.inl (hsame ((ha.waitingFor x).trans (hr.waitingFor x)))
  | relock c m e hi hk ha hb =>
      cases hb with
      | user hrun hk =>
          exact Or.inl (hsame ((proj_update Thread.waitingFor (by rfl) x).trans (ha.waitingFor x)))
      | switched hrun => exact Or.inl (hsame (ha.waitingFor x))
  | join t slot own retval e hi hrun huser ht hne hlive hfree hslot hown hchain hready =>
      by_cases hxc : x = s.currentThread
      · obtain rfl : t = y := by
          have hwait := hj.2
          rw [hxc] at hwait
          simpa [State.joinAt] using hwait
        refine Or.inr ⟨hxc, by rw [hi]; rfl, hne, hfree, hready, fun heq => ?_⟩
        refine hchain ⟨hslots.head_eq h ht hfree hslot, ?_⟩
        rw [State.slotOf, hslot, State.slotOf, ← State.running, hown] at heq
        exact (Option.some.inj heq).symm
      · refine Or.inl (hsame ?_)
        refine (congrArg Thread.waitingFor (Function.update_of_ne hxc _ _)).trans ?_
        exact proj_update Thread.waitingFor (by rfl) x
  | _ => exact Or.inl (hsame rfl)

/-- A join on a thread that waits for the caller does not get past the test. -/
theorem Act.acyclic (h : Inv s) (hslots : SlotInv s) (hac : Acyclic s.Joins)
    (hrun : s.running.state = .running) (hg : ClosesInOneSlot s i) (ha : Act i s s') :
    Acyclic s'.Joins := by
  by_cases hclose : ∃ t ∈ i.joinTarget, s.PassesTest t
  · obtain ⟨t, ht, hpasses⟩ := hclose
    refine hac.insert (c := s.currentThread) (t := t) (fun u v hj => ?_) fun hpath => ?_
    · rcases ha.joins h hslots hj with hold | ⟨hu, hv, -⟩
      · exact Or.inl hold
      · exact Or.inr ⟨hu, Option.some.inj (hv.symm.trans ht)⟩
    · have hlive : (s.threads s.currentThread).state ≠ .terminated := by
        rw [← State.running, hrun]
        decide
      have hchain := (reflTransGen_iff_eq_or_transGen.mp hpath).resolve_left hpasses.ne.symm
      have hone := hg t ht hpasses.free hpasses.ready (h.waitsFor_of_joins hlive hchain)
      obtain ⟨r, htr, hcr⟩ := hone.slotOf_eq
      exact hpasses.slots (htr.trans hcr.symm)
  · refine hac.mono fun u v hj => ?_
    rcases ha.joins h hslots hj with hold | ⟨-, hv, hpasses⟩
    · exact hold
    · exact absurd ⟨v, hv, hpasses⟩ hclose

/-- The verdict of `thread_join` on a live target that nobody has joined. -/
theorem threadJoin_refused (h : Inv s) (hslots : SlotInv s) (hrun : s.running.state = .running)
    {t : Tid} (ht : t ∈ s.handles) (hne : t ≠ s.currentThread)
    (hlive : (s.threads t).state ≠ .terminated) (hfree : (s.threads t).joinedBy = none)
    {slot own : SlotRef} (hslot : s.slotOf t = some slot)
    (hown : s.slotOf s.currentThread = some own) (retval : Bool) :
    (threadJoin s (some t) retval).2 = some edeadlk ↔ own = slot ∨ s.readyQueue = [] := by
  have hhead := hslots.head_eq h ht hfree hslot
  rw [State.slotOf] at hslot hown
  have heq : threadJoin s (some t) retval =
      if own = slot then (s.setErrno .edeadlk, some edeadlk)
      else joinBlock s t slot retval := by
    simp [threadJoin, hfree, hne, hlive, hslot, hown, hhead]
  rw [heq]
  by_cases hsame : own = slot
  · simp [hsame]
  · rw [if_neg hsame]
    cases hq : s.readyQueue with
    | nil => simp [(joinBlock_nil hne hq).1]
    | cons next rest =>
        obtain ⟨-, hnext⟩ := h.ready_head hrun hq
        simp [hsame, joinBlock_eq hne hnext hq]

/-- A caller that shares the slot of the head comes after it in the slot. -/
theorem SlotInv.chainInOneSlot (hslots : SlotInv s) (h : Inv s)
    (hrun : s.running.state = .running) {t : Tid} (ht : t ∈ s.handles)
    (hne : t ≠ s.currentThread) (hfree : (s.threads t).joinedBy = none) {r : SlotRef}
    (htr : s.slotOf t = some r) (hcr : s.slotOf s.currentThread = some r) : s.ChainInOneSlot t := by
  have hpath := hslots.headed s.currentThread h.sched.current_mem r hcr
  rw [hslots.head_eq h ht hfree htr] at hpath
  have hchain := (reflTransGen_iff_eq_or_transGen.mp hpath).resolve_left hne.symm
  refine ⟨r, h.waitsFor_within ?_ hchain⟩
  rw [← State.running, hrun]
  decide

end

/-- In every run whose closing joins find their chain in one slot, where they could
block, no joins form a cycle. -/
theorem cycleLaw_of_reach {b : Build} {s : State}
    (h : Reach (step b) (fun s i => Regular s i ∧ ClosesInOneSlot s i) State.initial s) :
    CycleLaw s := by
  have hstart : Acyclic State.initial.Joins := by
    intro x hcycle
    obtain ⟨y, hj, -⟩ := TransGen.head'_iff.mp hcycle
    cases hj.2
  obtain ⟨hsettled, hslots, hac⟩ := Settled.reach (I := fun s => SlotInv s ∧ Acyclic s.Joins) h
    (fun _ _ hg => hg.1) settled_initial ⟨slotInv_initial, hstart⟩
    (fun hwf hrun hI hg ha => ⟨hI.1.act hwf.inv ha, ha.acyclic hwf.inv hI.1 hI.2 hrun hg.2⟩)
    (fun hwf hI hm => ⟨hI.1.move hwf.inv hm, hI.2.mono fun _ _ => hm.joins⟩)
  have hinv := hsettled.sound.inv
  have hset := setUp_of_reach (h.mono fun _ _ hg => hg.1)
  have hwaits : Acyclic s.WaitsFor := hac.mono fun _ _ => State.WaitsFor.joins
  refine ⟨hwaits, fun t ht retval hended hfree hpath => ?_,
    fun t _ retval hjoined _ => if_pos hjoined⟩
  have hrun := hsettled.sound.runs hended
  have hcur := hinv.sched.current_mem
  have hne : t ≠ s.currentThread := fun heq => hwaits t (heq ▸ hpath)
  have hlive : (s.threads t).state ≠ .terminated := by
    obtain ⟨y, ⟨-, hblocked, -⟩, -⟩ := TransGen.head'_iff.mp hpath
    rw [hblocked]
    decide
  obtain ⟨slot, hslot⟩ := Option.isSome_iff_exists.mp (hset.slot_of_two ht hcur hne).1
  obtain ⟨own, hown⟩ := Option.isSome_iff_exists.mp (hset.slot_of_two ht hcur hne).2
  rw [threadJoin_refused hinv hslots hrun ht hne hlive hfree hslot hown]
  refine or_congr_left ⟨fun heq => ?_, fun hchain => ?_⟩
  · exact hslots.chainInOneSlot hinv hrun ht hne hfree hslot (heq ▸ hown)
  · obtain ⟨r, htr, hcr⟩ := hchain.slotOf_eq
    exact Option.some.inj ((hown.symm.trans hcr).trans (htr.symm.trans hslot))

/-- The target does not wait at all, or it waits for the caller in its slot. -/
def ShortChain (s : State) (i : Input) : Prop :=
  ∀ t ∈ i.joinTarget, (s.threads t).state ≠ .blocked ∨
    t ∈ s.handles ∧ (s.threads t).waitingFor = some s.currentThread ∧
      s.slotOf t = s.slotOf s.currentThread ∧ (s.slotOf t).isSome

instance (s : State) (i : Input) : Decidable (ShortChain s i) :=
  inferInstanceAs (Decidable (∀ t ∈ i.joinTarget, _ ∨ _))

theorem ShortChain.closes {s : State} {i : Input} (h : ShortChain s i) : ClosesInOneSlot s i := by
  intro t ht _ _ hpath
  obtain ⟨y, ⟨-, hblocked, -⟩, -⟩ := TransGen.head'_iff.mp hpath
  obtain ⟨hmem, hwait, hslot, hsome⟩ := (h t ht).resolve_left (absurd hblocked)
  obtain ⟨r, hr⟩ := Option.isSome_iff_exists.mp hsome
  exact ⟨r, .single ⟨⟨hmem, hblocked, hwait⟩, hr, hslot ▸ hr⟩⟩

/-- A run in which the second of two threads is refused the join that would
close the cycle. -/
theorem cycleLaw_of_reach_script : ∃ s,
    Reach (step .fifo) (fun s i => Regular s i ∧ ClosesInOneSlot s i) State.initial s ∧
      .returned 2 (.threadJoin (some 1) true) edeadlk ∈ s.trace ∧ s.WaitsFor 1 2 ∧ CycleLaw s := by
  obtain ⟨s, hreach, hmem, hwait⟩ := exists_reach_of_run (step .fifo)
    (fun s i => Regular s i ∧ ShortChain s i) State.initial
    [.create 1, .create 2, .plain .threadYield, .go, .plain (.threadJoin (some 2) true), .go,
      .plain (.threadJoin (some 1) true)]
    (fun s => .returned 2 (.threadJoin (some 1) true) edeadlk ∈ s.trace ∧ s.WaitsFor 1 2)
    (by decide +kernel)
  have hguarded : Reach (step .fifo) (fun s i => Regular s i ∧ ClosesInOneSlot s i) _ s :=
    hreach.mono fun s i hg => ⟨hg.1, hg.2.closes⟩
  exact ⟨s, hguarded, hmem, hwait, cycleLaw_of_reach hguarded⟩

/-- Three threads that join each other in the order of the chain, the first
one first, all block. -/
theorem not_acyclic_of_reach :
    ¬ ∀ b s, RegularReach b s → Acyclic s.WaitsFor := by
  intro hall
  obtain ⟨s, hreach, link₁, link₂, link₃⟩ := exists_reach_of_run (step .fifo) Regular State.initial
    [.create 1, .create 2, .create 3, .plain .threadYield, .go,
      .plain (.threadJoin (some 2) true), .go, .plain (.threadJoin (some 3) true), .go,
      .plain (.threadJoin (some 1) true)]
    (fun s => s.WaitsFor 1 2 ∧ s.WaitsFor 2 3 ∧ s.WaitsFor 3 1) (by decide +kernel)
  exact hall .fifo s hreach 1 (((TransGen.single link₁).tail link₂).tail link₃)

/-! The other direction of the test: what it refuses would deadlock. -/

/-- A `thread_create` has succeeded. -/
def State.Started (s : State) : Prop := ∃ id n, .created id n ∈ s.trace

/-- Threads that nobody has joined head their slots, and the chain test makes
a join return `EDEADLK` only where the target waits for the caller. -/
structure HeadLaw (s : State) : Prop where
  heads : s.Started → ∀ x ∈ s.handles, (s.threads x).state ≠ .terminated →
    (s.threads x).joinedBy = none → ∃ r, (s.threads x).headJoiner = some r ∧ s.headRefs r = x
  justified : ∀ t ∈ s.handles, ∀ retval, s.ended = false → t ≠ s.currentThread →
    threadJoin s (some t) retval = (s.setErrno .edeadlk, some edeadlk) →
      TransGen s.WaitsFor t s.currentThread

/-- An `EDEADLK` that leaves the state alone comes from the chain test. -/
theorem chainTest_of_refused {s : State} (h : Inv s) (hrun : s.running.state = .running) {t : Tid}
    {retval : Bool} (hne : t ≠ s.currentThread)
    (hrefused : threadJoin s (some t) retval = (s.setErrno .edeadlk, some edeadlk)) :
    (s.threads t).joinedBy = none ∧
      ∃ r, s.slotOf t = some r ∧ s.slotOf s.currentThread = some r := by
  unfold threadJoin at hrefused
  dsimp only at hrefused
  by_cases hfree : (s.threads t).joinedBy = none
  · refine ⟨hfree, ?_⟩
    simp only [hfree, ne_eq, not_true_eq_false, if_false, hne] at hrefused
    by_cases hdead : (s.threads t).state = .terminated
    · simp [hdead, joinTerminated, edeadlk] at hrefused
    · simp only [hdead, if_false] at hrefused
      split at hrefused
      next slot own hslot hown =>
        by_cases htest : s.headRefs slot = t ∧ own = slot
        · exact ⟨slot, hslot, htest.2 ▸ hown⟩
        · rw [if_neg htest] at hrefused
          cases hq : s.readyQueue with
          | nil =>
              have hwritten : ((joinBlock s t slot retval).1.threads t).joinedBy =
                  some s.currentThread := (joinBlock_nil hne hq).2
              rw [hrefused] at hwritten
              rw [show (s.setErrno .edeadlk).threads = s.threads from rfl, hfree] at hwritten
              cases hwritten
          | cons next rest =>
              obtain ⟨-, hnext⟩ := h.ready_head hrun hq
              rw [joinBlock_eq hne hnext hq] at hrefused
              cases congrArg Prod.snd hrefused
      next => simp [edeadlk] at hrefused
  · simp [hfree, edeadlk] at hrefused

/-- In every state of a regular run the recorded heads are heads, and a join
is refused for a chain that exists. -/
theorem headLaw_of_reach {b : Build} {s : State} (h : RegularReach b s) : HeadLaw s := by
  have hinv := h.sound.inv
  have hslots := slotInv_of_reach h
  have hset := setUp_of_reach h
  constructor
  · rintro ⟨id, n, hcreated⟩ x hx - hfree
    have hsome := hset.slot_isSome (hset.created id n hcreated) hx
    obtain ⟨r, hr⟩ := Option.isSome_iff_exists.mp hsome
    exact ⟨r, hr, hslots.head_eq hinv hx hfree hr⟩
  · intro t ht retval hended hne hrefused
    have hrun := h.sound.runs hended
    obtain ⟨hfree, r, htr, hcr⟩ := chainTest_of_refused hinv hrun hne hrefused
    obtain ⟨q, hpath⟩ := hslots.chainInOneSlot hinv hrun ht hne hfree htr hcr
    exact TransGen.mono (fun _ _ hlink => hlink.1) _ _ hpath

/-- A run in which a struct is recycled after a join, and its second thread is
refused the join that would close a cycle. -/
theorem headLaw_of_reach_script : ∃ s, RegularReach .fifo s ∧ s.Started ∧
    .returned 2 (.threadJoin (some 0) true) edeadlk ∈ s.trace ∧ HeadLaw s := by
  obtain ⟨s, hreach, hcreated, hmem⟩ := exists_reach_of_run (step .fifo) Regular State.initial
    [.create 1, .plain .threadYield, .go, .plain (.threadExit 7), .go,
      .plain (.threadJoin (some 1) true), .create 2, .plain (.threadJoin (some 1) true), .go,
      .plain (.threadJoin (some 0) true)]
    (fun s => .created 2 1 ∈ s.trace ∧ .returned 2 (.threadJoin (some 0) true) edeadlk ∈ s.trace)
    (by decide +kernel)
  exact ⟨s, hreach, ⟨2, 1, hcreated⟩, hmem, headLaw_of_reach hreach⟩

end UserThreads
