import UserThreads.Laws.Fault
import UserThreads.Model.ForkJoin
import UserThreads.Operations.Advance

/-!
# What a program sees of a call

The calls that fork-join programs make, as the threads of the program see them:
where the caller stands afterwards, who still exists, and the result that an
exit leaves for the join.
-/

namespace UserThreads

open Transition

/-- What a thread shows to the one that joins it. -/
def Thread.face (th : Thread) : Nat × Value × Bool × Bool :=
  (th.id, th.retval, th.stackOverflow, decide (th.state = .terminated))

theorem Thread.face_id {th th' : Thread} (h : th'.face = th.face) : th'.id = th.id :=
  congrArg Prod.fst h

theorem Thread.face_retval {th th' : Thread} (h : th'.face = th.face) : th'.retval = th.retval :=
  congrArg (·.2.1) h

theorem Thread.face_stackOverflow {th th' : Thread} (h : th'.face = th.face) :
    th'.stackOverflow = th.stackOverflow :=
  congrArg (·.2.2.1) h

theorem Thread.face_dead {th th' : Thread} (h : th'.face = th.face) :
    th'.state = .terminated ↔ th.state = .terminated := by
  simpa [Thread.face] using congrArg (·.2.2.2) h

/-- The thread `c` gets to the point `k`, and no thread that exists looks
different otherwise. -/
structure Shows (c : Tid) (k : Point) (s s' : State) : Prop where
  face : ∀ t ∈ s.handles, (s'.threads t).face = (s.threads t).face
  point : ∀ t ∈ s.handles, t ≠ c → (s'.threads t).point = (s.threads t).point
  own : (s'.threads c).point = k
  blocked : ∀ t ∈ s.handles, t ≠ c → (s'.threads t).state = .blocked →
    (s.threads t).state = .blocked
  ended : s'.ended = s.ended

theorem Reprioritized.same {s s' : State} (h : Reprioritized s s') :
    s'.handles = s.handles ∧ s'.currentThread = s.currentThread ∧
      ∀ t, (s'.threads t).state = (s.threads t).state := by
  obtain ⟨f, rq, -, rfl⟩ := h
  exact ⟨rfl, rfl, fun _ => rfl⟩

namespace Shows

variable {c : Tid} {k k' : Point} {s s₁ s' : State}

theorem trans (h : Shows c k s s₁) (h' : Shows c k' s₁ s') (hhandles : s₁.handles = s.handles) :
    Shows c k' s s' where
  face := fun t ht => (h'.face t (hhandles ▸ ht)).trans (h.face t ht)
  point := fun t ht hne => (h'.point t (hhandles ▸ ht) hne).trans (h.point t ht hne)
  own := h'.own
  blocked := fun t ht hne hb => h.blocked t ht hne (h'.blocked t (hhandles ▸ ht) hne hb)
  ended := h'.ended.trans h.ended

/-- Records are written in fields that nobody sees. -/
theorem aside (hface : ∀ t ∈ s.handles, (s'.threads t).face = (s.threads t).face)
    (hpoint : ∀ t, (s'.threads t).point = (s.threads t).point)
    (hstate : ∀ t ∈ s.handles, (s'.threads t).state = (s.threads t).state)
    (hended : s'.ended = s.ended) (c : Tid) : Shows c (s.threads c).point s s' where
  face := hface
  point := fun t _ _ => hpoint t
  own := hpoint c
  blocked := fun t ht _ hb => (hstate t ht).symm.trans hb
  ended := hended

/-- No record is written. -/
theorem globals (hthreads : s'.threads = s.threads) (hended : s'.ended = s.ended) (c : Tid) :
    Shows c (s.threads c).point s s' := by
  apply aside
  · exact fun t _ => by rw [hthreads]
  · exact fun t => by rw [hthreads]
  · exact fun t _ => by rw [hthreads]
  · exact hended

/-- The record of `c` is written. -/
theorem write {a : Thread} (hthreads : s'.threads = Function.update s.threads c a)
    (hface : a.face = (s.threads c).face) (hended : s'.ended = s.ended) : Shows c a.point s s' where
  face := fun t _ => by
    rw [hthreads]
    exact proj_update Thread.face hface t
  point := fun t _ hne => by rw [hthreads, Function.update_of_ne hne]
  own := by rw [hthreads, Function.update_self]
  blocked := fun t _ hne hb => by rwa [hthreads, Function.update_of_ne hne] at hb
  ended := hended

/-- A thread other than `c` gets the processor. -/
theorem dispatch {next : Tid} (hne : next ≠ c) (hready : (s.threads next).state = .ready)
    (rq : List Tid) : Shows c (s.threads c).point s (s.dispatch next rq) where
  face := fun t _ => proj_update Thread.face (by simp [Thread.face, hready]) t
  point := fun t _ _ => proj_update Thread.point (by rfl) t
  own := proj_update Thread.point (by rfl) c
  blocked := fun t _ _ hb => by
    by_cases ht : t = next
    · subst ht
      simp [State.dispatch] at hb
    · simpa [State.dispatch, ht] using hb
  ended := rfl

theorem reprioritized (h : Reprioritized s s') (c : Tid) :
    Shows c (s.threads c).point s s' := by
  obtain ⟨f, rq, -, rfl⟩ := h
  apply aside
  · exact fun _ _ => rfl
  · exact fun _ => rfl
  · exact fun _ _ => rfl
  · rfl

theorem live (h : Shows c k s s') (hc : c ∈ s.handles)
    (hlive : (s.threads c).state ≠ .terminated) : (s'.threads c).state ≠ .terminated :=
  fun hdead => hlive ((Thread.face_dead (h.face c hc)).mp hdead)

/-- The running thread goes back to the ready queue. -/
theorem yieldAt (hrun : s.running.state = .running) (k : Point) (rq : List Tid) :
    Shows s.currentThread k s (s.yieldAt k rq) := by
  have hstate : (s.threads s.currentThread).state = .running := hrun
  refine write (a := { s.running with state := .ready, inReadyQueue := true, point := k }) rfl ?_
    rfl
  simp [Thread.face, State.running, hstate]

end Shows

/-- The return of a call to user code. -/
theorem finish_shows {s : State} (c : Call) (code : Int) :
    Shows s.currentThread .user s (finish c (s, some code)) :=
  .write (a := { s.running with point := .user }) rfl rfl rfl

section

variable {s : State} (h : Inv s) (hrun : s.running.state = .running)
include h hrun

/-- What `thread_yield` can come to: it returns at once, or the caller goes back to
the ready queue and `next` runs. -/
inductive YieldCase (k : Point) (s : State) : State × Option Int → Prop
  | kept {s' : State} (hre : Reprioritized s s') : YieldCase k s (s', some 0)
  | switched {s₁ : State} {next : Tid} {rq rq' : List Tid} (hre : Reprioritized s s₁)
      (hne : next ≠ s.currentThread) (hready : (s.threads next).state = .ready) :
      YieldCase k s ((s₁.yieldAt k rq).dispatch next rq', none)

omit h hrun in
theorem YieldCase.after {k : Point} {s₁ : State} {r : State × Option Int}
    (hre : Reprioritized s s₁) (hcase : YieldCase k s₁ r) : YieldCase k s r := by
  have hcur := hre.running.1
  cases hcase with
  | kept hre' => exact .kept (hre.trans hre')
  | switched hre' hne hready =>
      refine .switched (hre.trans hre') (hcur ▸ hne) ?_
      obtain ⟨f, rq, -, rfl⟩ := hre
      exact hready

theorem pick_case (p : Policy) (k : Point) : YieldCase k s (
    match threadSchedulerPickNext s with
    | none => (s, some 0)
    | some (next, s') =>
        if next = s.currentThread then (s', some 0)
        else if p = .prio ∧ (s'.threads next).priority ≤ (s'.threads s.currentThread).priority then
          (threadSchedulerEnqueue p s' next, some 0)
        else
          let s' := if (s'.threads s.currentThread).state = .running then
              threadSchedulerEnqueue p (s'.setState s.currentThread .ready none) s.currentThread
            else s'
          (swapThread s' s.currentThread next k, none)) := by
  cases hq : s.readyQueue with
  | nil =>
      rw [threadSchedulerPickNext_nil hq]
      exact .kept (.refl s)
  | cons next rest =>
      obtain ⟨hready, hne⟩ := h.ready_head hrun hq
      have hmem := ((h.sched.ready.mem_iff next).mp (by simp [hq])).1
      simp only [threadSchedulerPickNext_cons hq, hne, if_false]
      split
      · exact .kept (requeue_reprioritized p ((h.sched.threads_ok next hmem).flag.mpr hready)
          (by rw [hq]))
      · have hstill : ((s.picked next rest).threads s.currentThread).state = .running := by
          simpa [State.picked, State.running, hne.symm] using hrun
        have hflag := h.flag_false h.sched.current_mem (by rw [← State.running, hrun]; simp)
        obtain ⟨rq, -, heq⟩ := yield_swap_eq (k := k) hne p rest hflag
        simp only [hstill, if_true, heq]
        exact .switched (.refl s) hne hready

theorem threadYield_case (p : Policy) (k : Point) : YieldCase k s (threadYield p s k) := by
  cases p with
  | fifo => exact pick_case h hrun .fifo k
  | prio =>
      have hage := Reprioritized.ageThreads s s.currentThread
      obtain ⟨hcur, hstate, -⟩ := hage.running
      have hpick := pick_case (s := ageThreads s s.currentThread)
        (h.moves (i := .resume .plain) hage.move) (hstate.trans hrun) .prio k
      rw [hcur] at hpick
      exact hpick.after hage

/-- The latest entry is a change of state: a call has switched. -/
def State.Switched (s : State) : Prop :=
  ∃ id old new k w past, s.trace = .stateSet id old new k w :: past

omit h hrun in
theorem State.switched_dispatch (s : State) (next : Tid) (rq : List Tid) :
    (s.dispatch next rq).Switched :=
  ⟨_, _, _, _, _, _, rfl⟩

omit h in
/-- A yield from user code: it has returned, or the caller waits for its turn. -/
theorem YieldCase.shows {c : Call} {r : State × Option Int} (hcase : YieldCase (.yielded c) s r) :
    (finish c r).handles = s.handles ∧
      (Shows s.currentThread .user s (finish c r) ∧
          (∃ id past, (finish c r).trace = .returned id c 0 :: past) ∨
        Shows s.currentThread (.yielded c) s (finish c r) ∧ (finish c r).Switched) := by
  cases hcase with
  | @kept s' hre =>
      have hshows := Shows.reprioritized hre s.currentThread
      obtain ⟨hhandles, hcur, -⟩ := hre.same
      have hback : Shows s.currentThread .user s' (finish c (s', some 0)) :=
        hcur ▸ finish_shows c 0
      exact ⟨hhandles, Or.inl ⟨hshows.trans hback hhandles, _, _, rfl⟩⟩
  | @switched s₁ next rq rq' hre hne hready =>
      have hshows := Shows.reprioritized hre s.currentThread
      obtain ⟨hhandles, hcur, hstates⟩ := hre.same
      have hyield : Shows s.currentThread (.yielded c) s₁ (s₁.yieldAt (.yielded c) rq) :=
        hcur ▸ Shows.yieldAt (by rw [State.running, hcur, hstates]; exact hrun) _ rq
      have hnext : ((s₁.yieldAt (.yielded c) rq).threads next).state = .ready := by
        simpa [State.yieldAt, hcur, hne] using (hstates next).trans hready
      have hdispatch := Shows.dispatch hne hnext rq'
      rw [hyield.own] at hdispatch
      refine ⟨hhandles, Or.inr ⟨?_, State.switched_dispatch _ _ _⟩⟩
      exact (hshows.trans hyield hhandles).trans hdispatch hhandles

/-- The caller of `thread_join` blocks, and another thread runs. -/
theorem threadJoin_blocks {t : Tid} (hblocks : JoinBlocks s t) (hready : s.readyQueue ≠ [])
    (retval : Bool) (c : Call) :
    (finish c (threadJoin s (some t) retval)).handles = s.handles ∧
      Shows s.currentThread (.join t retval) s (finish c (threadJoin s (some t) retval)) ∧
      (finish c (threadJoin s (some t) retval)).Switched := by
  obtain ⟨hfree, hne, hlive, hallow⟩ := hblocks
  obtain ⟨next, rest, hq⟩ := List.exists_cons_of_ne_nil hready
  obtain ⟨hnext, hother⟩ := h.ready_head hrun hq
  have hstate : (s.threads s.currentThread).state = .running := hrun
  have hjoin : ∃ slot, threadJoin s (some t) retval =
      ((s.joinAt t slot retval).dispatch next rest, none) := by
    unfold slotsAllow at hallow
    simp only [threadJoin, hfree, ne_eq, not_true_eq_false, if_false, hne, hlive]
    split at hallow
    next slot own hslot hown =>
      rw [State.running] at hown
      simp only [hslot, hown]
      have hchain : ¬ (s.headRefs slot = t ∧ own = slot) := by
        rw [not_and_or]
        simpa using hallow
      rw [if_neg hchain]
      exact ⟨slot, joinBlock_eq hne hother hq⟩
    next => cases hallow
  obtain ⟨slot, heq⟩ := hjoin
  rw [heq]
  have hface : ∀ u, ((s.joinAt t slot retval).threads u).face = (s.threads u).face :=
    joinAt_proj Thread.face hne rfl (by simp [Thread.face, State.running, hstate])
  have hat : Shows s.currentThread (.join t retval) s (s.joinAt t slot retval) := by
    refine ⟨fun u _ => hface u, fun u _ hu => ?_, ?_, fun u _ hu hb => ?_, rfl⟩
    · refine (congrArg Thread.point (Function.update_of_ne hu _ _)).trans ?_
      exact proj_update Thread.point (by rfl) u
    · simp [State.joinAt]
    · have hsame : ((s.joinAt t slot retval).threads u).state = (s.threads u).state :=
        (congrArg Thread.state (Function.update_of_ne hu _ _)).trans
          (proj_update Thread.state (by rfl) u)
      exact hsame.symm.trans hb
  have hnext' : ((s.joinAt t slot retval).threads next).state = .ready := by
    refine (congrArg Thread.state (Function.update_of_ne hother _ _)).trans ?_
    exact (proj_update Thread.state (by rfl) next).trans hnext
  have hdispatch := Shows.dispatch hother hnext' rest
  rw [hat.own] at hdispatch
  exact ⟨rfl, hat.trans hdispatch rfl, State.switched_dispatch _ _ _⟩

end

section

variable {s : State} {t : Tid}

/-- A claim writes two fields of the record of its target. -/
theorem claimTarget_frame (s : State) (t : Tid) :
    ∃ flag head zombies stackPool mappings threadPool heap, claimTarget s t =
      { s with
        threads := Function.update s.threads t
          { s.threads t with inZombieQueue := flag, headJoiner := head }
        zombieQueue := zombies
        stackPool := stackPool
        mappings := mappings
        threadPool := threadPool
        heap := heap
        handles := s.handles.erase t } := by
  unfold claimTarget
  split
  next =>
    refine ⟨(s.threads t).inZombieQueue, (s.threads t).headJoiner, s.zombieQueue, s.stackPool,
      s.mappings, s.threadPool, s.heap, ?_⟩
    rw [Function.update_eq_self]
  next hmain =>
    obtain ⟨queue, heq⟩ := threadZombieRemove_frame s t
    simp only [heq]
    split
    · refine ⟨false, none, queue, s.stackPool, s.mappings, ?_⟩
      simp only [threadObjRelease, hmain, if_false, threadFree_eq, State.modifyThread,
        Function.update_self, Function.update_idem]
      exact ⟨_, _, rfl⟩
    · refine ⟨false, none, queue, ?_⟩
      simp only [stackPoolPush_eq, threadObjRelease, hmain, if_false, threadFree_eq,
        State.modifyThread, Function.update_self, Function.update_idem]
      exact ⟨_, _, _, _, rfl⟩

/-- It is seen in the handles only. -/
theorem claimTarget_shows (s : State) (t c : Tid) :
    Shows c (s.threads c).point s (claimTarget s t) ∧
      (claimTarget s t).handles = s.handles.erase t ∧
      (claimTarget s t).currentThread = s.currentThread ∧ (claimTarget s t).trace = s.trace := by
  obtain ⟨flag, head, zombies, stackPool, mappings, threadPool, heap, heq⟩ := claimTarget_frame s t
  rw [heq]
  refine ⟨?_, rfl, rfl, rfl⟩
  apply Shows.aside
  · exact fun u _ => proj_update Thread.face (by rfl) u
  · exact fun u => proj_update Thread.point (by rfl) u
  · exact fun u _ => proj_update Thread.state (by rfl) u
  · rfl

/-- The end of a successful join: the target is gone, and its value is stored, if it
is asked for. -/
structure Joined (t : Tid) (retval : Bool) (c : Call) (s s' : State) : Prop where
  shows : Shows s.currentThread .user s s'
  handles : s'.handles = s.handles.erase t
  stored : ∃ id id' code past,
    s'.trace = .returned id c 0 :: .joined id' code (storedRetval s t retval) :: past

theorem joined_claim (s : State) (t : Tid) (retval : Bool) (c : Call) (id : Nat) (code : Int) :
    Joined t retval c s (finish c ((claimTarget s t).emit
      (.joined id code (storedRetval s t retval)), some 0)) := by
  obtain ⟨hshows, hhandles, hcur, htrace⟩ := claimTarget_shows s t s.currentThread
  have hthreads : (finish c ((claimTarget s t).emit
      (.joined id code (storedRetval s t retval)), some 0)).threads =
      Function.update (claimTarget s t).threads s.currentThread
        { (claimTarget s t).threads s.currentThread with point := .user } := by
    rw [← hcur]
    rfl
  refine ⟨⟨fun u hu => ?_, fun u hu hne => ?_, ?_, fun u hu hne hb => ?_, hshows.ended⟩,
    hhandles, _, _, _, _, rfl⟩
  · rw [hthreads]
    exact (proj_update Thread.face (by rfl) u).trans (hshows.face u hu)
  · rw [hthreads, Function.update_of_ne hne]
    exact hshows.point u hu hne
  · rw [hthreads, Function.update_self]
  · rw [hthreads, Function.update_of_ne hne] at hb
    exact hshows.blocked u hu hne hb

/-- `thread_join` on a thread that has terminated. -/
theorem threadJoin_terminated (hfree : (s.threads t).joinedBy = none) (hne : t ≠ s.currentThread)
    (hdead : (s.threads t).state = .terminated) (retval : Bool) (c : Call) :
    Joined t retval c s (finish c (threadJoin s (some t) retval)) := by
  have heq : threadJoin s (some t) retval = joinTerminated s t retval := by
    simp [threadJoin, hfree, hne, hdead]
  rw [heq]
  exact joined_claim s t retval c _ 0

/-- `thread_join` after its context switch, on a thread that has not overflown
its stack. -/
theorem joinResume_joined (hrun : s.running.state = .running) (hne : t ≠ s.currentThread)
    (hover : (s.threads t).stackOverflow = false) (retval : Bool) (c : Call) :
    Joined t retval c s (finish c (joinResume s t retval)) := by
  have hstate : (s.threads s.currentThread).state = .running := hrun
  let s₁ := (s.modifyThread s.currentThread fun th => { th with waitingFor := none }).setState
    s.currentThread .running none
  have hthreads : s₁.threads = Function.update s.threads s.currentThread
      { s.running with waitingFor := none, state := .running } := by
    simp [s₁, State.setState, State.emit, State.modifyThread, State.running]
  have htarget : s₁.threads t = s.threads t := by rw [hthreads, Function.update_of_ne hne]
  have hback : Shows s.currentThread s.running.point s s₁ :=
    .write (a := { s.running with waitingFor := none, state := .running }) hthreads
      (by simp [Thread.face, State.running, hstate]) rfl
  have heq : joinResume s t retval = ((claimTarget s₁ t).emit
      (.joined (s₁.threads t).id 0 (storedRetval s₁ t retval)), some 0) := by
    have hintact : ¬ (s₁.threads t).stackOverflow = true := by
      rw [htarget, hover]
      simp
    exact if_neg hintact
  obtain ⟨hshows, hhandles, hstored⟩ := joined_claim s₁ t retval c (s₁.threads t).id 0
  have hsame : storedRetval s₁ t retval = storedRetval s t retval := by
    unfold storedRetval
    rw [htarget]
  rw [hsame] at hstored
  rw [heq, hsame]
  rw [hsame] at hshows hhandles
  exact ⟨hback.trans hshows rfl, hhandles, hstored⟩

end

end UserThreads
