import UserThreads.Operations.ForkJoin

/-!
# The first and the last step of a thread

What `thread_create` and `thread_exit` leave to be seen by the other threads, when
memory is granted and a thread is left to run.
-/

namespace UserThreads

open Transition

section Exit

/-- What an exit leaves behind. Its joiner, if there is one, does not wait any
more. -/
structure Left (v : Value) (s s' : State) : Prop where
  handles : s'.handles = s.handles
  face : ∀ t ∈ s.handles, t ≠ s.currentThread → (s'.threads t).face = (s.threads t).face
  own : (s'.threads s.currentThread).face = (s.self, v, s.running.stackOverflow, true)
  point : ∀ t, (s'.threads t).point = (s.threads t).point
  blocked : ∀ t, (s'.threads t).state = .blocked →
    (s.threads t).state = .blocked ∧ s.running.joinedBy ≠ some t
  ended : s'.ended = s.ended

/-- What `thread_exit` leaves in the records of other threads. -/
def Thread.trail (th : Thread) : Point × Nat × Value := (th.point, th.id, th.retval)

theorem threadSchedulerEnqueue_trail (p : Policy) (s : State) (t u : Tid) :
    ((threadSchedulerEnqueue p s t).threads u).trail = (s.threads u).trail := by
  unfold threadSchedulerEnqueue
  split
  · rfl
  · exact proj_update Thread.trail (by rfl) u

theorem exitWake_trail (p : Policy) (s : State) (d : Tid) :
    (exitWake p s d).handles = s.handles ∧
      ∀ u, ((exitWake p s d).threads u).trail = (s.threads u).trail := by
  unfold exitWake
  split
  · exact ⟨rfl, fun _ => rfl⟩
  next j hj =>
    refine ⟨?_, fun u => (threadSchedulerEnqueue_trail p _ j u).trans ?_⟩
    · unfold threadSchedulerEnqueue
      split <;> rfl
    · exact proj_update Thread.trail (by rfl) u

variable {s : State} (h : Inv s) (hrun : s.running.state = .running)
include h hrun

/-- When `thread_exit` looks for the next thread, the other threads look as they
did. -/
theorem exited_face (p : Policy) (v : Value) {r : State}
    (hr : exitWake p (exitZombie (s.terminate v) s.currentThread) s.currentThread = r) :
    r.handles = s.handles ∧
      (∀ t, (r.threads t).point = (s.threads t).point) ∧
      (∀ t, t ≠ s.currentThread → (r.threads t).face = (s.threads t).face) ∧
      (r.threads s.currentThread).face = (s.self, v, s.running.stackOverflow, true) := by
  have hexited := exited_exitWake h hrun p v
  obtain ⟨map, base, flag, deferred, zombies, hzombie⟩ :=
    exitZombie_frame (s.terminate v) s.currentThread
  obtain ⟨hhandles, htrail⟩ :=
    exitWake_trail p (exitZombie (s.terminate v) s.currentThread) s.currentThread
  rw [hr] at hexited hhandles htrail
  rw [hzombie] at hhandles htrail
  have hown : (r.threads s.currentThread).trail = (s.running.point, s.self, v) := by
    rw [htrail]
    simp [Thread.trail, State.terminate, State.self, State.running]
  have hother : ∀ t, t ≠ s.currentThread → (r.threads t).trail = (s.threads t).trail := by
    intro t ht
    rw [htrail]
    simp [State.terminate, ht]
  refine ⟨hhandles, fun t => ?_, fun t ht => ?_, ?_⟩
  · by_cases ht : t = s.currentThread
    · subst ht
      exact congrArg Prod.fst hown
    · exact congrArg Prod.fst (hother t ht)
  · have hid : (r.threads t).id = (s.threads t).id := congrArg (·.2.1) (hother t ht)
    have hretval : (r.threads t).retval = (s.threads t).retval := congrArg (·.2.2) (hother t ht)
    have hdead : (r.threads t).state = .terminated ↔ (s.threads t).state = .terminated := by
      rw [hexited.state, if_neg ht]
      split
      next hj =>
        have hblocked := (h.joiner_blocked hrun hj).2.1
        simp [hblocked]
      next => exact Iff.rfl
    simp only [Thread.face, hid, hretval, hexited.overflow t, hdead]
  · have hid : (r.threads s.currentThread).id = s.self := congrArg (·.2.1) hown
    have hretval : (r.threads s.currentThread).retval = v := congrArg (·.2.2) hown
    have hdead : (r.threads s.currentThread).state = .terminated := by
      rw [hexited.state, if_pos rfl]
    simp only [Thread.face, hid, hretval, hexited.overflow s.currentThread, hdead]
    rfl

/-- `thread_exit` where a thread is left to run. -/
theorem threadExit_left (p : Policy) (v : Value)
    (hnext : s.readyQueue ≠ [] ∨ s.running.joinedBy ≠ none) : Left v s (threadExit p s v) := by
  have hexited := exited_exitWake h hrun p v
  generalize hr : exitWake p (exitZombie (s.terminate v) s.currentThread) s.currentThread = r
    at hexited
  obtain ⟨hhandles, hpoint, hface, hown⟩ := exited_face h hrun p v hr
  have hsome : r.readyQueue ≠ [] := by
    rcases hnext with hq | hj
    · obtain ⟨t, ht⟩ := List.exists_mem_of_ne_nil _ hq
      exact List.ne_nil_of_mem ((hexited.queue t).mpr (Or.inl ht))
    · obtain ⟨j, hj⟩ := Option.ne_none_iff_exists'.mp hj
      exact List.ne_nil_of_mem ((hexited.queue j).mpr (Or.inr hj))
  obtain ⟨next, rest, hq⟩ := List.exists_cons_of_ne_nil hsome
  -- The picked thread was ready before, or it is the joiner.
  have hpicked : next ≠ s.currentThread ∧ (r.threads next).state ≠ .terminated := by
    rcases (hexited.queue next).mp (by rw [hq]; exact List.mem_cons_self) with hmem | hj
    · obtain ⟨-, hready⟩ := (h.sched.ready.mem_iff next).mp hmem
      have hne : next ≠ s.currentThread := by
        rintro rfl
        rw [State.running, hready] at hrun
        cases hrun
      rw [hexited.state, if_neg hne]
      refine ⟨hne, ?_⟩
      split <;> simp [hready]
    · have hne := (h.joiner_blocked hrun hj).2.2
      rw [hexited.state, if_neg hne, if_pos hj]
      exact ⟨hne, by simp⟩
  have hdispatch : ∀ t, ((r.dispatch next rest).threads t).face = (r.threads t).face :=
    proj_update Thread.face (by simp [Thread.face, hpicked.2])
  rw [threadExit_cons hr hq]
  refine ⟨hhandles, fun t _ ht => ?_, (hdispatch _).trans hown, fun t => ?_, fun t hb => ?_,
    hexited.ended⟩
  · exact (hdispatch t).trans (hface t ht)
  · exact (proj_update Thread.point (by rfl) t).trans (hpoint t)
  · have hb' : (r.threads t).state = .blocked := by
      by_cases htn : t = next
      · subst htn
        simp [State.dispatch] at hb
      · simpa [State.dispatch, htn] using hb
    rw [hexited.state] at hb'
    split at hb'
    · cases hb'
    · split at hb'
      · cases hb'
      next hj => exact ⟨hb', hj⟩

end Exit

section Create

/-- A successful creation: the new thread stands at its entry, and its handle is
stored. -/
structure Created (n : Tid) (c : Call) (s s' : State) : Prop where
  shows : Shows s.currentThread .user s s'
  handles : s'.handles = n :: s.handles
  entry : (s'.threads n).point = .entry
  face : (s'.threads n).face = (s.nextThreadId, 0, false, false)
  ready : (s'.threads n).state ≠ .blocked
  stored : ∃ id id' past, s'.trace = .returned id c 0 :: .created id' n :: past

/-- What comes first is seen at the caller only. -/
theorem Created.after {n : Tid} {c : Call} {k : Point} {s s₁ s' : State} (h : Created n c s₁ s')
    (hshows : Shows s.currentThread k s s₁) (hcur : s₁.currentThread = s.currentThread)
    (hhandles : s₁.handles = s.handles) (hnext : s₁.nextThreadId = s.nextThreadId) :
    Created n c s s' where
  shows := hshows.trans (hcur ▸ h.shows) hhandles
  handles := by rw [h.handles, hhandles]
  entry := h.entry
  face := by rw [h.face, hnext]
  ready := h.ready
  stored := h.stored

/-- A slot is granted. -/
theorem threadHeadRefAlloc_granted {s : State} (hok : s.SlotsOk) (owner : Tid) :
    ∃ ref count cap index active, threadHeadRefAlloc s owner { chunk := true, chunks := true } =
      (s.slotGiven owner ref count cap index active, some ref) := by
  rcases threadHeadRefAlloc_spec hok owner { chunk := true, chunks := true } with
    hfail | ⟨s', ref, htaken, ⟨count, cap, index, active, rfl⟩, -⟩
  · have hsome : (threadHeadRefAlloc s owner { chunk := true, chunks := true }).2 ≠ none := by
      unfold threadHeadRefAlloc threadHeadRefAlloc.newChunk takeHeadRef
      split
      · split <;> simp
      · simp
    rw [hfail] at hsome
    exact absurd rfl hsome
  · exact ⟨ref, count, cap, index, active, htaken⟩

/-- The end of `thread_create`. -/
theorem createThread_created {s : State} {n : Tid} (hok : s.SlotsOk) (hn : n ∉ s.handles)
    (hne : n ≠ s.currentThread) (p : Policy) (entry : StackEntry) (c : Call) :
    Created n c s (finish c (createThread p s n entry { chunk := true, chunks := true })) := by
  have hok' : (s.modifyThread n fun th => th.fresh entry).SlotsOk := hok
  obtain ⟨ref, count, cap, index, active, hslot⟩ := threadHeadRefAlloc_granted hok' n
  let new : State := { s with
    threads := Function.update s.threads n
      { (s.threads n).fresh entry with
        headJoiner := some ref
        point := .entry
        id := s.nextThreadId }
    nextThreadId := s.nextThreadId + 1
    headRefs := Function.update s.headRefs ref n
    headRefChunksCount := count
    headRefChunksCap := cap
    headRefActiveChunk := active
    headRefActiveIndex := index
    handles := n :: s.handles
    trace := .created s.nextThreadId n :: s.trace }
  have hnew : createThread p s n entry { chunk := true, chunks := true } =
      (threadSchedulerEnqueue p new n, some 0) := by
    simp only [createThread, hslot]
    simp [new, State.emit, State.modifyThread, State.slotGiven]
  obtain ⟨rq, -, heq⟩ := threadSchedulerEnqueue_eq p (s := new) (t := n)
    (by simp [new, Thread.fresh])
  have hthreads : (finish c (createThread p s n entry { chunk := true, chunks := true })).threads =
      Function.update (Function.update s.threads s.currentThread { s.running with point := .user })
        n { (s.threads n).fresh entry with
          inReadyQueue := true
          headJoiner := some ref
          point := .entry
          id := s.nextThreadId } := by
    rw [hnew, heq]
    simp [finish, new, State.emit, State.setPoint, State.modifyThread, State.running, hne.symm,
      Function.update_comm hne]
  have hrest : ∀ t ∈ s.handles, (finish c (createThread p s n entry
      { chunk := true, chunks := true })).threads t =
        Function.update s.threads s.currentThread { s.running with point := .user } t := by
    intro t ht
    rw [hthreads]
    refine Function.update_of_ne ?_ _ _
    rintro rfl
    exact hn ht
  have hown : (finish c (createThread p s n entry
      { chunk := true, chunks := true })).threads s.currentThread =
        { s.running with point := .user } := by
    rw [hthreads, Function.update_of_ne hne.symm, Function.update_self]
  have hshows : Shows s.currentThread .user s
      (finish c (createThread p s n entry { chunk := true, chunks := true })) := by
    refine ⟨fun t ht => ?_, fun t ht hu => ?_, by rw [hown], fun t ht hu hb => ?_, ?_⟩
    · rw [hrest t ht]
      exact proj_update Thread.face (by rfl) t
    · rw [hrest t ht, Function.update_of_ne hu]
    · rwa [hrest t ht, Function.update_of_ne hu] at hb
    · rw [hnew, heq]
      rfl
  refine ⟨hshows, ?_, ?_, ?_, ?_, ?_⟩
  · rw [hnew, heq]
    rfl
  · rw [hthreads, Function.update_self]
  · rw [hthreads, Function.update_self]
    rfl
  · rw [hthreads, Function.update_self]
    simp [Thread.fresh]
  · rw [hnew, heq]
    exact ⟨_, _, _, rfl⟩

variable {s : State} (h : Inv s)
include h

/-- `thread_create` once it holds a struct. -/
theorem createFrom_created (b : Build) {n : Tid} {e : Env} (hgrants : e.Grants)
    (hk : s.running.point = .create n 0) (c : Call) :
    Created n c s (finish c (
      let s := if s.stackPool = [] ∧ s.deferredStacks ≠ [] then reclaimDeferredStacksAll s else s
      createLoop b s n 0 e)) := by
  obtain ⟨hn, hmain, -⟩ := h.mem.held_fresh h.sched.current_mem (congrArg Point.held hk)
  have hne : n ≠ s.currentThread := fun heq => hn (heq ▸ h.sched.current_mem)
  obtain ⟨-, -, hmap, hprotect, hslot⟩ := hgrants
  obtain ⟨map, hmap⟩ := Option.ne_none_iff_exists'.mp hmap
  have hloop : ∀ s₁ : State, (∃ pool mappings deferred, s₁ =
      { s with stackPool := pool, mappings := mappings, deferredStacks := deferred }) →
      Created n c s (finish c (createLoop b s₁ n 0 e)) := by
    rintro s₁ ⟨pool, mappings, deferred, rfl⟩
    obtain ⟨pool', mappings', entry, halloc⟩ : ∃ pool' mappings' entry, stackPoolAlloc b
        { s with stackPool := pool, mappings := mappings, deferredStacks := deferred } e.stack =
        ({ s with stackPool := pool', mappings := mappings', deferredStacks := deferred },
          some entry) := by
      cases pool with
      | nil =>
          refine ⟨[], map :: mappings, ⟨map, map + guardSize, e.stack.valgrindId⟩, ?_⟩
          simp [stackPoolAlloc, hmap, hprotect]
      | cons entry rest => exact ⟨rest, mappings, entry, rfl⟩
    simp only [createLoop, halloc, hslot]
    have hcreate := createThread_created (s := { s with
      stackPool := pool', mappings := mappings', deferredStacks := deferred })
      h.slots hn hne b.policy entry c
    refine hcreate.after (k := s.running.point) ?_ rfl rfl rfl
    apply Shows.globals <;> rfl
  dsimp only
  split
  · obtain ⟨-, pool, mappings, deferred, -, heq⟩ :=
      reclaimDeferredStacksBatch_moves (i := .resume .plain) maxDeferredStacks s
    exact hloop _ ⟨pool, mappings, deferred, heq⟩
  · exact hloop s ⟨_, _, _, rfl⟩

/-- The one-time set-up succeeds, and is seen in the slot of the main thread
only. -/
theorem schedulerInit_granted :
    ∃ s₁, schedulerInit s { chunk := true, chunks := true } = (s₁, true) ∧
    Shows s.currentThread s.running.point s s₁ ∧ s₁.currentThread = s.currentThread ∧
    s₁.handles = s.handles ∧ s₁.nextThreadId = s.nextThreadId := by
  unfold schedulerInit
  split
  · exact ⟨s, rfl, .globals rfl rfl _, rfl, rfl, rfl⟩
  · obtain ⟨ref, count, cap, index, active, hslot⟩ := threadHeadRefAlloc_granted h.slots mainThread
    rw [hslot]
    refine ⟨_, rfl, ?_, rfl, rfl, rfl⟩
    apply Shows.aside
    · exact fun t _ => proj_update Thread.face (by rfl) t
    · exact fun t => proj_update Thread.point (by rfl) t
    · exact fun t _ => proj_update Thread.state (by rfl) t
    · rfl

/-- `thread_create` with all the memory it asks for. -/
theorem threadCreate_created (hrun : s.running.state = .running)
    (huser : s.running.point = .user) (b : Build) {e : Env} (hgrants : e.Grants)
    (hfresh : e.Fresh s) (c : Call) :
    ∃ n, n ∉ s.handles ∧ Created n c s (finish c (threadCreate b s true true e)) := by
  obtain ⟨hslot, hthread, -⟩ := id hgrants
  obtain ⟨hm, hrun₁, huser₁, hheap, -⟩ :=
    schedulerInit_moves (i := .resume e) h hrun huser e.mainSlot
  have hinit := schedulerInit_initialized (s := s) (e := e.mainSlot)
  obtain ⟨s₁, heq, hshows, hcur, hhandles, hnext⟩ := schedulerInit_granted h
  rw [hslot, heq] at hm hrun₁ huser₁ hheap hinit
  have h₁ : Inv s₁ := h.moves hm
  -- The struct: a recycled one, or what `malloc` returns.
  have halloc : ∃ n, (threadAlloc s₁ e.thread).2 = some n := by
    obtain ⟨a, ha⟩ := Option.ne_none_iff_exists'.mp hthread
    unfold threadAlloc
    split
    · exact ⟨_, rfl⟩
    · rw [ha]
      exact ⟨a, rfl⟩
  obtain ⟨n, halloc⟩ := halloc
  have hpair : threadAlloc s₁ e.thread = ((threadAlloc s₁ e.thread).1, some n) := by rw [← halloc]
  obtain ⟨hm₂, hcur₂, -, hrec₂⟩ := threadAlloc_moves (i := .resume e) hrun₁ huser₁
    (by rw [hheap]; exact hfresh.1) halloc (hinit rfl)
  obtain ⟨hschedule, hthreads⟩ := schedule_threadAlloc s₁ e.thread
  have hhandles₂ : (threadAlloc s₁ e.thread).1.handles = s₁.handles :=
    congrArg (·.2.2.1) hschedule
  have hended₂ : (threadAlloc s₁ e.thread).1.ended = s₁.ended := congrArg (·.2.2.2.1) hschedule
  have hnext₂ : (threadAlloc s₁ e.thread).1.nextThreadId = s₁.nextThreadId := by
    unfold threadAlloc
    split
    · rfl
    · split <;> rfl
  have hpoint : Shows s₁.currentThread (.create n 0) s₁
      ((threadAlloc s₁ e.thread).1.setPoint s₁.currentThread (.create n 0)) := by
    refine .write (a := { s₁.running with point := .create n 0 }) ?_ rfl hended₂
    simp [State.setPoint, State.modifyThread, State.running, hthreads]
  have hdef : threadCreate b s true true e =
      (let s := (threadAlloc s₁ e.thread).1.setPoint s₁.currentThread (.create n 0)
      let s := if s.stackPool = [] ∧ s.deferredStacks ≠ [] then reclaimDeferredStacksAll s else s
      createLoop b s n 0 e) := by
    simp only [threadCreate, hslot, heq]
    rw [hpair]
    simp [hcur₂]
  have h₂ := h₁.moves hm₂
  have hcreate := createFrom_created h₂ b hgrants (by rw [hrec₂]) c
  obtain ⟨hn, -, -⟩ := h₂.mem.held_fresh (n := n) h₂.sched.current_mem
    (by rw [← State.running, hrec₂]; rfl)
  rw [hdef]
  refine ⟨n, ?_, ?_⟩
  · rw [← hhandles, ← hhandles₂]
    exact hn
  · exact (hcreate.after hpoint hcur₂ hhandles₂ hnext₂).after hshows hcur hhandles hnext

end Create

end UserThreads
