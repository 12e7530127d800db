import UserThreads.Operations.Scheduler

/-!
# Creation as moves

`thread_create` succeeds with one `spawn`, or gives back what it has obtained
so far; in between it may yield from its stack loop any number of times.
-/

namespace UserThreads

open Transition

/-- A slot is new, or nothing has changed. -/
theorem threadHeadRefAlloc_spec {s : State} (hok : s.SlotsOk) (owner : Tid) (e : SlotEnv) :
    threadHeadRefAlloc s owner e = (s, none) ∨
      ∃ s' ref, threadHeadRefAlloc s owner e = (s', some ref) ∧ SlotTaken s s' owner ref := by
  have hnew : threadHeadRefAlloc.newChunk s owner e = (s, none) ∨
      ∃ s' ref, threadHeadRefAlloc.newChunk s owner e = (s', some ref) ∧
        SlotTaken s s' owner ref := by
    unfold threadHeadRefAlloc.newChunk
    split
    · exact Or.inl rfl
    · split
      · exact Or.inl rfl
      · refine Or.inr ⟨_, _, rfl,
          ⟨s.headRefChunksCount + 1, _, 1, some s.headRefChunksCount, rfl⟩, ?_⟩
        have hfrontier : s.slotFrontier ≤ s.headRefChunksCount * headRefChunkSize := by
          unfold State.slotFrontier
          split
          · exact Nat.le_refl _
          next chunk hchunk =>
            obtain ⟨hlt, hle⟩ := hok chunk hchunk
            simp only [headRefChunkSize] at *
            omega
        refine ⟨by simpa using hfrontier, by simp [State.slotFrontier], ?_⟩
        intro chunk hchunk
        cases hchunk
        simp [headRefChunkSize]
  unfold threadHeadRefAlloc
  split
  next chunk hchunk =>
    split
    next hroom =>
      refine Or.inr ⟨_, _, rfl, ⟨s.headRefChunksCount, s.headRefChunksCap,
        s.headRefActiveIndex + 1, some chunk, ?_⟩, ?_⟩
      · simp [State.slotGiven, hchunk]
      · refine ⟨by simp [State.slotFrontier, hchunk], by simp [State.slotFrontier, hchunk], ?_⟩
        intro chunk' hchunk'
        obtain ⟨hlt, -⟩ := hok chunk hchunk
        have hsame : chunk = chunk' := by simpa [hchunk] using hchunk'
        exact ⟨hsame ▸ hlt, hroom⟩
    next => exact hnew
  next => exact hnew

/-- Reclaiming moves stacks from the deferred array to the pool or to the
kernel, and touches nothing else. -/
theorem reclaimDeferredStacksBatch_moves {i : Input} (budget : Nat) (s : State) :
    Moves i s (reclaimDeferredStacksBatch budget s) ∧
      ∃ pool mappings deferred, mappings ⊆ s.mappings ∧ reclaimDeferredStacksBatch budget s =
        { s with stackPool := pool, mappings := mappings, deferredStacks := deferred } := by
  induction budget generalizing s with
  | zero => exact ⟨.refl, s.stackPool, s.mappings, s.deferredStacks, List.Subset.refl _, rfl⟩
  | succ budget ih =>
      unfold reclaimDeferredStacksBatch
      split
      next => exact ⟨.refl, s.stackPool, s.mappings, s.deferredStacks, List.Subset.refl _, rfl⟩
      next e rest hd =>
        have hmove : Move i s (stackPoolPush { s with deferredStacks := rest } e) :=
          .reclaim e rest hd
        obtain ⟨hm, pool, mappings, deferred, hsub, heq⟩ :=
          ih (stackPoolPush { s with deferredStacks := rest } e)
        refine ⟨(Relation.ReflTransGen.single hmove).trans hm, pool, mappings, deferred, ?_, ?_⟩
        · intro a ha
          have hmem := hsub ha
          rw [stackPoolPush_eq] at hmem
          dsimp only at hmem
          split at hmem
          · exact List.mem_of_mem_erase hmem
          · exact hmem
        · rw [heq, stackPoolPush_eq]

section

variable {i : Input} {s : State} (h : Inv s) (hrun : s.running.state = .running) {n : Tid} {r : Nat}
  (hk : s.running.point = .create n r)
include h hrun hk

/-- Giving up with a struct in hand, whatever has been written to it. -/
theorem dropStruct_finishes (th : Thread) (e : Option Errno) (c : Call) (code : Int) :
    Finishes i s (finish c ({ threadFree
      { s with threads := Function.update s.threads n th } n with errno := e }, some code)) := by
  obtain ⟨hn, hmain, -⟩ := h.mem.held_fresh h.sched.current_mem (congrArg Point.held hk)
  have hne : n ≠ s.currentThread := fun e => hn (e ▸ h.sched.current_mem)
  have hscribble : Move i s { s with threads := Function.update s.threads n th } :=
    .scribble n th hn hmain
  have hdrop : Move i { s with threads := Function.update s.threads n th }
      (threadFree (State.setPoint { s with threads := Function.update s.threads n th }
        s.currentThread .user) n) := by
    refine .dropStruct n r ?_ ?_
    · simpa [State.running, hne.symm] using hrun
    · simpa [State.running, hne.symm] using hk
  have heq : finish c ({ threadFree { s with threads := Function.update s.threads n th } n with
      errno := e }, some code) =
      State.emit { threadFree (State.setPoint { s with threads := Function.update s.threads n th }
        s.currentThread .user) n with errno := e } (.returned s.self c code) := by
    simp [finish, threadFree_eq, State.emit, State.setPoint, State.modifyThread, State.self,
      hne.symm]
  have hself : (threadFree (State.setPoint { s with threads := Function.update s.threads n th }
      s.currentThread .user) n).self = s.self := by
    simp [threadFree_eq, State.setPoint, State.modifyThread, State.self, hne.symm]
  have hmoves : Moves i s (State.emit
      { threadFree (State.setPoint { s with threads := Function.update s.threads n th }
        s.currentThread .user) n with errno := e } (.returned s.self c code)) := by
    rw [← hself]
    exact .tail (.tail (.tail (.single hscribble) hdrop) (.errno e)) (.returned c code)
  rw [heq]
  refine ⟨hmoves, ?_⟩
  simpa [State.emit, threadFree_eq, State.setPoint, State.modifyThread, State.running, hne.symm]
    using hrun

/-- The failure of the head slot gives the stack back to the pool it came
from. -/
theorem createThread_finishes (p : Policy) {entry : StackEntry} {rest : List StackEntry}
    (hpool : s.stackPool = entry :: rest) (e : SlotEnv) (c : Call) :
    Finishes i s (finish c (createThread p { s with stackPool := rest } n entry e)) := by
  obtain ⟨hn, hmain, -⟩ := h.mem.held_fresh h.sched.current_mem (congrArg Point.held hk)
  have hne : n ≠ s.currentThread := fun e => hn (e ▸ h.sched.current_mem)
  have hroom : ¬ maxPooledStacks ≤ rest.length := by
    have hle := h.mem.stackPool_le
    rw [hpool] at hle
    exact Nat.not_le.mpr hle
  have hslots : (State.modifyThread { s with stackPool := rest } n
    fun th => th.fresh entry).SlotsOk := h.slots
  rcases threadHeadRefAlloc_spec hslots n e with hfail | ⟨s', ref, htaken, hslot⟩
  · have hdrop := dropStruct_finishes (i := i) h hrun hk
      { (s.threads n).fresh entry with headJoiner := none } (some .enomem) c (-1)
    have heq : ((stackPoolPush (threadObjRelease ((State.modifyThread { s with stackPool := rest } n
        fun th => th.fresh entry).modifyThread n fun th => { th with headJoiner := none }) n)
          entry).setErrno .enomem) =
        { threadFree
          { s with threads := (Function.update s.threads n
            { (s.threads n).fresh entry with headJoiner := none }) } n with
          errno := some .enomem } := by
      simp [stackPoolPush_eq, threadObjRelease, threadFree_eq, hmain, State.modifyThread,
        State.setErrno, hroom, hpool]
    simp only [createThread, hfail, heq]
    exact hdrop
  · obtain ⟨⟨count, cap, index, active, rfl⟩, hle, hlt, hok⟩ := hslot
    -- The thread that is enqueued, with everything but its flag in place.
    let new : State := { s with
      threads := Function.update s.threads n
        { (s.threads n).fresh entry with
          headJoiner := some ref
          point := .entry
          id := s.nextThreadId }
      nextThreadId := s.nextThreadId + 1
      stackPool := rest
      headRefs := Function.update s.headRefs ref n
      headRefChunksCount := count
      headRefChunksCap := cap
      headRefActiveChunk := active
      headRefActiveIndex := index
      handles := n :: s.handles
      trace := .created s.nextThreadId n :: s.trace }
    obtain ⟨rq, hrq, heq⟩ := threadSchedulerEnqueue_eq p (s := new) (t := n)
      (by simp [new, Thread.fresh])
    let taken : State := s.slotGiven n ref count cap index active
    have hspawn : Move i s (taken.spawn n entry rest ref rq) :=
      .spawn n r entry rest ref rq hrun hk hpool
        ⟨⟨count, cap, index, active, rfl⟩, hle, hlt, hok⟩ hrq
    have hnew : createThread p { s with stackPool := rest } n entry e =
        (threadSchedulerEnqueue p new n, some 0) := by
      simp only [createThread, htaken]
      simp [new, State.emit, State.modifyThread, State.slotGiven]
    have hfinish : finish c (threadSchedulerEnqueue p new n, some 0) =
        (taken.spawn n entry rest ref rq).emit (.returned s.self c 0) := by
      rw [heq]
      simp [finish, new, taken, State.slotGiven, State.spawn, State.emit, State.setPoint,
        State.modifyThread, State.self, State.running, hne.symm, Function.update_comm hne]
    have hself : (taken.spawn n entry rest ref rq).self = s.self := by
      simp [taken, State.slotGiven, State.spawn, State.self, State.running, hne.symm]
    have hreturn := Move.returned (i := i) (s := taken.spawn n entry rest ref rq) c 0
    rw [hself] at hreturn
    simp only [hnew, hfinish]
    refine ⟨.tail (.single hspawn) hreturn, ?_⟩
    simpa [taken, State.slotGiven, State.spawn, State.emit, State.running, hne.symm] using hrun

/-- No stack is to be had: deferred stacks are reclaimed, and the caller gives
up or yields. -/
theorem createRetry_finishes (b : Build) (c : Call) :
    Finishes i s (finish c (
      let s := reclaimDeferredStacksAll s
      if s.readyQueue = [] ∨ maxAllocRetries ≤ r then
        ((threadObjRelease s n).setErrno .enomem, some (-1))
      else
        let k := Point.create n (r + 1)
        ((threadYield b.policy (s.setPoint s.currentThread k) k).1, none))) := by
  obtain ⟨-, hmain, -⟩ := h.mem.held_fresh h.sched.current_mem (congrArg Point.held hk)
  obtain ⟨hm, pool, mappings, deferred, -, heq⟩ :=
    reclaimDeferredStacksBatch_moves (i := i) maxDeferredStacks s
  have h₁ : Inv (reclaimDeferredStacksAll s) := h.moves hm
  have hrec : (reclaimDeferredStacksAll s).running = s.running := by
    unfold reclaimDeferredStacksAll
    rw [heq]
    rfl
  have hrun₁ : (reclaimDeferredStacksAll s).running.state = .running := by rw [hrec, hrun]
  have hk₁ : (reclaimDeferredStacksAll s).running.point = .create n r := by rw [hrec, hk]
  have hm₁ : Moves i s (reclaimDeferredStacksAll s) := hm
  generalize reclaimDeferredStacksAll s = s₁ at h₁ hrun₁ hk₁ hm₁
  dsimp only
  split
  · have hrelease : threadObjRelease s₁ n = threadFree { s₁ with
        threads := (Function.update s₁.threads n { s₁.threads n with headJoiner := none }) } n := by
      simp [threadObjRelease, hmain, State.modifyThread]
    have hdrop := dropStruct_finishes (i := i) h₁ hrun₁ hk₁
      { s₁.threads n with headJoiner := none } (some .enomem) c (-1)
    rw [hrelease]
    exact hdrop.after hm₁
  · have hretry : Move i s₁ (s₁.setPoint s₁.currentThread (.create n (r + 1))) :=
      .retry n r (r + 1) hrun₁ hk₁
    have hrec' : (s₁.setPoint s₁.currentThread (.create n (r + 1))).running =
        { s₁.running with point := .create n (r + 1) } := by
      simp [State.setPoint, State.modifyThread, State.running]
    have hyield := threadYield_yields (i := i) (k := .create n (r + 1))
      (s := s₁.setPoint s₁.currentThread (.create n (r + 1))) (by rw [hrec', ← hrun₁])
      ⟨Or.inl (by rw [hrec']), by simp⟩ (h₁.move hretry) b.policy
    exact ⟨(hm₁.tail hretry).trans hyield.moves, hyield.runs⟩

/-- One turn of the stack loop. -/
theorem createLoop_finishes (b : Build) (e : Env) (hfresh : ∀ a ∈ e.stack.map, a ∉ s.mappings)
    (c : Call) : Finishes i s (finish c (createLoop b s n r e)) := by
  cases hpool : s.stackPool with
  | cons entry rest =>
      have halloc : stackPoolAlloc b s e.stack = ({ s with stackPool := rest }, some entry) := by
        simp [stackPoolAlloc, hpool]
      simp only [createLoop, halloc]
      exact createThread_finishes h hrun hk b.policy hpool e.slot c
  | nil =>
      have hretry := createRetry_finishes (i := i) h hrun hk b c
      cases hmap : e.stack.map with
      | none =>
          have halloc : stackPoolAlloc b s e.stack = (s, none) := by
            simp [stackPoolAlloc, hpool, hmap]
          simp only [createLoop, halloc]
          exact hretry
      | some map =>
          by_cases hguard : b.guardPage ∧ e.stack.mprotect = false
          · have halloc : stackPoolAlloc b s e.stack = (s, none) := by
              simp [stackPoolAlloc, hpool, hmap, hguard]
            simp only [createLoop, halloc]
            exact hretry
          · let entry : StackEntry :=
              { map := map, stack := map + guardSize, valgrindId := e.stack.valgrindId }
            have halloc : stackPoolAlloc b s e.stack =
                ({ s with mappings := map :: s.mappings }, some entry) := by
              simp [stackPoolAlloc, hpool, hmap, hguard, entry]
            have hmapped :
                Move i s { s with mappings := map :: s.mappings, stackPool := [entry] } :=
              .mapStack entry hpool (hfresh map hmap)
            have hcreate := createThread_finishes (i := i) (h.move hmapped) hrun hk b.policy rfl
              e.slot c
            have hback : ({ s with mappings := map :: s.mappings } : State) =
                { s with mappings := map :: s.mappings, stackPool := [] } := by
              rw [← hpool]
            simp only [createLoop, halloc]
            rw [hback]
            exact hcreate.after (.single hmapped)

end

section

variable {i : Input} {s : State} (h : Inv s) (hrun : s.running.state = .running)
  (huser : s.running.point = .user)
include h hrun huser

/-- The one-time set-up gives the main thread its slot, or fails without a
trace. -/
theorem schedulerInit_moves (e : SlotEnv) :
    Moves i s (schedulerInit s e).1 ∧ (schedulerInit s e).1.running.state = .running ∧
      (schedulerInit s e).1.running.point = .user ∧ (schedulerInit s e).1.heap = s.heap ∧
      (schedulerInit s e).1.mappings = s.mappings := by
  unfold schedulerInit
  by_cases hinit : s.schedulerInitialized
  · simp only [hinit, if_true]
    exact ⟨.refl, hrun, huser, trivial, trivial⟩
  · simp only [hinit]
    have hfalse : s.schedulerInitialized = false := by simpa using hinit
    rcases threadHeadRefAlloc_spec h.slots mainThread e with hfail | ⟨s', ref, htaken, hslot⟩
    · have hsame : s.modifyThread mainThread (fun th => { th with headJoiner := none }) = s := by
        have hnone := h.main.1 hfalse
        unfold State.modifyThread
        rw [← hnone, Function.update_eq_self]
      simp only [hfail, hsame]
      exact ⟨.refl, hrun, huser, rfl, rfl⟩
    · have hmove := Move.initMain (i := i) ref hfalse hslot
      obtain ⟨⟨count, cap, index, active, rfl⟩, -⟩ := hslot
      simp only [htaken]
      have hsame : ∀ {β : Type} (π : Thread → β),
          (∀ th : Thread, π { th with headJoiner := some ref } = π th) →
          π (Function.update s.threads mainThread
            { s.threads mainThread with headJoiner := some ref } s.currentThread) = π s.running :=
        fun π hπ => proj_update π (hπ _) s.currentThread
      exact ⟨.single hmove, (hsame Thread.state fun _ => rfl).trans hrun,
        (hsame Thread.point fun _ => rfl).trans huser, rfl, rfl⟩

omit h hrun huser in
/-- A set-up that succeeds leaves the scheduler initialised. -/
theorem schedulerInit_initialized {e : SlotEnv} (hok : (schedulerInit s e).2 = true) :
    (schedulerInit s e).1.schedulerInitialized = true := by
  by_cases hinit : s.schedulerInitialized = true
  · simp [schedulerInit, hinit]
  · rcases halloc : threadHeadRefAlloc s mainThread e with ⟨s', _ | ref⟩
    · simp [schedulerInit, hinit, halloc] at hok
    · simp [schedulerInit, hinit, halloc]

omit h in
/-- A struct from the pool or from `malloc`, and the caller inside the stack
loop. -/
theorem threadAlloc_moves {a : Option Tid} {n : Tid} (hfresh : ∀ t ∈ a, t ≠ mainThread ∧ t ∉ s.heap)
    (hn : (threadAlloc s a).2 = some n) (hinit : s.schedulerInitialized = true) :
    Moves i s ((threadAlloc s a).1.setPoint s.currentThread (.create n 0)) ∧
      (threadAlloc s a).1.currentThread = s.currentThread ∧
      (threadAlloc s a).1.mappings = s.mappings ∧
      ((threadAlloc s a).1.setPoint s.currentThread (.create n 0)).running =
        { s.running with point := .create n 0 } := by
  cases hpool : s.threadPool with
  | cons t rest =>
      have halloc : threadAlloc s a = ({ s with threadPool := rest }, some t) := by
        simp [threadAlloc, hpool]
      rw [halloc] at hn ⊢
      obtain rfl : t = n := by simpa using hn
      refine ⟨.single (.takeStruct t rest hrun huser hpool hinit), rfl, rfl, ?_⟩
      simp [State.setPoint, State.modifyThread, State.running]
  | nil =>
      cases a with
      | none => simp [threadAlloc, hpool] at hn
      | some t =>
          have halloc : threadAlloc s (some t) = ({ s with heap := t :: s.heap }, some t) := by
            simp [threadAlloc, hpool]
          rw [halloc] at hn ⊢
          obtain rfl : t = n := by simpa using hn
          obtain ⟨hmain, hheap⟩ := hfresh t rfl
          refine ⟨.single (.mallocStruct t hrun huser hmain hheap hinit), rfl, rfl, ?_⟩
          simp [State.setPoint, State.modifyThread, State.running]

omit h hrun huser in
theorem threadAlloc_none {a : Option Tid} (hn : (threadAlloc s a).2 = none) :
    threadAlloc s a = (s, none) := by
  unfold threadAlloc at hn ⊢
  split at hn
  · cases hn
  · split at hn
    · rfl
    · cases hn

omit huser in
/-- `thread_create` once it holds a struct. -/
theorem createFrom_finishes (b : Build) {n : Tid} (e : Env) (hk : s.running.point = .create n 0)
    (hfresh : ∀ a ∈ e.stack.map, a ∉ s.mappings) (c : Call) :
    Finishes i s (finish c (
      let s := if s.stackPool = [] ∧ s.deferredStacks ≠ [] then reclaimDeferredStacksAll s else s
      createLoop b s n 0 e)) := by
  dsimp only
  split
  · obtain ⟨hm, pool, mappings, deferred, hsub, heq⟩ :=
      reclaimDeferredStacksBatch_moves (i := i) maxDeferredStacks s
    have hrec : (reclaimDeferredStacksAll s).running = s.running := by
      unfold reclaimDeferredStacksAll
      rw [heq]
      rfl
    have hfresh' : ∀ a ∈ e.stack.map, a ∉ (reclaimDeferredStacksAll s).mappings := by
      intro a ha hmem
      unfold reclaimDeferredStacksAll at hmem
      rw [heq] at hmem
      exact hfresh a ha (hsub hmem)
    have hloop := createLoop_finishes (i := i) (h.moves hm) (by rw [← hrun]; exact congrArg _ hrec)
      (by rw [← hk]; exact congrArg _ hrec) b e hfresh' c
    exact hloop.after hm
  · exact createLoop_finishes h hrun hk b e hfresh c

theorem threadCreate_finishes (b : Build) (newthread func : Bool) (e : Env) (hfresh : e.Fresh s)
    (c : Call) : Finishes i s (finish c (threadCreate b s newthread func e)) := by
  have hold := settled_of_user huser
  unfold threadCreate
  split
  · exact .refuse hrun hold _ c _
  obtain ⟨hm, hrun₁, huser₁, hheap, hmap⟩ := schedulerInit_moves (i := i) h hrun huser e.mainSlot
  have h₁ := h.moves hm
  obtain ⟨hfreshStruct, hfreshStack⟩ := hfresh
  rw [← hheap] at hfreshStruct
  rw [← hmap] at hfreshStack
  have hinit := schedulerInit_initialized (s := s) (e := e.mainSlot)
  generalize schedulerInit s e.mainSlot = init at hm hrun₁ huser₁ h₁ hfreshStruct hfreshStack hinit
  obtain ⟨s₁, ok⟩ := init
  dsimp only at hm hrun₁ huser₁ h₁ hfreshStruct hfreshStack hinit
  cases ok with
  | false =>
      have hrefuse : Finishes i s₁ (finish c (s₁.setErrno .enomem, some (-1))) :=
        .refuse hrun₁ (settled_of_user huser₁) _ c _
      exact hrefuse.after hm
  | true =>
      cases halloc : (threadAlloc s₁ e.thread).2 with
      | none =>
          have hrefuse : Finishes i s₁ (finish c (s₁.setErrno .enomem, some (-1))) :=
            .refuse hrun₁ (settled_of_user huser₁) _ c _
          simp only [threadAlloc_none halloc]
          exact hrefuse.after hm
      | some n =>
          obtain ⟨hm₂, hcur₂, hmap₂, hrec₂⟩ :=
            threadAlloc_moves (i := i) hrun₁ huser₁ hfreshStruct halloc (hinit rfl)
          have hpair : threadAlloc s₁ e.thread = ((threadAlloc s₁ e.thread).1, some n) := by
            rw [← halloc]
          have hcreate := createFrom_finishes (i := i) (h₁.moves hm₂) (by rw [hrec₂, ← hrun₁]) b e
            (by rw [hrec₂]) (by
              intro a ha
              rw [show ((threadAlloc s₁ e.thread).1.setPoint s₁.currentThread
                (.create n 0)).mappings = (threadAlloc s₁ e.thread).1.mappings from rfl, hmap₂]
              exact hfreshStack a ha) c
          dsimp only
          rw [hpair]
          simp only [hcur₂]
          exact (hcreate.after hm₂).after hm

end

end UserThreads
