import UserThreads.Model.State

/-!
# Recycling of stacks, structs and head slots

`pool.c`, the zombie queue of `thread_gc.c`, and the allocation helpers at the
top of `thread.c`. The arrays are lists with the next entry to pop first.
-/

namespace UserThreads

/-- `stack_pool_alloc`. A mapping whose guard page cannot be protected is
unmapped at once, so it never shows. -/
def stackPoolAlloc (b : Build) (s : State) (e : StackEnv) : State × Option StackEntry :=
  match s.stackPool with
  | entry :: rest => ({ s with stackPool := rest }, some entry)
  | [] =>
      match e.map with
      | none => (s, none)
      | some map =>
          if b.guardPage ∧ e.mprotect = false then (s, none)
          else ({ s with mappings := map :: s.mappings },
            some { map := map, stack := map + guardSize, valgrindId := e.valgrindId })

/-- `stack_pool_push`. The `madvise` above the threshold has no effect here. -/
def stackPoolPush (s : State) (entry : StackEntry) : State :=
  if maxPooledStacks ≤ s.stackPool.length then
    { s with mappings := s.mappings.erase entry.map }
  else { s with stackPool := entry :: s.stackPool }

/-- A push changes the pool and the mappings only. -/
theorem stackPoolPush_eq (s : State) (entry : StackEntry) :
    stackPoolPush s entry =
      { s with
        stackPool := if maxPooledStacks ≤ s.stackPool.length then s.stackPool
          else entry :: s.stackPool
        mappings := if maxPooledStacks ≤ s.stackPool.length then s.mappings.erase entry.map
          else s.mappings } := by
  unfold stackPoolPush
  split <;> rfl

/-- `reclaim_deferred_stacks_batch`. -/
def reclaimDeferredStacksBatch : Nat → State → State
  | 0, s => s
  | budget + 1, s =>
      match s.deferredStacks with
      | [] => s
      | e :: rest =>
          reclaimDeferredStacksBatch budget (stackPoolPush { s with deferredStacks := rest } e)

/-- `reclaim_deferred_stacks_all`. -/
def reclaimDeferredStacksAll (s : State) : State :=
  reclaimDeferredStacksBatch maxDeferredStacks s

/-- `defer_stack_reclaim`. -/
def deferStackReclaim (s : State) (t : Tid) : State :=
  match (s.threads t).stackMap with
  | none => s
  | some map =>
      if s.deferredStacks.length < maxDeferredStacks then
        { s with deferredStacks :=
            { map := map
              stack := (s.threads t).stackBase
              valgrindId := (s.threads t).valgrindStackId } :: s.deferredStacks }.modifyThread t
          fun th => { th with stackMap := none, stackBase := 0 }
      else s

/-- Deferring a stack writes the two stack fields of the record. -/
theorem deferStackReclaim_frame (s : State) (t : Tid) :
    ∃ map base deferred, deferStackReclaim s t =
      { s with
        threads := Function.update s.threads t
          { s.threads t with stackMap := map, stackBase := base }
        deferredStacks := deferred } := by
  unfold deferStackReclaim
  split
  next => exact ⟨_, _, s.deferredStacks, by rw [Function.update_eq_self]⟩
  next =>
    split
    · exact ⟨none, 0, _, rfl⟩
    · exact ⟨_, _, s.deferredStacks, by rw [Function.update_eq_self]⟩

/-- `thread_alloc`; `fresh` is what `malloc` returns. -/
def threadAlloc (s : State) (fresh : Option Tid) : State × Option Tid :=
  match s.threadPool with
  | t :: rest => ({ s with threadPool := rest }, some t)
  | [] =>
      match fresh with
      | none => (s, none)
      | some t => ({ s with heap := t :: s.heap }, some t)

/-- `thread_free`. -/
def threadFree (s : State) (t : Tid) : State :=
  if s.threadPool.length < maxPooledThreads then { s with threadPool := t :: s.threadPool }
  else { s with heap := s.heap.erase t }

theorem threadFree_eq (s : State) (t : Tid) :
    threadFree s t =
      { s with
        threadPool := if s.threadPool.length < maxPooledThreads then t :: s.threadPool
          else s.threadPool
        heap := if s.threadPool.length < maxPooledThreads then s.heap else s.heap.erase t } := by
  unfold threadFree
  split <;> rfl

/-- `thread_obj_release`. -/
def threadObjRelease (s : State) (t : Tid) : State :=
  if t = mainThread then s
  else threadFree (s.modifyThread t fun th => { th with headJoiner := none }) t

/-- Hand out the next slot of the active chunk, the `chunk`-th one. -/
def takeHeadRef (s : State) (owner : Tid) (chunk : Nat) : State × Option SlotRef :=
  let ref := chunk * headRefChunkSize + s.headRefActiveIndex
  ({ s with
      headRefActiveIndex := s.headRefActiveIndex + 1
      headRefs := Function.update s.headRefs ref owner }, some ref)

/-- `thread_head_ref_alloc`. -/
def threadHeadRefAlloc (s : State) (owner : Tid) (e : SlotEnv) : State × Option SlotRef :=
  match s.headRefActiveChunk with
  | some chunk =>
      if s.headRefActiveIndex < headRefChunkSize then takeHeadRef s owner chunk
      else newChunk
  | none => newChunk
where
  newChunk : State × Option SlotRef :=
    if e.chunk = false then (s, none)
    else if s.headRefChunksCap ≤ s.headRefChunksCount ∧ e.chunks = false then (s, none)
    else
      let cap := if s.headRefChunksCap ≤ s.headRefChunksCount then
          (if s.headRefChunksCap = 0 then 64 else s.headRefChunksCap * 2)
        else s.headRefChunksCap
      takeHeadRef { s with
        headRefChunksCap := cap
        headRefChunksCount := s.headRefChunksCount + 1
        headRefActiveChunk := some s.headRefChunksCount
        headRefActiveIndex := 0 } owner s.headRefChunksCount

/-- `thread_zombie_add`. -/
def threadZombieAdd (s : State) (t : Tid) : State :=
  { s with zombieQueue := s.zombieQueue ++ [t] }.modifyThread t fun th =>
    { th with inZombieQueue := true }

/-- `thread_zombie_remove`. -/
def threadZombieRemove (s : State) (t : Tid) : State :=
  if (s.threads t).inZombieQueue then
    { s with zombieQueue := s.zombieQueue.erase t }.modifyThread t fun th =>
      { th with inZombieQueue := false }
  else s

theorem threadZombieRemove_frame (s : State) (t : Tid) :
    ∃ queue, threadZombieRemove s t =
      { s with
        threads := Function.update s.threads t { s.threads t with inZombieQueue := false }
        zombieQueue := queue } := by
  unfold threadZombieRemove
  split
  next => exact ⟨_, rfl⟩
  next hz =>
    refine ⟨s.zombieQueue, ?_⟩
    rw [Bool.not_eq_true] at hz
    rw [← hz, Function.update_eq_self]

end UserThreads
