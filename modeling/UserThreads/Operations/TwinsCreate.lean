import UserThreads.Operations.TwinsSync

/-!
# Creating twins

The pools, the slots and `thread_create`.
-/

namespace UserThreads

open Transition

namespace Twins

variable {past past' : List Event} {s s' : State}

theorem push (h : Twins past past' s s') (entry : StackEntry) :
    Twins past past' (stackPoolPush s entry) (stackPoolPush s' entry) := by
  simp only [stackPoolPush_eq]
  exact h.map (fun s => { s with
    stackPool := if maxPooledStacks ≤ s.stackPool.length then s.stackPool else entry :: s.stackPool
    mappings := if maxPooledStacks ≤ s.stackPool.length then s.mappings.erase entry.map
      else s.mappings }) (fun _ _ _ => rfl) fun _ => rfl

/-- By induction on the deferred stacks that are put back. -/
theorem reclaim (h : Twins past past' s s') (n : Nat) :
    Twins past past' (reclaimDeferredStacksBatch n s) (reclaimDeferredStacksBatch n s') := by
  induction n generalizing s s' with
  | zero => exact h
  | succ n ih =>
      have hd : s'.deferredStacks = s.deferredStacks := by
        obtain ⟨new, e, -, rfl⟩ := h
        rfl
      unfold reclaimDeferredStacksBatch
      rw [hd]
      split
      · exact h
      · next e rest _ =>
          exact ih (Twins.push (h.map ({ · with deferredStacks := rest }) (fun _ _ _ => rfl)
            fun _ => rfl) e)

/-- The pool of structs is the same in both. -/
theorem release (h : Twins past past' s s') (t : Tid) :
    Twins past past' (threadObjRelease s t) (threadObjRelease s' t) := by
  unfold threadObjRelease
  split
  · exact h
  · have hcleared := h.modifyThread t fun th => { th with headJoiner := none }
    simp only [threadFree_eq]
    exact hcleared.map (fun s => { s with
      threadPool := if s.threadPool.length < maxPooledThreads then t :: s.threadPool
        else s.threadPool
      heap := if s.threadPool.length < maxPooledThreads then s.heap else s.heap.erase t })
      (fun _ _ _ => rfl) fun _ => rfl

theorem zombieRemove (h : Twins past past' s s') (t : Tid) :
    Twins past past' (threadZombieRemove s t) (threadZombieRemove s' t) := by
  refine h.map (threadZombieRemove · t) (fun s e l => ?_) fun s => ?_
  · unfold threadZombieRemove
    dsimp only
    split
    · rfl
    · rfl
  · unfold threadZombieRemove
    split
    · rfl
    · rfl

/-- A stack is deferred while there is room among the deferred ones. -/
theorem deferStack (h : Twins past past' s s') (t : Tid) :
    Twins past past' (deferStackReclaim s t) (deferStackReclaim s' t) := by
  refine h.map (deferStackReclaim · t) (fun s e l => ?_) fun s => ?_
  · unfold deferStackReclaim
    dsimp only
    split
    · rfl
    · split
      · rfl
      · rfl
  · unfold deferStackReclaim
    split
    · rfl
    · split
      · rfl
      · rfl

theorem takeSlot (h : Twins past past' s s') (owner : Tid) (chunk : Nat) :
    TwinResults past past' (takeHeadRef s owner chunk) (takeHeadRef s' owner chunk) := by
  obtain ⟨new, e, hnew, rfl⟩ := h
  unfold takeHeadRef
  dsimp only
  generalize chunk * headRefChunkSize + s.headRefActiveIndex = ref
  exact ⟨⟨new, e, hnew, rfl⟩, rfl⟩

theorem newChunk (h : Twins past past' s s') (owner : Tid) (e : SlotEnv) :
    TwinResults past past' (threadHeadRefAlloc.newChunk s owner e)
      (threadHeadRefAlloc.newChunk s' owner e) := by
  obtain ⟨new, e', hnew, rfl⟩ := h
  unfold threadHeadRefAlloc.newChunk
  dsimp only
  split
  · exact ⟨⟨new, e', hnew, rfl⟩, rfl⟩
  · split
    · exact ⟨⟨new, e', hnew, rfl⟩, rfl⟩
    · apply takeSlot
      exact ⟨new, e', hnew, rfl⟩

/-- A slot is taken from the active chunk, or from a new one. -/
theorem slotAlloc (h : Twins past past' s s') (owner : Tid) (e : SlotEnv) :
    TwinResults past past' (threadHeadRefAlloc s owner e) (threadHeadRefAlloc s' owner e) := by
  have hnew := h.newChunk owner e
  have hactive : s'.headRefActiveChunk = s.headRefActiveChunk ∧
      s'.headRefActiveIndex = s.headRefActiveIndex := by
    obtain ⟨new, e', -, rfl⟩ := h
    exact ⟨rfl, rfl⟩
  unfold threadHeadRefAlloc
  rw [hactive.1, hactive.2]
  split
  · split
    · exact h.takeSlot owner _
    · exact hnew
  · exact hnew

/-- The set-up is made in both, or in neither. -/
theorem init (h : Twins past past' s s') (e : SlotEnv) :
    TwinResults past past' (schedulerInit s e) (schedulerInit s' e) := by
  have hslot := h.slotAlloc mainThread e
  have hinit : s'.schedulerInitialized = s.schedulerInitialized := by
    obtain ⟨new, e', -, rfl⟩ := h
    rfl
  unfold schedulerInit
  rw [hinit]
  split
  · exact ⟨h, rfl⟩
  · rcases hs : threadHeadRefAlloc s mainThread e with ⟨r, o⟩
    rcases hs' : threadHeadRefAlloc s' mainThread e with ⟨r', o'⟩
    rw [hs, hs'] at hslot
    obtain ⟨htwins, rfl : o = o'⟩ := hslot
    cases o with
    | none => exact ⟨htwins.modifyThread _ _, rfl⟩
    | some ref =>
        exact ⟨(htwins.modifyThread _ _).map ({ · with schedulerInitialized := true })
          (fun _ _ _ => rfl) fun _ => rfl, rfl⟩

/-- A struct comes from the pool, or from the environment, which is shared. -/
theorem alloc (h : Twins past past' s s') (fresh : Option Tid) :
    TwinResults past past' (threadAlloc s fresh) (threadAlloc s' fresh) := by
  obtain ⟨new, e, hnew, rfl⟩ := h
  unfold threadAlloc
  dsimp only
  split
  · exact ⟨⟨new, e, hnew, rfl⟩, rfl⟩
  · cases fresh with
    | none => exact ⟨⟨new, e, hnew, rfl⟩, rfl⟩
    | some t => exact ⟨⟨new, e, hnew, rfl⟩, rfl⟩

/-- A stack comes from the pool, or from the environment, which is shared. -/
theorem stackAlloc (h : Twins past past' s s') (b : Build) (env : StackEnv) :
    TwinResults past past' (stackPoolAlloc b s env) (stackPoolAlloc b s' env) := by
  obtain ⟨new, e, hnew, rfl⟩ := h
  unfold stackPoolAlloc
  dsimp only
  split
  · exact ⟨⟨new, e, hnew, rfl⟩, rfl⟩
  · split
    · exact ⟨⟨new, e, hnew, rfl⟩, rfl⟩
    · split
      · exact ⟨⟨new, e, hnew, rfl⟩, rfl⟩
      · exact ⟨⟨new, e, hnew, rfl⟩, rfl⟩

/-- The end of `thread_create`, with its way out when there is no slot. -/
theorem createThread (h : Twins past past' s s') (p : Policy) (newth : Tid) (entry : StackEntry)
    (e : SlotEnv) : TwinResults past past' (UserThreads.createThread p s newth entry e)
      (UserThreads.createThread p s' newth entry e) := by
  have hslot := (h.modifyThread newth fun th => th.fresh entry).slotAlloc newth e
  unfold UserThreads.createThread
  dsimp only
  rcases hs : threadHeadRefAlloc (s.modifyThread newth fun th => th.fresh entry) newth e
    with ⟨r, o⟩
  rcases hs' : threadHeadRefAlloc (s'.modifyThread newth fun th => th.fresh entry) newth e
    with ⟨r', o'⟩
  rw [hs, hs'] at hslot
  obtain ⟨htwins, rfl : o = o'⟩ := hslot
  cases o with
  | none =>
      exact ⟨(((htwins.modifyThread _ _).release newth).push entry).setErrno _, rfl⟩
  | some ref =>
      have hid : r'.nextThreadId = r.nextThreadId := by
        obtain ⟨new, e', -, rfl⟩ := htwins
        rfl
      have hnamed := (htwins.map ({ · with nextThreadId := r.nextThreadId + 1 })
        (fun _ _ _ => rfl) fun _ => rfl).modifyThread newth fun th =>
          { th with headJoiner := some ref, point := .entry, id := r.nextThreadId }
      have hlisted := hnamed.map (fun s => { s with handles := newth :: s.handles })
        (fun _ _ _ => rfl) fun _ => rfl
      dsimp only
      rw [hid]
      exact ⟨(hlisted.emit _).enqueue p newth, rfl⟩

/-- A turn of the stack loop: a stack, a yield, or the way out. -/
theorem createLoop (h : Twins past past' s s') (b : Build) (newth : Tid) (retries : Nat) (e : Env) :
    TwinResults past past' (UserThreads.createLoop b s newth retries e)
      (UserThreads.createLoop b s' newth retries e) := by
  have hstack := h.stackAlloc b e.stack
  unfold UserThreads.createLoop
  rcases hs : stackPoolAlloc b s e.stack with ⟨r, o⟩
  rcases hs' : stackPoolAlloc b s' e.stack with ⟨r', o'⟩
  rw [hs, hs'] at hstack
  obtain ⟨htwins, rfl : o = o'⟩ := hstack
  cases o with
  | some entry => exact htwins.createThread b.policy newth entry e.slot
  | none =>
      have hback : Twins past past' (reclaimDeferredStacksAll r) (reclaimDeferredStacksAll r') :=
        htwins.reclaim _
      have hq :
          (reclaimDeferredStacksAll r').readyQueue = (reclaimDeferredStacksAll r).readyQueue := by
        obtain ⟨new, e', -, heq⟩ := hback
        rw [heq]
      dsimp only
      rw [hq, hback.currentThread]
      split
      · exact ⟨(hback.release newth).setErrno _, rfl⟩
      · exact ⟨((hback.setPoint _ _).yield b.policy _).1, rfl⟩

/-- `thread_create` up to its return or first switch. -/
theorem create (h : Twins past past' s s') (b : Build) (newthread func : Bool) (e : Env) :
    TwinResults past past' (threadCreate b s newthread func e)
      (threadCreate b s' newthread func e) := by
  have hinit := h.init e.mainSlot
  unfold threadCreate
  split
  · exact ⟨h.setErrno _, rfl⟩
  · rcases hs : schedulerInit s e.mainSlot with ⟨r, ok⟩
    rcases hs' : schedulerInit s' e.mainSlot with ⟨r', ok'⟩
    rw [hs, hs'] at hinit
    obtain ⟨hr, rfl : ok = ok'⟩ := hinit
    cases ok with
    | false => exact ⟨hr.setErrno _, rfl⟩
    | true =>
        have halloc := hr.alloc e.thread
        dsimp only
        rcases hm : threadAlloc r e.thread with ⟨m, o⟩
        rcases hm' : threadAlloc r' e.thread with ⟨m', o'⟩
        rw [hm, hm'] at halloc
        obtain ⟨hmtw, rfl : o = o'⟩ := halloc
        cases o with
        | none => exact ⟨hmtw.setErrno _, rfl⟩
        | some newth =>
            have hpoint := hmtw.setPoint m.currentThread (.create newth 0)
            dsimp only
            rw [hmtw.currentThread]
            have hpools : (m'.setPoint m.currentThread (.create newth 0)).stackPool =
                (m.setPoint m.currentThread (.create newth 0)).stackPool ∧
                (m'.setPoint m.currentThread (.create newth 0)).deferredStacks =
                  (m.setPoint m.currentThread (.create newth 0)).deferredStacks := by
              obtain ⟨new, e', -, heq⟩ := hpoint
              rw [heq]
              exact ⟨rfl, rfl⟩
            rw [hpools.1, hpools.2]
            split
            · exact (hpoint.reclaim _).createLoop b newth 0 e
            · exact hpoint.createLoop b newth 0 e

end Twins

end UserThreads
