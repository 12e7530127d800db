import UserThreads.Abstract.Contract
import UserThreads.Operations.Advance

/-!
# What the code writes

Every operation is a sequence of writes: to the globals, to one record, to the
history, to one lock word. Nothing is assumed about the state in which the
operation starts. What all writes have in common holds in every run.
-/

namespace UserThreads

open Transition

/-- The entry gives the mutex to a thread. -/
def Event.acquires (m : MutexId) : Event → Bool
  | .mutexTaken m' _ => decide (m' = m)
  | .woken q _ => decide (q = .mutex m)
  | _ => false

/-- The release code runs for `m`: after the test of `thread_mutex_unlock`, or
without a test, in `thread_cond_wait`. -/
def Releases (i : Input) (m : MutexId) (s : State) : Prop :=
  s.locked m ≠ -1 ∨ ∃ c, i.waits = some (c, m)

/-- The input may take memory from `malloc` and `mmap`: a creation, or a
resumption, which may be that of a creation. -/
def Input.allocates : Input → Bool
  | .call (.threadCreate true true) _ => true
  | .resume _ => true
  | _ => false

/-- What has been taken from `malloc` and `mmap`, and the mark of the one-time
set-up. -/
def State.memory (s : State) : List Tid × List Addr × Bool :=
  (s.heap, s.mappings, s.schedulerInitialized)

/-- What a write may be seen in, apart from the memory. -/
def State.written (s : State) : (Tid → Thread) × List Tid × (MutexId → Int) × List Event :=
  (s.threads, s.handles, s.locked, s.trace)

/-- No memory is taken, and nothing is set up. -/
structure Shrinks (s s' : State) : Prop where
  heap : s'.heap ⊆ s.heap
  mappings : s'.mappings ⊆ s.mappings
  setUp : s'.schedulerInitialized = s.schedulerInitialized

theorem Shrinks.of_eq {s s' : State} (h : s'.memory = s.memory) : Shrinks s s' := by
  obtain ⟨hheap, hrest⟩ := Prod.mk.inj h
  obtain ⟨hmappings, hsetUp⟩ := Prod.mk.inj hrest
  refine ⟨?_, ?_, hsetUp⟩
  · rw [hheap]
    exact List.Subset.refl _
  · rw [hmappings]
    exact List.Subset.refl _

theorem Shrinks.trans {s s₁ s' : State} (h : Shrinks s s₁) (h' : Shrinks s₁ s') : Shrinks s s' :=
  ⟨List.Subset.trans h'.heap h.heap, List.Subset.trans h'.mappings h.mappings,
    h'.setUp.trans h.setUp⟩

/-- One write within the stretch started by the input `i`. -/
inductive Write (i : Input) : State → State → Prop
  | globals {s s' : State} (hthreads : s'.threads = s.threads) (hhandles : s'.handles ⊆ s.handles)
      (hlocked : s'.locked = s.locked) (htrace : s'.trace = s.trace)
      (hmemory : i.allocates = true ∨ Shrinks s s') : Write i s s'
  | record {s : State} (t : Tid) (f : Thread → Thread)
      (hf : (f (s.threads t)).stackOverflow = (s.threads t).stackOverflow ∧
        (f (s.threads t)).id = (s.threads t).id) : Write i s (s.modifyThread t f)
  | emit {s : State} (e : Event) (he : ∀ m, e.acquires m = false) : Write i s (s.emit e)
  | clear {s : State} (n : Tid) (entry : StackEntry) :
      Write i s (s.modifyThread n fun th => th.fresh entry)
  | create {s : State} (n : Tid) (id : Nat) (ref : SlotRef)
      (hclear : (s.threads n).stackOverflow = false) :
      Write i s { s.modifyThread n fun th =>
          { th with headJoiner := some ref, point := .entry, id := id } with
        handles := n :: s.handles }
  | take {s : State} (m : MutexId) (hfree : s.locked m = 0) :
      Write i s ((s.setLocked m 1).emit (.mutexTaken m s.self))
  | wake {s : State} (q : QueueId) (id : Nat) (hq : ∀ m, q = .mutex m → Releases i m s) :
      Write i s (s.emit (.woken q id))
  | free {s : State} (m : MutexId) (hm : Releases i m s) : Write i s (s.setLocked m 0)
  | init {s : State} (m : MutexId) (hi : i.initialises = some (.mutex m)) :
      Write i s (s.setLocked m 0)
  | destroy {s : State} (m : MutexId) : Write i s (s.setLocked m (-1))

/-- Any number of writes. -/
abbrev Writes (i : Input) : State → State → Prop := Relation.ReflTransGen (Write i)

namespace Writes

variable {i : Input} {s s₁ s' : State}

/-- Memory changes hands. -/
theorem recycle (h : s'.written = s.written) (hmemory : i.allocates = true ∨ Shrinks s s') :
    Writes i s s' := by
  obtain ⟨hthreads, hrest⟩ := Prod.mk.inj h
  obtain ⟨hhandles, hrest⟩ := Prod.mk.inj hrest
  obtain ⟨hlocked, htrace⟩ := Prod.mk.inj hrest
  refine .single (.globals hthreads ?_ hlocked htrace hmemory)
  rw [hhandles]
  exact List.Subset.refl _

theorem globals (h : s'.written = s.written) (hmemory : s'.memory = s.memory) : Writes i s s' :=
  recycle h (Or.inr (.of_eq hmemory))

/-- What comes first writes globals only. -/
theorem after (h : Writes i s₁ s') (hwritten : s₁.written = s.written)
    (hmemory : s₁.memory = s.memory) : Writes i s s' :=
  (globals hwritten hmemory).trans h

/-- One record is rewritten, apart from the number and the overflow flag of its thread.
-/
theorem record (t : Tid) {f : Thread → Thread}
    (hf : (f (s.threads t)).stackOverflow = (s.threads t).stackOverflow ∧
      (f (s.threads t)).id = (s.threads t).id) : Writes i s (s.modifyThread t f) :=
  .single (.record t f hf)

theorem emit (s : State) (e : Event) (he : ∀ m, e.acquires m = false) : Writes i s (s.emit e) :=
  .single (.emit e he)

theorem setErrno (s : State) (e : Errno) : Writes i s (s.setErrno e) :=
  globals rfl rfl

theorem setState (s : State) (t : Tid) (st : ThreadState) (w : Option Waker) :
    Writes i s (s.setState t st w) := by
  have hstate : Writes i s (s.modifyThread t fun th => { th with state := st }) :=
    record t ⟨rfl, rfl⟩
  exact hstate.trans (emit _ _ fun _ => rfl)

theorem setPoint (s : State) (t : Tid) (k : Point) : Writes i s (s.setPoint t k) :=
  record t ⟨rfl, rfl⟩

theorem enqueue (p : Policy) (s : State) (t : Tid) :
    Writes i s (threadSchedulerEnqueue p s t) := by
  unfold threadSchedulerEnqueue
  split
  · exact .refl
  · refine after (record t ?_) rfl rfl
    exact ⟨rfl, rfl⟩

theorem remove (s : State) (t : Tid) : Writes i s (readyRemove s t) := by
  refine after (record t ?_) rfl rfl
  exact ⟨rfl, rfl⟩

theorem ready (p : Policy) (s : State) (t : Tid) (w : Option Waker) :
    Writes i s (threadSchedulerEnqueue p (s.setState t .ready w) t) :=
  (setState s t .ready w).trans (enqueue p _ t)

theorem pick {next : Tid} (h : threadSchedulerPickNext s = some (next, s')) : Writes i s s' := by
  unfold threadSchedulerPickNext at h
  split at h
  · cases h
  · cases h
    refine after (record _ ?_) rfl rfl
    exact ⟨rfl, rfl⟩

theorem dispatch (s : State) (next : Tid) :
    Writes i s ({ s with currentThread := next }.setState next .running none) :=
  after (setState _ next .running none) rfl rfl

theorem swap (s : State) (prev next : Tid) (k : Point) : Writes i s (swapThread s prev next k) :=
  (setPoint s prev k).trans (dispatch _ next)

theorem park (s : State) (q : QueueId) : Writes i s (park s q) := by
  have hqueued : Writes i s ((s.setState s.currentThread .blocked none).setQueue q
      (s.waitingQueue q ++ [s.currentThread])) :=
    (setState s s.currentThread .blocked none).trans (globals rfl rfl)
  exact hqueued.trans (emit _ _ fun _ => rfl)

theorem wakeFirst (p : Policy) (s : State) {q : QueueId}
    (hq : ∀ m, q = .mutex m → Releases i m s) : Writes i s (wakeFirst p s q) := by
  unfold UserThreads.wakeFirst
  split
  · exact .refl
  next t rest _ =>
    have hwoken : Writes i s ((s.setQueue q rest).emit (.woken q (s.threads t).id)) :=
      after (.single (.wake q _ hq)) rfl rfl
    exact hwoken.trans (ready p _ _ _)

theorem wakeAll (p : Policy) (c : CondId) (n : Nat) (s : State) :
    Writes i s (wakeAll p (.cond c) n s) := by
  induction n generalizing s with
  | zero => exact .refl
  | succ n ih =>
      unfold UserThreads.wakeAll
      split
      · exact .refl
      · exact (wakeFirst p s (by simp)).trans (ih _)

/-- The release code hands the mutex over only where it runs. -/
theorem releaseMutex (p : Policy) (s : State) {m : MutexId} (hm : Releases i m s) :
    Writes i s (releaseMutex p s m) := by
  have hreleased : Writes i s (s.emit (.mutexReleased m s.self)) := emit s _ fun _ => rfl
  unfold UserThreads.releaseMutex
  dsimp only
  split
  · refine hreleased.trans (wakeFirst p _ ?_)
    rintro m' hm'
    cases hm'
    exact hm
  · exact hreleased.tail (.free m hm)

/-- Aging rewrites priorities. -/
theorem age (s : State) (prev : Tid) : Writes i s (ageThreads s prev) := by
  have hwaiting : ∀ (l : List Tid) (r : State),
      Writes i r (l.foldl (fun r t => r.modifyThread t Thread.ageWaiting) r) := by
    intro l
    induction l with
    | nil => exact fun r => .refl
    | cons t rest ih =>
        intro r
        have hfirst : Writes i r (r.modifyThread t Thread.ageWaiting) := record t ⟨rfl, rfl⟩
        exact hfirst.trans (ih _)
  unfold ageThreads
  dsimp only
  split
  · refine (hwaiting s.readyQueue s).trans (record prev ?_)
    exact ⟨rfl, rfl⟩
  · exact hwaiting s.readyQueue s

theorem threadYield (p : Policy) (s : State) (k : Point) : Writes i s (threadYield p s k).1 := by
  unfold UserThreads.threadYield
  extract_lets prev s₁
  have hage : Writes i s s₁ := by
    cases p with
    | fifo => exact .refl
    | prio => exact age s s.currentThread
  split
  next => exact hage
  next next s₂ hpick =>
    have hpicked := hage.trans (pick hpick)
    split
    · exact hpicked
    · split
      · exact hpicked.trans (enqueue p _ _)
      · split
        · exact hpicked.trans ((ready p _ _ _).trans (swap _ _ _ _))
        · exact hpicked.trans (swap _ _ _ _)

theorem threadYieldTo (p : Policy) (s : State) (target : Option Tid) (k : Point) :
    Writes i s (threadYieldTo p s target k).1 := by
  unfold UserThreads.threadYieldTo
  split
  next => exact setErrno s _
  next target =>
    split
    · exact threadYield p s k
    · exact ((ready p s s.currentThread none).trans (remove _ target)).trans (swap _ _ _ _)

/-- A new priority rewrites one record, and may yield. -/
theorem threadSetPriority (p : Policy) (s : State) (t : Option Tid) (prio : Int) (k : Point) :
    Writes i s (threadSetPriority p s t prio k).1 := by
  unfold UserThreads.threadSetPriority
  split
  next => exact .refl
  next th =>
    extract_lets s₁
    have hset : Writes i s s₁ := record th ⟨rfl, rfl⟩
    split
    · exact hset
    · split
      · have hmoved := hset.trans ((remove s₁ th).trans (enqueue .prio _ th))
        split
        · exact hmoved.trans (threadYieldTo .prio _ _ k)
        · exact hmoved
      · exact hset

/-- A lock takes the mutex for its caller, or parks it. -/
theorem mutexLock (s : State) (m : MutexId) (k : Point) : Writes i s (mutexLock s m k).1 := by
  unfold UserThreads.mutexLock
  split
  · exact setErrno s _
  · split
    next hfree => exact .single (.take m hfree)
    next =>
      split
      next => exact .refl
      next next s₁ hpick => exact (pick hpick).trans ((park s₁ _).trans (swap _ _ _ _))

theorem condRelock (s : State) (c : CondId) (m : MutexId) (code : Int) :
    Writes i s (condRelock s c m code).1 := by
  have hlock : Writes i s (UserThreads.mutexLock s m (.condRelock c m code)).1 := mutexLock s m _
  unfold UserThreads.condRelock
  rcases heq : UserThreads.mutexLock s m (.condRelock c m code) with ⟨s', _ | code'⟩
  · rw [heq] at hlock
    exact hlock
  · rw [heq] at hlock
    exact hlock

theorem threadCondWait (p : Policy) (s : State) (c : Option CondId) (m : Option MutexId)
    (hi : ∀ c' m', c = some c' → m = some m' → i.waits = some (c', m')) :
    Writes i s (threadCondWait p s c m).1 := by
  unfold UserThreads.threadCondWait
  split
  next c m =>
    have hwaits := hi c m rfl rfl
    split
    next => exact (releaseMutex p s (Or.inr ⟨c, hwaits⟩)).trans (condRelock _ c m (-1))
    next next s₁ hpick =>
      exact ((pick hpick).trans (releaseMutex p s₁ (Or.inr ⟨c, hwaits⟩))).trans
        ((park _ _).trans (swap _ _ _ _))
  next => exact .refl

theorem threadSemWait (s : State) (sm : Option SemId) : Writes i s (threadSemWait s sm).1 := by
  unfold UserThreads.threadSemWait
  split
  next => exact .refl
  next sm =>
    split
    · exact after (emit (s.setCount sm (s.count sm - 1)) _ fun _ => rfl) rfl rfl
    · split
      next => exact .refl
      next next s₁ hpick => exact (pick hpick).trans ((park s₁ _).trans (swap _ _ _ _))

theorem threadSemPost (p : Policy) (s : State) (sm : Option SemId) :
    Writes i s (threadSemPost p s sm).1 := by
  unfold UserThreads.threadSemPost
  split
  next => exact .refl
  next sm =>
    have hposted : Writes i s (s.emit (.semPosted sm s.self)) := emit s _ fun _ => rfl
    dsimp only
    split
    · exact hposted.trans (wakeFirst p _ (by simp))
    · exact hposted.trans (globals rfl rfl)

theorem threadSignalSend (p : Policy) (s : State) (t : Option Tid) (sig : Int) :
    Writes i s (threadSignalSend p s t sig).1 := by
  unfold UserThreads.threadSignalSend
  split
  next => exact setErrno s _
  next target =>
    split
    · exact setErrno s _
    · extract_lets bit s₁ th
      have hsent : Writes i s s₁ := by
        have hpending : Writes i s (s.modifyThread target fun th =>
            { th with pendingSignals := th.pendingSignals ||| bit }) := record target ⟨rfl, rfl⟩
        exact hpending.trans (emit _ _ fun _ => rfl)
      split
      · have hawake : Writes i s₁ (s₁.modifyThread target fun th =>
            { th with waitingForSignal := false, waitedSignals := 0 }) := record target ⟨rfl, rfl⟩
        exact hsent.trans (hawake.trans (ready p _ _ _))
      · exact hsent

theorem sigwaitLoop (s : State) (set : BitVec 32) : Writes i s (sigwaitLoop s set).1 := by
  unfold UserThreads.sigwaitLoop
  extract_lets current available chosen s₁
  split
  · split
    · exact setErrno s _
    · have htaken : Writes i s (s.modifyThread current fun th =>
          { th with pendingSignals := th.pendingSignals &&& ~~~threadSignalBit chosen }) :=
        record current ⟨rfl, rfl⟩
      exact htaken.trans (emit _ _ fun _ => rfl)
  · have hwaits : Writes i s s₁ := by
      have hwaiting : Writes i s (s.modifyThread current fun th =>
          { th with waitingForSignal := true, waitedSignals := set }) := record current ⟨rfl, rfl⟩
      exact hwaiting.trans (setState _ _ _ _)
    split
    next =>
      have hidle : Writes i s₁ (s₁.modifyThread current fun th =>
          { th with waitingForSignal := false, waitedSignals := 0 }) := record current ⟨rfl, rfl⟩
      exact (hwaits.trans (hidle.trans (setState _ _ .running none))).trans (setErrno _ _)
    next next s₂ hpick => exact hwaits.trans ((pick hpick).trans (swap _ _ _ _))

theorem threadObjRelease (s : State) (t : Tid) : Writes i s (threadObjRelease s t) := by
  unfold UserThreads.threadObjRelease
  split
  · exact .refl
  · have hcleared : Writes i s (s.modifyThread t fun th => { th with headJoiner := none }) :=
      record t ⟨rfl, rfl⟩
    refine hcleared.trans (recycle ?_ (Or.inr ?_))
    · rw [threadFree_eq]
      rfl
    · unfold threadFree
      split
      · exact .of_eq rfl
      · exact ⟨List.erase_subset, List.Subset.refl _, rfl⟩

theorem stackPoolPush (s : State) (entry : StackEntry) : Writes i s (stackPoolPush s entry) := by
  unfold UserThreads.stackPoolPush
  split
  · exact recycle rfl (Or.inr ⟨List.Subset.refl _, List.erase_subset, rfl⟩)
  · exact globals rfl rfl

/-- A joiner gives memory back and takes none. -/
theorem claimTarget (s : State) (t : Tid) : Writes i s (claimTarget s t) := by
  have hremove : Writes i s (threadZombieRemove s t) := by
    unfold threadZombieRemove
    split
    · refine after (record t ?_) rfl rfl
      exact ⟨rfl, rfl⟩
    · exact .refl
  have hforget : ∀ r : State, Writes i s r → Writes i s { r with handles := r.handles.erase t } :=
    fun r hr => hr.tail (.globals rfl List.erase_subset rfl rfl (Or.inr (.of_eq rfl)))
  unfold UserThreads.claimTarget
  apply hforget
  split
  · exact .refl
  · extract_lets s₁ s₂
    have hrecycled : Writes i s₁ s₂ := by
      unfold s₂
      split
      · exact .refl
      · exact stackPoolPush s₁ _
    exact (hremove.trans hrecycled).trans (threadObjRelease s₂ t)

theorem joinBlock (s : State) (target : Tid) (slot : SlotRef) (retval : Bool) :
    Writes i s (joinBlock s target slot retval).1 := by
  unfold UserThreads.joinBlock
  extract_lets prev targetIsHead s₁ s₂ s₃ s₄
  have h₁ : Writes i s s₁ := record target ⟨rfl, rfl⟩
  have h₂ : Writes i s₁ s₂ := record prev ⟨rfl, rfl⟩
  have h₃ : Writes i s₂ s₃ := by
    unfold s₃
    split
    · exact globals rfl rfl
    · exact .refl
  have h₄ : Writes i s₃ s₄ :=
    Relation.ReflTransGen.trans (setState s₃ prev .blocked none) (record prev ⟨rfl, rfl⟩)
  have hblocked := ((h₁.trans h₂).trans h₃).trans h₄
  split
  next =>
    have hback : Writes i s₄ ((s₄.setState prev .running none).modifyThread prev fun th =>
        { th with waitingFor := none }) :=
      Relation.ReflTransGen.trans (setState s₄ prev .running none) (record prev ⟨rfl, rfl⟩)
    exact (hblocked.trans hback).trans (setErrno _ _)
  next next s₅ hpick => exact hblocked.trans ((pick hpick).trans (swap _ _ _ _))

/-- A join claims its target, blocks or refuses. -/
theorem threadJoin (s : State) (t : Option Tid) (retval : Bool) :
    Writes i s (threadJoin s t retval).1 := by
  unfold UserThreads.threadJoin
  split
  next => exact setErrno s _
  next target =>
    split
    · exact setErrno s _
    · split
      · exact setErrno s _
      · split
        · exact (claimTarget s target).trans (emit _ _ fun _ => rfl)
        · split
          · split
            · exact setErrno s _
            · exact joinBlock s target _ retval
          · exact setErrno s _

theorem joinResume (s : State) (t : Tid) (retval : Bool) :
    Writes i s (joinResume s t retval).1 := by
  unfold UserThreads.joinResume
  extract_lets s₁ stored id
  have hback : Writes i s s₁ := by
    have hleft : Writes i s (s.modifyThread s.currentThread fun th =>
        { th with waitingFor := none }) := record s.currentThread ⟨rfl, rfl⟩
    exact hleft.trans (setState _ _ _ _)
  have hclaimed := hback.trans (claimTarget s₁ t)
  split
  · exact (hclaimed.trans (setErrno _ _)).trans (emit _ _ fun _ => rfl)
  · exact hclaimed.trans (emit _ _ fun _ => rfl)

end Writes

end UserThreads
