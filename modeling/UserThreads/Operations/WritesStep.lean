import UserThreads.Operations.Writes

/-!
# What a step writes

Creations and exits as writes, and with them every step. Only a creation takes
memory.
-/

namespace UserThreads

open Transition

namespace Writes

variable {i : Input} {s s₁ s' : State}

/-- The slots are globals. -/
theorem threadHeadRefAlloc (s : State) (owner : Tid) (e : SlotEnv) :
    Writes i s (threadHeadRefAlloc s owner e).1 := by
  have hnew : Writes i s (threadHeadRefAlloc.newChunk s owner e).1 := by
    unfold threadHeadRefAlloc.newChunk
    split
    · exact .refl
    · split
      · exact globals rfl rfl
      · exact globals rfl rfl
  unfold UserThreads.threadHeadRefAlloc
  split
  · split
    · exact globals rfl rfl
    · exact hnew
  · exact hnew

theorem schedulerInit (s : State) (e : SlotEnv) (hi : i.allocates = true) :
    Writes i s (schedulerInit s e).1 := by
  have hslot : Writes i s (UserThreads.threadHeadRefAlloc s mainThread e).1 :=
    threadHeadRefAlloc s mainThread e
  unfold UserThreads.schedulerInit
  split
  · exact .refl
  · rcases halloc : UserThreads.threadHeadRefAlloc s mainThread e with ⟨s', _ | ref⟩
    · rw [halloc] at hslot
      have hhead : Writes i s' (s'.modifyThread mainThread fun th =>
          { th with headJoiner := none }) := record mainThread ⟨rfl, rfl⟩
      exact hslot.trans hhead
    · rw [halloc] at hslot
      have hhead : Writes i s' (s'.modifyThread mainThread fun th =>
          { th with headJoiner := some ref }) := record mainThread ⟨rfl, rfl⟩
      exact (hslot.trans hhead).trans (recycle rfl (Or.inl hi))

/-- The struct of a new thread is cleared before the thread is known. -/
theorem createThread (p : Policy) (s : State) (n : Tid) (entry : StackEntry) (e : SlotEnv) :
    Writes i s (createThread p s n entry e).1 := by
  have hfill : Writes i s (s.modifyThread n fun th => th.fresh entry) := .single (.clear n entry)
  have hslot : Writes i _ (UserThreads.threadHeadRefAlloc
      (s.modifyThread n fun th => th.fresh entry) n e).1 := threadHeadRefAlloc _ n e
  have hthreads := (schedule_threadHeadRefAlloc (s.modifyThread n fun th => th.fresh entry) n e).2
  unfold UserThreads.createThread
  dsimp only
  rcases halloc : UserThreads.threadHeadRefAlloc (s.modifyThread n fun th => th.fresh entry) n e
    with ⟨s', o⟩
  rw [halloc] at hslot hthreads
  have hgiven := hfill.trans hslot
  cases o with
  | none =>
      have hcleared : Writes i s' (s'.modifyThread n fun th => { th with headJoiner := none }) :=
        record n ⟨rfl, rfl⟩
      exact (hgiven.trans hcleared).trans
        (((threadObjRelease _ n).trans (stackPoolPush _ entry)).trans (setErrno _ _))
  | some ref =>
      have hclear : (s'.threads n).stackOverflow = false := by
        rw [show s'.threads = _ from hthreads]
        simp [State.modifyThread, Thread.fresh]
      have hcreated : Writes i s' { s'.modifyThread n fun th =>
            { th with headJoiner := some ref, point := .entry, id := s'.nextThreadId } with
          handles := n :: s'.handles } := .single (.create n s'.nextThreadId ref hclear)
      refine (hgiven.trans hcreated).trans (Relation.ReflTransGen.trans ?_ (enqueue p _ n))
      exact after (emit { s'.modifyThread n fun th =>
          { th with headJoiner := some ref, point := .entry, id := s'.nextThreadId } with
        nextThreadId := s'.nextThreadId + 1
        handles := n :: s'.handles } _ fun _ => rfl) rfl rfl

theorem reclaimDeferredStacksAll (s : State) : Writes i s (reclaimDeferredStacksAll s) := by
  obtain ⟨-, pool, mappings, deferred, hsub, heq⟩ :=
    reclaimDeferredStacksBatch_moves (i := i) maxDeferredStacks s
  unfold UserThreads.reclaimDeferredStacksAll
  rw [heq]
  exact recycle rfl (Or.inr ⟨List.Subset.refl _, hsub, rfl⟩)

theorem stackPoolAlloc (b : Build) (s : State) (e : StackEnv) (hi : i.allocates = true) :
    Writes i s (stackPoolAlloc b s e).1 := by
  unfold UserThreads.stackPoolAlloc
  split
  · exact globals rfl rfl
  · split
    · exact .refl
    · split
      · exact .refl
      · exact recycle rfl (Or.inl hi)

theorem threadAlloc (s : State) (fresh : Option Tid) (hi : i.allocates = true) :
    Writes i s (threadAlloc s fresh).1 := by
  unfold UserThreads.threadAlloc
  split
  · exact globals rfl rfl
  · split
    · exact .refl
    · exact recycle rfl (Or.inl hi)

theorem createLoop (b : Build) (s : State) (n : Tid) (retries : Nat) (e : Env)
    (hi : i.allocates = true) : Writes i s (createLoop b s n retries e).1 := by
  have hstack : Writes i s (UserThreads.stackPoolAlloc b s e.stack).1 :=
    stackPoolAlloc b s e.stack hi
  unfold UserThreads.createLoop
  rcases halloc : UserThreads.stackPoolAlloc b s e.stack with ⟨s', _ | entry⟩
  · rw [halloc] at hstack
    have hreclaimed := hstack.trans (reclaimDeferredStacksAll s')
    dsimp only
    split
    · exact hreclaimed.trans ((threadObjRelease _ n).trans (setErrno _ _))
    · exact hreclaimed.trans ((setPoint _ _ _).trans (threadYield b.policy _ _))
  · rw [halloc] at hstack
    exact hstack.trans (createThread b.policy s' n entry e.slot)

theorem threadCreate (b : Build) (s : State) (newthread func : Bool) (e : Env)
    (hi : newthread = true → func = true → i.allocates = true) :
    Writes i s (threadCreate b s newthread func e).1 := by
  unfold UserThreads.threadCreate
  split
  next => exact setErrno s _
  next hargs =>
    have hi : i.allocates = true := by
      rw [not_or, Bool.not_eq_false, Bool.not_eq_false] at hargs
      exact hi hargs.1 hargs.2
    have hinit : Writes i s (UserThreads.schedulerInit s e.mainSlot).1 :=
      schedulerInit s e.mainSlot hi
    rcases heq : UserThreads.schedulerInit s e.mainSlot with ⟨s₁, _ | _⟩
    · rw [heq] at hinit
      exact hinit.trans (setErrno _ _)
    · rw [heq] at hinit
      have hstruct : Writes i s₁ (UserThreads.threadAlloc s₁ e.thread).1 :=
        threadAlloc s₁ e.thread hi
      dsimp only
      rcases halloc : UserThreads.threadAlloc s₁ e.thread with ⟨s₂, _ | n⟩
      · rw [halloc] at hstruct
        exact (hinit.trans hstruct).trans (setErrno _ _)
      · rw [halloc] at hstruct
        have hstart : Writes i s (s₂.setPoint s₂.currentThread (.create n 0)) :=
          (hinit.trans hstruct).trans (setPoint s₂ _ _)
        dsimp only
        split
        · exact hstart.trans ((reclaimDeferredStacksAll _).trans (createLoop b _ n 0 e hi))
        · exact hstart.trans (createLoop b _ n 0 e hi)

theorem exitZombie (s : State) (d : Tid) : Writes i s (exitZombie s d) := by
  have hdefer : Writes i s (deferStackReclaim s d) := by
    unfold deferStackReclaim
    split
    · exact .refl
    · split
      · refine after (record d ?_) rfl rfl
        exact ⟨rfl, rfl⟩
      · exact .refl
  have hadd : Writes i s (threadZombieAdd (deferStackReclaim s d) d) := by
    refine hdefer.trans (after (record d ?_) rfl rfl)
    exact ⟨rfl, rfl⟩
  unfold UserThreads.exitZombie
  dsimp only
  split
  · exact .refl
  · split
    · exact hadd
    · split
      · exact hadd
      · exact hdefer

theorem threadExit (p : Policy) (s : State) (v : Value) : Writes i s (threadExit p s v) := by
  unfold UserThreads.threadExit
  extract_lets dying s₁ s₂
  have hleft : Writes i s s₁ := by
    have hvalue : Writes i s (s.modifyThread dying fun th => { th with retval := v }) :=
      record dying ⟨rfl, rfl⟩
    exact hvalue.trans (emit _ _ fun _ => rfl)
  have hwoken : Writes i s s₂ := by
    refine (hleft.trans (setState s₁ dying .terminated none)).trans ((exitZombie _ dying).trans ?_)
    unfold s₂ exitWake
    split
    · exact .refl
    · exact ready p _ _ _
  split
  next => exact hwoken.trans (globals rfl rfl)
  next next s₃ hpick => exact hwoken.trans ((pick hpick).trans (dispatch s₃ next))

theorem finish (c : Call) {r : State × Option Int} (h : Writes i s r.1) :
    Writes i s (finish c r) := by
  obtain ⟨s', _ | code⟩ := r
  · exact h
  · exact h.trans ((emit s' _ fun _ => rfl).trans (setPoint _ _ _))

end Writes

/-- A call writes, unless it is a fault. -/
theorem enter_writes (b : Build) (s : State) {i : Input} {c : Call} {e : Env} (hi : i = .call c e)
    (hc : c ≠ .guardPageFault) : Writes i s (enter b s c e).1 := by
  subst hi
  cases c with
  | threadCreate newthread func => exact .threadCreate b s newthread func e (by rintro rfl rfl; rfl)
  | threadYield => exact .threadYield b.policy s _
  | threadYieldTo target => exact .threadYieldTo b.policy s target _
  | threadSetPriority t prio => exact .threadSetPriority b.policy s t prio _
  | threadExit retval => exact .threadExit b.policy s retval
  | threadJoin t retval => exact .threadJoin s t retval
  | threadMutexInit m =>
      cases m with
      | none => exact .refl
      | some m =>
          have hset : Writes (.call (.threadMutexInit (some m)) e) s
              ((s.setLocked m 0).initQueue (.mutex m)) :=
            Relation.ReflTransGen.trans (.single (.init m rfl))
              (Writes.globals rfl rfl)
          exact hset.trans (Writes.emit _ _ fun _ => rfl)
  | threadMutexDestroy m =>
      simp only [enter, threadMutexDestroy]
      split
      · exact .refl
      next m =>
        split
        · exact .refl
        · exact Relation.ReflTransGen.trans (.single (.destroy m)) (Writes.emit _ _ fun _ => rfl)
  | threadMutexLock m =>
      cases m with
      | none => exact .refl
      | some m => exact .mutexLock s m _
  | threadMutexUnlock m =>
      simp only [enter, threadMutexUnlock]
      split
      · exact .refl
      · split
        · exact .setErrno s _
        next hvalid =>
          split
          · exact .refl
          · exact .releaseMutex b.policy s (Or.inl hvalid)
  | threadCondInit c =>
      cases c with
      | none => exact .refl
      | some c =>
          exact Writes.after (Writes.emit (s.initQueue (.cond c)) _ fun _ => rfl) rfl rfl
  | threadCondDestroy c =>
      simp only [enter, threadCondDestroy]
      split
      · exact .refl
      · split
        · exact .refl
        · exact .refl
  | threadCondWait c m =>
      refine .threadCondWait b.policy s c m ?_
      rintro c' m' rfl rfl
      rfl
  | threadCondSignal c =>
      cases c with
      | none => exact .refl
      | some c => exact .wakeFirst b.policy s (by simp)
  | threadCondBroadcast c =>
      cases c with
      | none => exact .refl
      | some c => exact .wakeAll b.policy c _ s
  | threadSemInit sm value =>
      simp only [enter, threadSemInit]
      split
      · exact .refl
      next sm =>
        split
        · exact .refl
        · exact Writes.after
            (Writes.emit ((s.setCount sm value).initQueue (.sem sm)) _ fun _ => rfl) rfl rfl
  | threadSemDestroy sm =>
      simp only [enter, threadSemDestroy]
      split
      · exact .refl
      next sm =>
        split
        · exact .refl
        · exact Writes.after (Writes.emit (s.setCount sm 0) _ fun _ => rfl) rfl rfl
  | threadSemWait sm => exact .threadSemWait s sm
  | threadSemPost sm => exact .threadSemPost b.policy s sm
  | threadSignalSend t sig => exact .threadSignalSend b.policy s t sig
  | threadSigwait set sig =>
      simp only [enter, threadSigwait]
      split
      · exact .setErrno s _
      · exact .sigwaitLoop s set
  | guardPageFault => exact absurd rfl hc
  | exit => exact .globals rfl rfl

theorem continueAt_writes {b : Build} {s s' : State} {i : Input} {e : Env} {k : Point}
    (hs : continueAt b s e k = some s') (hi : ∀ n r, k = .create n r → i.allocates = true) :
    Writes i s s' := by
  cases k with
  | user => cases hs
  | entry =>
      cases hs
      exact .setPoint s _ _
  | yielded c =>
      cases hs
      exact .finish c .refl
  | create n retries =>
      cases hs
      exact .finish _ (.createLoop b s n retries e (hi n retries rfl))
  | join target retval =>
      cases hs
      exact .finish _ (.joinResume s target retval)
  | mutexLock m =>
      cases hs
      exact .finish _ .refl
  | condWait c m =>
      cases hs
      exact .finish _ (.condRelock s c m 0)
  | condRelock c m code =>
      cases hs
      exact .finish _ .refl
  | semWait sm =>
      cases hs
      exact .finish _ .refl
  | sigwait set =>
      cases hs
      exact .finish _ (.sigwaitLoop s set)

/-- The running thread, marked as killed by a stack overflow. -/
def State.marked (s : State) : State :=
  s.modifyThread s.currentThread fun th => { th with stackOverflow := true }

/-- Every step writes, after the mark of the fault handler if it is a fault that
the handler takes for an overflow of the running thread. -/
theorem step_writes {b : Build} {s s' : State} {i : Input} (hs : step b s i = some s') :
    Writes i s s' ∨ b.overflowDetection = true ∧ s.running.stackMap ≠ none ∧
      s' = threadExit b.policy s.marked 0 ∧ Writes i s.marked s' := by
  cases i with
  | resume e => exact Or.inl (continueAt_writes (step_resume hs) fun _ _ _ => rfl)
  | call c e =>
      obtain ⟨-, rfl⟩ := step_call hs
      by_cases hc : c = .guardPageFault
      · subst hc
        have hended : Writes (.call .guardPageFault e) s { s with ended := true } :=
          .globals rfl rfl
        by_cases hdetect : b.overflowDetection = true
        · by_cases hstack : s.running.stackMap = none
          · have hend : finish .guardPageFault (enter b s .guardPageFault e) =
                { s with ended := true } := by
              simp only [enter, hdetect, if_true, finish, sigsegvHandler]
              exact if_pos hstack
            rw [hend]
            exact Or.inl hended
          · have hexit : finish .guardPageFault (enter b s .guardPageFault e) =
                threadExit b.policy s.marked 0 := by
              simp only [enter, hdetect, if_true, finish, sigsegvHandler]
              exact if_neg hstack
            rw [hexit]
            exact Or.inr ⟨hdetect, hstack, rfl, .threadExit b.policy s.marked 0⟩
        · have hend : finish .guardPageFault (enter b s .guardPageFault e) =
              { s with ended := true } := by
            simp only [enter, finish]
            rw [if_neg hdetect]
          rw [hend]
          exact Or.inl hended
      · exact Or.inl (.finish c (enter_writes b s rfl hc))

theorem Write.shrinks {i : Input} {s s' : State} (h : Write i s s') (hi : i.allocates = false) :
    Shrinks s s' := by
  cases h with
  | globals hthreads hhandles hlocked htrace hmemory =>
      exact hmemory.resolve_left (by simp [hi])
  | record t f hf => exact .of_eq rfl
  | emit e he => exact .of_eq rfl
  | clear n entry => exact .of_eq rfl
  | create n id ref hclear => exact .of_eq rfl
  | take m hfree => exact .of_eq rfl
  | wake q id hq => exact .of_eq rfl
  | free m hm => exact .of_eq rfl
  | init m hi => exact .of_eq rfl
  | destroy m => exact .of_eq rfl

theorem Writes.shrinks {i : Input} {s s' : State} (h : Writes i s s') (hi : i.allocates = false) :
    Shrinks s s' := by
  induction h with
  | refl => exact .of_eq rfl
  | tail _ hw ih => exact ih.trans (hw.shrinks hi)

/-- Only a creation, or its resumption, takes memory. -/
theorem step_shrinks {b : Build} {s s' : State} {i : Input} (hs : step b s i = some s')
    (hcall : ∀ e, i ≠ .call (.threadCreate true true) e)
    (hpoint : ∀ n r, s.running.point ≠ .create n r) : Shrinks s s' := by
  cases i with
  | resume e =>
      -- The same writes would be made within a call that takes no memory.
      have hwrites : Writes (.plain .threadYield) s s' :=
        continueAt_writes (step_resume hs) fun n r hk => absurd hk (hpoint n r)
      exact hwrites.shrinks rfl
  | call c e =>
      have hi : (Input.call c e).allocates = false := by
        unfold Input.allocates
        split
        next heq => exact absurd heq (hcall _)
        next heq => cases heq
        next => rfl
      rcases step_writes hs with hwrites | ⟨-, -, -, hwrites⟩
      · exact hwrites.shrinks hi
      · have hmarked : Shrinks s s.marked := .of_eq rfl
        exact hmarked.trans (hwrites.shrinks hi)

end UserThreads
