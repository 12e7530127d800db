import UserThreads.Operations.TwinsStep
import UserThreads.Operations.Join

/-!
# Joins that fail

A call of `thread_join` that returns an error at once is expected to leave no
mark. All its early exits keep to that. The last one, taken when no thread is
ready, comes after `joined_by` and the head slot have been written.
-/

namespace UserThreads

open Transition

/-- Only `errno` and the history are new. -/
def SameLibrary (s s' : State) : Prop :=
  s' = { s with errno := s'.errno, trace := s'.trace }

/-- Whatever is called later, it goes as it would have gone from `s`: the same
inputs are possible, the same events follow, and the same state is reached. -/
def AsIfNotMade (b : Build) (s s' : State) : Prop :=
  ∀ inputs : List Input,
    runSteps b s inputs = none ∧ runSteps b s' inputs = none ∨
      ∃ r r' new, runSteps b s inputs = some r ∧ runSteps b s' inputs = some r' ∧
        SameLibrary r r' ∧ r.trace = new ++ s.trace ∧ r'.trace = new ++ s'.trace

/-- The running thread calls `thread_join`, and the call returns `code ≠ 0`
without having blocked. -/
structure FailsAtOnce (b : Build) (s : State) (t : Option Tid) (retval : Bool) (e : Env)
    (code : Int) (s' : State) : Prop where
  step : step b s (.call (.threadJoin t retval) e) = some s'
  returned : (enter b s (.threadJoin t retval) e).2 = some code
  nonzero : code ≠ 0

section

variable {b : Build} {s s' : State} {t : Option Tid} {retval : Bool} {e : Env} {code : Int}

theorem SameLibrary.twins (h : SameLibrary s s') : Twins s.trace s'.trace s s' :=
  ⟨[], s'.errno, rfl, h⟩

/-- What runs from two states show when nothing but `errno` and the history
tells them apart. -/
theorem SameLibrary.asIfNotMade (h : SameLibrary s s') (b : Build) : AsIfNotMade b s s' := by
  intro inputs
  rcases h.twins.run b inputs with hnone | ⟨r, r', hr, hr', new, errno, hnew, rfl⟩
  · exact Or.inl hnone
  · exact Or.inr ⟨r, _, new, hr, hr', rfl, hnew, rfl⟩

/-- A return from a call that set `errno` at most. -/
theorem sameLibrary_finish {r : State} (c : Call) (code : Int)
    (huser : (s.threads s.currentThread).point = .user) (hr : SameLibrary s r) :
    SameLibrary s (finish c (r, some code)) := by
  have hpoint : ∀ f : Thread → Thread, f (s.threads s.currentThread) = s.threads s.currentThread →
      Function.update s.threads s.currentThread (f (s.threads s.currentThread)) = s.threads := by
    intro f hf
    rw [hf, Function.update_eq_self]
  unfold SameLibrary at hr ⊢
  rw [hr]
  simp only [finish, State.emit, State.setPoint, State.modifyThread]
  rw [hpoint fun th => { th with point := .user }]
  rw [← huser]

/-- With a thread ready, the caller past all checks is switched away. -/
theorem joinBlock_switches {target next : Tid} {slot : SlotRef} {rest : List Tid}
    (hq : s.readyQueue = next :: rest) : (joinBlock s target slot retval).2 = none := by
  unfold joinBlock
  by_cases hhead : s.headRefs slot = target
  · simp only [hhead, if_true]
    rw [threadSchedulerPickNext_cons (by exact hq)]
  · simp only [hhead, if_false]
    rw [threadSchedulerPickNext_cons (by exact hq)]

/-- Every way in which `thread_join` returns at once: it refuses and writes
`errno` only, it claims a terminated target, or it gives up for want of a ready
thread. -/
theorem threadJoin_at_once (h : (threadJoin s t retval).2 = some code) :
    SameLibrary s (threadJoin s t retval).1 ∨ code = 0 ∨
      ∃ target ∈ t, JoinBlocks s target ∧ s.readyQueue = [] := by
  unfold threadJoin at h ⊢
  split at h
  next => exact Or.inl rfl
  next target =>
    split at h
    next hjoined =>
      rw [if_pos hjoined]
      exact Or.inl rfl
    next hfree =>
      rw [if_neg hfree]
      split at h
      next hself =>
        rw [if_pos hself]
        exact Or.inl rfl
      next hself =>
        rw [if_neg hself]
        split at h
        next =>
          exact Or.inr (Or.inl (Option.some.inj h).symm)
        next hlive =>
          rw [if_neg hlive]
          split at h
          next slot own hslot hown =>
            split at h
            next hchain =>
              rw [if_pos hchain]
              exact Or.inl rfl
            next hchain =>
              rw [if_neg hchain]
              cases hq : s.readyQueue with
              | nil =>
                  refine Or.inr (Or.inr ⟨target, rfl, ⟨not_not.mp hfree, hself, hlive, ?_⟩, rfl⟩)
                  have hdiffer := not_and_or.mp hchain
                  simpa [slotsAllow, hslot, State.running, hown] using hdiffer
              | cons next rest =>
                  rw [joinBlock_switches hq] at h
                  cases h
          next => exact Or.inl rfl

/-- The last exit leaves the caller registered with its target. -/
theorem threadJoin_emptyExit {target : Tid} (ht : target ∈ t) (hblocks : JoinBlocks s target)
    (hq : s.readyQueue = []) :
    ((threadJoin s t retval).1.threads target).joinedBy = some s.currentThread := by
  obtain rfl : t = some target := ht
  obtain ⟨hfree, hself, hlive, hslots⟩ := hblocks
  unfold slotsAllow State.running at hslots
  cases hslot : (s.threads target).headJoiner with
  | none => simp [hslot] at hslots
  | some slot =>
      cases hown : (s.threads s.currentThread).headJoiner with
      | none => simp [hslot, hown] at hslots
      | some own =>
          have hchain : ¬ (s.headRefs slot = target ∧ own = slot) := by
            apply not_and_or.mpr
            simpa [hslot, hown] using hslots
          unfold threadJoin
          simp only [hfree, ne_eq, not_true, if_false, if_neg hself, if_neg hlive, hslot, hown,
            if_neg hchain]
          exact (joinBlock_nil hself hq).2

theorem finish_joinedBy (c : Call) (r : State) (x : Tid) :
    ((finish c (r, some code)).threads x).joinedBy = (r.threads x).joinedBy := by
  by_cases hx : x = r.currentThread
  · subst hx
    simp [finish, State.emit, State.setPoint, State.modifyThread]
  · simp [finish, State.emit, State.setPoint, State.modifyThread, Function.update_of_ne hx]

/-- A failed call is a call of the function that returned its code. -/
theorem FailsAtOnce.call (h : FailsAtOnce b s t retval e code s') :
    (s.threads s.currentThread).point = .user ∧ (threadJoin s t retval).2 = some code ∧
      s' = finish (.threadJoin t retval) ((threadJoin s t retval).1, some code) := by
  have hcode : (threadJoin s t retval).2 = some code := h.returned
  have hstep := h.step
  unfold UserThreads.step at hstep
  split at hstep
  next => cases hstep
  next =>
    dsimp only at hstep
    split at hstep
    next hguard =>
      refine ⟨hguard.1, hcode, (Option.some.inj hstep).symm.trans ?_⟩
      rw [← hcode]
      rfl
    next => cases hstep

/-- A call of `thread_join` that fails at once leaves the library as it was, so
that everything later goes as if it had not been made, exactly when it is not
the one that finds no thread ready. -/
theorem atomic_iff_of_failsAtOnce (h : FailsAtOnce b s t retval e code s') :
    SameLibrary s s' ∧ AsIfNotMade b s s' ↔ ¬ EmptyExit s (.call (.threadJoin t retval) e) := by
  obtain ⟨huser, hcode, rfl⟩ := h.call
  constructor
  · rintro ⟨hsame, -⟩ ⟨target, htarget, hblocks, hq⟩
    have hmarked : ((finish (.threadJoin t retval) ((threadJoin s t retval).1,
        some code)).threads target).joinedBy = some s.currentThread := by
      rw [finish_joinedBy]
      exact threadJoin_emptyExit htarget hblocks hq
    rw [hsame] at hmarked
    exact absurd (hblocks.1.symm.trans hmarked) (by simp)
  · intro hexit
    have hsame : SameLibrary s (threadJoin s t retval).1 := by
      rcases threadJoin_at_once hcode with hsame | hzero | ⟨target, htarget, hblocks, hq⟩
      · exact hsame
      · exact absurd hzero h.nonzero
      · exact absurd ⟨target, htarget, hblocks, hq⟩ hexit
    have hdone := sameLibrary_finish (.threadJoin t retval) code huser hsame
    exact ⟨hdone, hdone.asIfNotMade b⟩

end

/-- Thread 1 waits for thread 2, which joins it back while `main` is ready. The chain
test refuses the join, which leaves no mark. -/
theorem atomic_iff_of_failsAtOnce_chain : ∃ s s', Reach (step .fifo) Regular .initial s ∧
    s.handles = [2, 1, mainThread] ∧ s.readyQueue = [mainThread] ∧
      (s.threads 1).waitingFor = some 2 ∧ FailsAtOnce .fifo s (some 1) true .plain edeadlk s' ∧
        SameLibrary s s' ∧ AsIfNotMade .fifo s s' := by
  obtain ⟨s, hreach, hhandles, hready, hwaits, hcode, hmade⟩ := exists_reach_of_run (step .fifo)
    Regular State.initial
    [.create 1, .create 2, .plain .threadYield, .go, .plain (.threadJoin (some 2) true), .go]
    (fun s => s.handles = [2, 1, mainThread] ∧ s.readyQueue = [mainThread] ∧
      (s.threads 1).waitingFor = some 2 ∧
      (enter .fifo s (.threadJoin (some 1) true) .plain).2 = some edeadlk ∧
      (step .fifo s (.plain (.threadJoin (some 1) true))).isSome) (by decide +kernel)
  obtain ⟨s', hstep⟩ := Option.isSome_iff_exists.mp hmade
  have hfails : FailsAtOnce .fifo s (some 1) true .plain edeadlk s' :=
    ⟨hstep, hcode, by decide⟩
  have hexit : ¬ EmptyExit s (.plain (.threadJoin (some 1) true)) := by
    rintro ⟨target, -, -, hnone⟩
    rw [hready] at hnone
    cases hnone
  obtain ⟨hsame, hlater⟩ := (atomic_iff_of_failsAtOnce hfails).mpr hexit
  exact ⟨s, s', hreach, hhandles, hready, hwaits, hfails, hsame, hlater⟩

/-- `main` joins a thread that waits on a semaphore, with no thread ready, and
gets `EDEADLK`. Once the semaphore is posted, a second join of the thread
returns `EINVAL`; without the first it would have blocked until the exit. -/
theorem not_atomic_of_failsAtOnce : ∃ s s',
    Reach (step .fifo) ValidHandle .initial s ∧
      FailsAtOnce .fifo s (some 1) false .plain edeadlk s' ∧ ¬ SameLibrary s s' ∧
      ¬ AsIfNotMade .fifo s s' := by
  have hreach := exists_reach_of_run (step .fifo) ValidHandle State.initial
    [.plain (.threadSemInit (some 0) 0), .create 1, .plain .threadYield, .go,
      .plain (.threadSemWait (some 0)), .go]
    (fun s => (enter .fifo s (.threadJoin (some 1) false) .plain).2 = some edeadlk ∧
      (s.threads 1).joinedBy = none ∧
      (step .fifo s (.plain (.threadJoin (some 1) false))).map (fun s' =>
        (s'.threads 1).joinedBy) = some (some mainThread) ∧
      (runSteps .fifo s [.plain (.threadSemPost (some 0)),
        .plain (.threadJoin (some 1) false)]).map (·.currentThread) = some 1 ∧
      (step .fifo s (.plain (.threadJoin (some 1) false))).map (fun s' =>
        (runSteps .fifo s' [.plain (.threadSemPost (some 0)),
          .plain (.threadJoin (some 1) false)]).map (·.currentThread)) =
            some (some mainThread)) (by decide +kernel)
  obtain ⟨s, hreach, hcode, hfree, hjoined, hblocks, hrefused⟩ := hreach
  obtain ⟨s', hstep, hmarked⟩ := Option.map_eq_some_iff.mp hjoined
  rw [hstep, Option.map_some, Option.some_inj] at hrefused
  refine ⟨s, s', hreach, ⟨hstep, hcode, by decide⟩, fun hsame => ?_, fun hlater => ?_⟩
  · rw [hsame, hfree] at hmarked
    cases hmarked
  · rcases hlater [.plain (.threadSemPost (some 0)), .plain (.threadJoin (some 1) false)] with
      ⟨hnone, -⟩ | ⟨r, r', -, hr, hr', hsame, -⟩
    · rw [hnone] at hblocks
      cases hblocks
    · rw [hr] at hblocks
      rw [hr', hsame] at hrefused
      exact absurd (hblocks.symm.trans hrefused) (by decide)

end UserThreads
