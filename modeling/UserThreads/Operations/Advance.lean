import UserThreads.Operations.Preemption

/-!
# One step of the preemptive process

What a piece outside critical sections can do, everything that a step can be, and
the mask: every piece of a critical section runs with the timer signal blocked.
-/

namespace UserThreads

open Transition

/-! What the helpers of `thread_create` write. -/

/-- The fields that no helper of `thread_create` touches. -/
def State.schedule (s : State) :=
  (s.currentThread, s.readyQueue, s.handles, s.ended, s.waitingQueue, s.zombieQueue)

section

variable (s : State)

theorem schedule_threadHeadRefAlloc (owner : Tid) (e : SlotEnv) :
    (threadHeadRefAlloc s owner e).1.schedule = s.schedule ∧
      (threadHeadRefAlloc s owner e).1.threads = s.threads := by
  have hnew : (threadHeadRefAlloc.newChunk s owner e).1.schedule = s.schedule ∧
      (threadHeadRefAlloc.newChunk s owner e).1.threads = s.threads := by
    unfold threadHeadRefAlloc.newChunk
    split
    · exact ⟨rfl, rfl⟩
    · split
      · exact ⟨rfl, rfl⟩
      · exact ⟨rfl, rfl⟩
  unfold threadHeadRefAlloc
  split
  · split
    · exact ⟨rfl, rfl⟩
    · exact hnew
  · exact hnew

theorem schedule_schedulerInit (e : SlotEnv) : (schedulerInit s e).1.schedule = s.schedule := by
  unfold schedulerInit
  split
  · rfl
  · have hslot := (schedule_threadHeadRefAlloc s mainThread e).1
    rcases halloc : threadHeadRefAlloc s mainThread e with ⟨s', _ | ref⟩
    · rw [halloc] at hslot
      exact hslot
    · rw [halloc] at hslot
      exact hslot

theorem schedule_threadAlloc (fresh : Option Tid) :
    (threadAlloc s fresh).1.schedule = s.schedule ∧
      (threadAlloc s fresh).1.threads = s.threads := by
  unfold threadAlloc
  split
  · exact ⟨rfl, rfl⟩
  · split
    · exact ⟨rfl, rfl⟩
    · exact ⟨rfl, rfl⟩

theorem schedule_reclaimDeferredStacksAll :
    (reclaimDeferredStacksAll s).schedule = s.schedule ∧
      (reclaimDeferredStacksAll s).threads = s.threads := by
  obtain ⟨-, pool, mappings, deferred, -, heq⟩ :=
    reclaimDeferredStacksBatch_moves (i := .resume .plain) maxDeferredStacks s
  unfold reclaimDeferredStacksAll
  rw [heq]
  exact ⟨rfl, rfl⟩

theorem schedule_stackPoolAlloc (b : Build) (e : StackEnv) :
    (stackPoolAlloc b s e).1.schedule = s.schedule ∧
      (stackPoolAlloc b s e).1.threads = s.threads := by
  unfold stackPoolAlloc
  split
  · exact ⟨rfl, rfl⟩
  · split
    · exact ⟨rfl, rfl⟩
    · split
      · exact ⟨rfl, rfl⟩
      · exact ⟨rfl, rfl⟩

theorem schedule_stackPoolPush (entry : StackEntry) :
    (stackPoolPush s entry).schedule = s.schedule ∧
      (stackPoolPush s entry).threads = s.threads := by
  rw [stackPoolPush_eq]
  exact ⟨rfl, rfl⟩

theorem schedule_threadObjRelease (t : Tid) : (threadObjRelease s t).schedule = s.schedule := by
  unfold threadObjRelease
  split
  · rfl
  · rw [threadFree_eq]
    rfl

end

section

variable {b : Build} {s : State} {e : Env}

theorem schedule_refused {c : Call} {s' : State} {err : Errno} {code : Int}
    (h : s'.schedule = s.schedule) :
    (refused c (s'.setErrno err) code).1.schedule = s.schedule := h

/-- No part of `thread_create` before its critical section touches the
scheduler. -/
theorem Piece.schedule_inCreate {p : Piece} (hp : p.inCreate = true) :
    (p.perform b s e).1.schedule = s.schedule := by
  cases p with
  | createInit newthread func =>
      simp only [Piece.perform]
      split
      · exact schedule_refused rfl
      · have hinit := schedule_schedulerInit s e.mainSlot
        rcases heq : schedulerInit s e.mainSlot with ⟨s', _ | _⟩
        · rw [heq] at hinit
          exact schedule_refused hinit
        · rw [heq] at hinit
          exact hinit
  | createAlloc =>
      have halloc := (schedule_threadAlloc s e.thread).1
      simp only [Piece.perform]
      rcases heq : threadAlloc s e.thread with ⟨s', _ | newth⟩
      · rw [heq] at halloc
        exact schedule_refused halloc
      · rw [heq] at halloc
        exact halloc
  | createReclaim newth =>
      simp only [Piece.perform]
      split
      · exact (schedule_reclaimDeferredStacksAll s).1
      · rfl
  | createStack newth retries =>
      have halloc := (schedule_stackPoolAlloc s b e.stack).1
      simp only [Piece.perform]
      rcases heq : stackPoolAlloc b s e.stack with ⟨s', _ | entry⟩
      · rw [heq] at halloc
        exact halloc
      · rw [heq] at halloc
        exact halloc
  | createRetry newth retries =>
      have hreclaim := (schedule_reclaimDeferredStacksAll s).1
      simp only [Piece.perform]
      split
      · exact schedule_refused
          ((schedule_threadObjRelease (reclaimDeferredStacksAll s) newth).trans hreclaim)
      · exact hreclaim
  | createFill newth entry => rfl
  | createSlot newth entry =>
      have hslot := (schedule_threadHeadRefAlloc s newth e.slot).1
      simp only [Piece.perform]
      rcases heq : threadHeadRefAlloc s newth e.slot with ⟨s', _ | ref⟩
      · rw [heq] at hslot
        have hpush := schedule_stackPoolPush (threadObjRelease
          (s'.modifyThread newth fun th => { th with headJoiner := none }) newth) entry
        have hrelease := schedule_threadObjRelease
          (s'.modifyThread newth fun th => { th with headJoiner := none }) newth
        exact schedule_refused ((hpush.1.trans hrelease).trans hslot)
      · rw [heq] at hslot
        exact hslot
  | _ => cases hp

/-- Outside critical sections no piece switches. Only `thread_create` works on
the recycling state there, and only the branch of `thread_yield` that keeps its
caller running works on the ready queue. -/
theorem Piece.perform_unmasked {p : Piece} (hproper : p.Proper) (hmask : p.masked = false) :
    (p.perform b s e).1.currentThread = s.currentThread ∧
      (p.inCreate = false → (p.perform b s e).1.recycling = s.recycling) ∧
      ((∀ next, p ≠ .requeue next) → (p.perform b s e).1.readyQueue = s.readyQueue) := by
  by_cases hcreate : p.inCreate = true
  · have hsame := Piece.schedule_inCreate (b := b) (s := s) (e := e) hcreate
    refine ⟨congrArg Prod.fst hsame, fun hfalse => ?_, fun _ => congrArg (·.2.1) hsame⟩
    rw [hcreate] at hfalse
    cases hfalse
  · cases p with
    | start => exact ⟨rfl, fun _ => rfl, fun _ => rfl⟩
    | requeue next =>
        refine ⟨?_, fun _ => ?_, fun hne => absurd rfl (hne next)⟩
        · simp only [Piece.perform, threadSchedulerEnqueue]
          split
          · rfl
          · rfl
        · simp only [Piece.perform, threadSchedulerEnqueue]
          split
          · rfl
          · rfl
    | joinCheck t retval =>
        rcases joinCheck_cases b s e t retval with ⟨_, _, heq⟩ | ⟨target, _, _, _, heq⟩
        · rw [heq]
          exact ⟨rfl, fun _ => rfl, fun _ => rfl⟩
        · rw [heq]
          exact ⟨rfl, fun _ => rfl, fun _ => rfl⟩
    | direct c =>
        have hfinish : ∀ r : State × Option Int, (finish c r).currentThread = r.1.currentThread ∧
            (finish c r).recycling = r.1.recycling ∧ (finish c r).readyQueue = r.1.readyQueue := by
          rintro ⟨s', _ | code⟩
          · exact ⟨rfl, rfl, rfl⟩
          · exact ⟨rfl, rfl, rfl⟩
        obtain ⟨hcurrent, hrecycling, hqueue⟩ := hfinish (enter b s c e)
        have hsame : (enter b s c e).1.currentThread = s.currentThread ∧
            (enter b s c e).1.recycling = s.recycling ∧
            (enter b s c e).1.readyQueue = s.readyQueue := by
          rcases enter_direct hproper b s e with ⟨errno, heq⟩ | ⟨cond, heq⟩ | heq
          all_goals rw [heq]; exact ⟨rfl, rfl, rfl⟩
        exact ⟨hcurrent.trans hsame.1, fun _ => hrecycling.trans hsame.2.1,
          fun _ => hqueue.trans hsame.2.2⟩
    | assign q v => cases q <;> exact ⟨rfl, fun _ => rfl, fun _ => rfl⟩
    | tailqInit q => exact ⟨rfl, fun _ => rfl, fun _ => rfl⟩
    | tailqEmpty c q v => exact ⟨rfl, fun _ => rfl, fun _ => rfl⟩
    | _ => first | exact absurd rfl hcreate | cases hmask

end

/-- The value that a piece stores in the counter of a semaphore. -/
def Piece.counts (s : State) : Piece → Option Int
  | .assign (.sem _) v => some v
  | .critical (.threadSemPost (some sm)) =>
      if s.waitingQueue (.sem sm) = [] then some (s.count sm + 1) else none
  | _ => none

/-- The piece does not count a semaphore further than an `int`. -/
def Piece.InRange (s : State) (p : Piece) : Prop := ∀ v ∈ p.counts s, v ≤ intMax

instance (s : State) (p : Piece) : Decidable (p.InRange s) :=
  inferInstanceAs (Decidable (∀ v ∈ p.counts s, v ≤ intMax))

namespace Preemptive

/-- The piece that the running thread executes next, unless another statement
comes before it. -/
def nextPiece (x : Preemptive) : Option Piece :=
  match x.running with
  | .piece p :: _ => some p
  | _ => none

theorem nextPiece_eq {x : Preemptive} {p : Piece} {rest : List Stmt}
    (hcode : x.running = .piece p :: rest) : x.nextPiece = some p := by
  unfold nextPiece
  rw [hcode]

theorem running_of_nextPiece {x : Preemptive} {p : Piece} (h : x.nextPiece = some p) :
    ∃ rest, x.running = .piece p :: rest := by
  unfold nextPiece at h
  split at h
  next p' rest hcode =>
    cases h
    exact ⟨rest, hcode⟩
  next => cases h

/-- The counters of the semaphores stay in the range of an `int`. -/
def InRange (x : Preemptive) : Stimulus → Prop
  | .go _ => ∀ p ∈ x.nextPiece, p.InRange x.lib
  | _ => True

instance (x : Preemptive) (i : Stimulus) : Decidable (x.InRange i) :=
  match i with
  | .call _ => .isTrue trivial
  | .tick => .isTrue trivial
  | .go _ => inferInstanceAs (Decidable (∀ p ∈ x.nextPiece, p.InRange x.lib))

/-- Everything that one step of the process can be. -/
inductive Advance (b : Build) (x : Preemptive) : Stimulus → Preemptive → Prop
  | call (c : Call) (hcode : x.running = []) : Advance b x (.call c) (x.goOn c.code)
  | tick (hmask : x.blocked = false) (hinit : x.lib.schedulerInitialized = true) :
      Advance b x .tick
        { x.goOn (preemptionHandler x.lib.running.point ++ x.running) with blocked := true }
  | block (e : Env) (rest : List Stmt) (hcode : x.running = .block :: rest) :
      Advance b x (.go e) { x.goOn rest with blocked := true }
  | unblock (e : Env) (rest : List Stmt) (hcode : x.running = .unblock :: rest) :
      Advance b x (.go e) { x.goOn rest with blocked := false }
  | sigreturn (e : Env) (k : Point) (rest : List Stmt) (hcode : x.running = .sigreturn k :: rest) :
      Advance b x (.go e)
        { x.goOn rest with blocked := false, lib := x.lib.setPoint x.lib.currentThread k }
  | ret (e : Env) (c : Call) (code : Int) (rest : List Stmt)
      (hcode : x.running = .ret c code :: rest) :
      Advance b x (.go e) { x.goOn rest with lib := finish c (x.lib, some code) }
  | piece (e : Env) (p : Piece) (rest : List Stmt) (hfresh : e.Fresh x.lib)
      (hcode : x.running = .piece p :: rest) : Advance b x (.go e) (x.runPiece b p e rest)

variable {b : Build} {x x' : Preemptive} {i : Stimulus}

theorem advance_of_step (h : x.step b i = some x') : x.lib.ended = false ∧ x.Advance b i x' := by
  unfold step at h
  by_cases hended : x.lib.ended = true
  · rw [if_pos hended] at h
    cases h
  rw [if_neg hended] at h
  refine ⟨Bool.of_not_eq_true hended, ?_⟩
  cases i with
  | call c =>
      by_cases hcode : x.running = []
      · simp only [if_pos hcode, Option.some.injEq] at h
        subst h
        exact .call c hcode
      · simp only [if_neg hcode] at h
        cases h
  | tick =>
      by_cases hmask : x.blocked = false ∧ x.lib.schedulerInitialized = true
      · simp only [if_pos hmask, Option.some.injEq] at h
        subst h
        exact .tick hmask.1 hmask.2
      · simp only [if_neg hmask] at h
        cases h
  | go e =>
      by_cases hfresh : e.Fresh x.lib
      · simp only [if_pos hfresh, execute] at h
        cases hcode : x.running with
        | nil =>
            rw [hcode] at h
            cases h
        | cons stmt rest =>
            rw [hcode] at h
            cases stmt with
            | block =>
                cases h
                exact .block e rest hcode
            | unblock =>
                cases h
                exact .unblock e rest hcode
            | sigreturn k =>
                cases h
                exact .sigreturn e k rest hcode
            | ret c code =>
                cases h
                exact .ret e c code rest hcode
            | piece p =>
                cases h
                exact .piece e p rest hfresh hcode
            | dead => cases h
      · simp only [if_neg hfresh] at h
        cases h

/-- The mask with which a thread goes on: that of the process for the running
thread, and a blocked signal for all others. -/
def maskFor (x : Preemptive) (t : Tid) : Bool :=
  if t = x.lib.currentThread then x.blocked else true

/-- The code of every thread fits the mask. -/
def MaskInv (x : Preemptive) : Prop := ∀ t, MaskOk (x.maskFor t) (x.code t)

theorem maskInv_initial : MaskInv initial := by
  intro t
  by_cases ht : t = mainThread
  · simp [maskFor, initial, State.initial, ht, MaskOk]
  · simp [maskFor, initial, State.initial, ht, MaskOk]

theorem MaskInv.running (h : MaskInv x) : MaskOk x.blocked x.running := by
  have hcurrent := h x.lib.currentThread
  rwa [maskFor, if_pos rfl] at hcurrent

/-- The running thread goes on with other code, and stays the running one. -/
theorem MaskInv.goOn (h : MaskInv x) {blocked : Bool} {l : List Stmt} {s : State}
    (hcurrent : s.currentThread = x.lib.currentThread) (hl : MaskOk blocked l) :
    MaskInv { x.goOn l with blocked := blocked, lib := s } := by
  intro t
  by_cases ht : t = x.lib.currentThread
  · subst t
    simpa [maskFor, hcurrent, Preemptive.goOn] using hl
  · have hother := h t
    simpa [maskFor, hcurrent, Preemptive.goOn, ht] using hother

/-- The code of the thread that has executed a piece. -/
theorem runPiece_running (p : Piece) (e : Env) (rest : List Stmt) :
    (x.runPiece b p e rest).code x.lib.currentThread = (p.perform b x.lib e).2 ++ rest := by
  simp [runPiece]

/-- The code of the other threads: a thread that has been started has the code
of a new one. -/
theorem runPiece_other (p : Piece) (e : Env) (rest : List Stmt) {t : Tid}
    (ht : t ≠ x.lib.currentThread) :
    p.started ≠ some t ∧ (x.runPiece b p e rest).code t = x.code t ∨
      p.started = some t ∧ (x.runPiece b p e rest).code t = threadEntry := by
  cases hstarted : p.started with
  | none => exact Or.inl ⟨by simp, by simp [runPiece, hstarted, ht]⟩
  | some newth =>
      by_cases hnew : t = newth
      · subst hnew
        exact Or.inr ⟨rfl, by simp [runPiece, hstarted, ht]⟩
      · refine Or.inl ⟨?_, by simp [runPiece, hstarted, ht, hnew]⟩
        intro heq
        exact hnew (Option.some.inj heq).symm

theorem MaskInv.runPiece (h : MaskInv x) {p : Piece} {rest : List Stmt}
    (hcode : x.running = .piece p :: rest) (e : Env) : MaskInv (x.runPiece b p e rest) := by
  have hrunning := h.running
  rw [hcode] at hrunning
  obtain ⟨hmask, hproper, hrest⟩ := hrunning
  have hcontinue := p.perform_maskOk (b := b) (s := x.lib) (e := e) hproper hrest
  intro t
  -- After a critical piece everything is to be fit for a blocked signal.
  have hmaskFor : (x.runPiece b p e rest).maskFor t =
      if t = x.lib.currentThread then p.masked else true := by
    cases hm : p.masked with
    | true =>
        rw [hm] at hmask
        simp [maskFor, Preemptive.runPiece, hmask]
    | false =>
        rw [hm] at hmask
        obtain ⟨hcurrent, -⟩ := Piece.perform_unmasked (b := b) (s := x.lib) (e := e) hproper hm
        simp [maskFor, Preemptive.runPiece, hmask, hcurrent]
  rw [hmaskFor]
  by_cases ht : t = x.lib.currentThread
  · subst ht
    rw [if_pos rfl, runPiece_running]
    exact hcontinue
  · rw [if_neg ht]
    rcases runPiece_other (b := b) (x := x) p e rest ht with ⟨-, heq⟩ | ⟨-, heq⟩
    · have hother := h t
      rw [maskFor, if_neg ht] at hother
      rw [heq]
      exact hother
    · rw [heq]
      exact ⟨rfl, rfl, trivial, rfl⟩

theorem MaskInv.advance (h : MaskInv x) (ha : x.Advance b i x') : MaskInv x' := by
  have hrunning := h.running
  cases ha with
  | call c hcode =>
      rw [hcode] at hrunning
      have hblocked : x.blocked = false := hrunning
      exact h.goOn (s := x.lib) rfl (by rw [hblocked]; exact c.code_maskOk)
  | tick hmask hinit =>
      rw [hmask] at hrunning
      exact h.goOn (s := x.lib) rfl ⟨rfl, trivial, hrunning⟩
  | block e rest hcode =>
      rw [hcode] at hrunning
      exact h.goOn (s := x.lib) rfl hrunning
  | unblock e rest hcode =>
      rw [hcode] at hrunning
      exact h.goOn (s := x.lib) rfl hrunning.2
  | sigreturn e k rest hcode =>
      rw [hcode] at hrunning
      exact h.goOn rfl hrunning
  | ret e c code rest hcode =>
      rw [hcode] at hrunning
      exact h.goOn rfl hrunning
  | piece e p rest hfresh hcode => exact h.runPiece hcode e

theorem maskInv_of_reach {guard : Preemptive → Stimulus → Prop}
    (h : Reach (step b) guard initial x) : MaskInv x :=
  h.invariant maskInv_initial fun _ hx _ hs => hx.advance (advance_of_step hs).2

end Preemptive

end UserThreads
