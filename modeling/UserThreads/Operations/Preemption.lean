import UserThreads.Model.Preemption
import UserThreads.Operations.Step

/-!
# Critical sections

The shapes that the code of a call has, and the mask at each of its pieces. The mask
is not part of a thread's context: a thread that is switched to goes on with the
signal blocked, and its own code unblocks it.
-/

namespace UserThreads

open Transition

/-- The piece stands between `preem_block` and `preem_unblock`. -/
def Piece.masked : Piece → Bool
  | .yield _ | .yieldTo _ _ | .setPriority _ _ _ | .createPublish _ | .exit _ | .fault
  | .join _ _ | .joinClaim _ _ | .condWait _ _ | .condRelock _ _ _ | .sigwait _
  | .critical _ => true
  | _ => false

/-- The piece is part of `thread_create`, before its critical section. -/
def Piece.inCreate : Piece → Bool
  | .createInit _ _ | .createAlloc | .createReclaim _ | .createStack _ _ | .createRetry _ _
  | .createFill _ _ | .createSlot _ _ => true
  | _ => false

/-- The values that the set-up or the destruction of an object assigns. -/
def QueueId.Takes : QueueId → Int → Prop
  | .mutex _, v => v = -1 ∨ v = 0
  | .sem _, v => 0 ≤ v
  | .cond _, _ => False

/-- The piece is one that the code of a call has. -/
def Piece.Proper : Piece → Prop
  | .assign q v | .tailqEmpty _ q v => q.Takes v
  | .critical c => c.code = [.block, .piece (.critical c)]
  | .direct c => c.code = [.piece (.direct c)]
  | _ => True

/-- The code finds the mask as it needs it, when it starts with `blocked`, and
leaves the signal unblocked for user code. -/
def MaskOk : Bool → List Stmt → Prop
  | blocked, [] => blocked = false
  | _, .block :: rest => MaskOk true rest
  | blocked, .unblock :: rest => blocked = true ∧ MaskOk false rest
  | _, .sigreturn _ :: rest => MaskOk false rest
  | blocked, .ret _ _ :: rest => MaskOk blocked rest
  | blocked, .piece p :: rest => blocked = p.masked ∧ p.Proper ∧ MaskOk false rest
  | blocked, .dead :: _ => blocked = true

/-- The calls that are one critical section. -/
inductive Call.Critical : Call → Prop
  | mutexLock (m : MutexId) : Critical (.threadMutexLock (some m))
  | mutexUnlock (m : MutexId) : Critical (.threadMutexUnlock (some m))
  | condSignal (c : CondId) : Critical (.threadCondSignal (some c))
  | condBroadcast (c : CondId) : Critical (.threadCondBroadcast (some c))
  | semWait (sm : SemId) : Critical (.threadSemWait (some sm))
  | semPost (sm : SemId) : Critical (.threadSemPost (some sm))
  | signalSend (t : Tid) (sig : Int) (hsig : ¬ (sig < threadSignalMin ∨ sig > threadSignalMax)) :
      Critical (.threadSignalSend (some t) sig)

/-- The shapes that the code of a call can have. -/
inductive Call.Form (c : Call) : Prop
  | direct (h : c.code = [.piece (.direct c)])
  | critical (h : c.code = [.block, .piece (.critical c)]) (hcritical : c.Critical)
  | create (newthread func : Bool) (h : c.code = [.piece (.createInit newthread func)])
  | yield (h : c.code = [.block, .piece (.yield (.yielded c)), .ret c 0])
  | yieldTo (t : Tid) (h : c.code = [.block, .piece (.yieldTo t (.yielded c)), .ret c 0])
  | setPriority (t : Tid) (prio : Int)
      (h : c.code = [.block, .piece (.setPriority t prio (.yielded c)), .ret c 0])
  | exit (retval : Value) (h : c.code = [.block, .piece (.exit retval)])
  | fault (h : c.code = [.block, .piece .fault])
  | join (t : Option Tid) (retval : Bool) (h : c.code = [.piece (.joinCheck t retval)])
  | condWait (cond : CondId) (m : MutexId) (h : c.code = [.block, .piece (.condWait cond m)])
  | sigwait (set : BitVec 32) (h : c.code = [.block, .piece (.sigwait set)])
  | setUp (q : QueueId) (v : Int) (htakes : q.Takes v) (h : c.code = c.setUp q v)
  | destroy (q : QueueId) (v : Int) (htakes : q.Takes v)
      (h : c.code = [.piece (.tailqEmpty c q v)])

theorem Call.form (c : Call) : c.Form := by
  cases c with
  | threadCreate newthread func => exact .create newthread func rfl
  | threadYield => exact .yield rfl
  | threadYieldTo t =>
      cases t with
      | none => exact .direct rfl
      | some t => exact .yieldTo t rfl
  | threadSetPriority t prio =>
      cases t with
      | none => exact .direct rfl
      | some t => exact .setPriority t prio rfl
  | threadExit retval => exact .exit retval rfl
  | threadJoin t retval => exact .join t retval rfl
  | threadMutexLock m =>
      cases m with
      | none => exact .direct rfl
      | some m => exact .critical rfl (.mutexLock m)
  | threadMutexUnlock m =>
      cases m with
      | none => exact .direct rfl
      | some m => exact .critical rfl (.mutexUnlock m)
  | threadCondSignal c =>
      cases c with
      | none => exact .direct rfl
      | some c => exact .critical rfl (.condSignal c)
  | threadCondBroadcast c =>
      cases c with
      | none => exact .direct rfl
      | some c => exact .critical rfl (.condBroadcast c)
  | threadSemWait sm =>
      cases sm with
      | none => exact .direct rfl
      | some sm => exact .critical rfl (.semWait sm)
  | threadSemPost sm =>
      cases sm with
      | none => exact .direct rfl
      | some sm => exact .critical rfl (.semPost sm)
  | threadCondWait c m =>
      cases c with
      | none => exact .direct rfl
      | some c =>
          cases m with
          | none => exact .direct rfl
          | some m => exact .condWait c m rfl
  | threadSignalSend t sig =>
      cases t with
      | none => exact .direct rfl
      | some t =>
          by_cases hsig : sig < threadSignalMin ∨ sig > threadSignalMax
          · exact .direct (if_pos hsig)
          · exact .critical (if_neg hsig) (.signalSend t sig hsig)
  | threadSigwait set sig =>
      by_cases hset : set = 0 ∨ sig = false
      · exact .direct (if_pos hset)
      · exact .sigwait set (if_neg hset)
  | threadMutexInit m =>
      cases m with
      | none => exact .direct rfl
      | some m => exact .setUp (.mutex m) 0 (Or.inr rfl) rfl
  | threadMutexDestroy m =>
      cases m with
      | none => exact .direct rfl
      | some m => exact .destroy (.mutex m) (-1) (Or.inl rfl) rfl
  | threadSemInit sm v =>
      cases sm with
      | none => exact .direct rfl
      | some sm =>
          by_cases hv : v < 0
          · exact .direct (if_pos hv)
          · exact .setUp (.sem sm) v (Int.not_lt.mp hv) (if_neg hv)
  | threadSemDestroy sm =>
      cases sm with
      | none => exact .direct rfl
      | some sm => exact .destroy (.sem sm) 0 (Int.le_refl 0) rfl
  | guardPageFault => exact .fault rfl
  | _ => exact .direct rfl

theorem Call.critical_of_code {c : Call} (hc : c.code = [.block, .piece (.critical c)]) :
    c.Critical := by
  cases c.form with
  | critical h hcritical => exact hcritical
  | _ =>
      rename_i h
      rw [hc] at h
      cases h

theorem Call.code_maskOk (c : Call) : MaskOk false c.code := by
  cases c.form with
  | direct h =>
      rw [h]
      exact ⟨rfl, h, rfl⟩
  | critical h hcritical =>
      rw [h]
      exact ⟨rfl, h, rfl⟩
  | setUp q v htakes h =>
      rw [h]
      exact ⟨rfl, htakes, rfl, trivial, rfl⟩
  | destroy q v htakes h =>
      rw [h]
      exact ⟨rfl, htakes, rfl⟩
  | _ =>
      rename_i h
      rw [h]
      exact ⟨rfl, trivial, rfl⟩

section

variable {b : Build} {s : State} {e : Env} {rest : List Stmt}

theorem returning_maskOk {c : Call} {suspended : List Stmt} {r : State × Option Int}
    (hrest : MaskOk false rest) (hs : MaskOk true (suspended ++ rest)) :
    MaskOk true ((returning c suspended r).2 ++ rest) := by
  obtain ⟨s', code⟩ := r
  cases code with
  | none => exact hs
  | some code => exact ⟨rfl, hrest⟩

/-- The checks of `thread_join` refuse the call, or let it into its critical
section with the state untouched. -/
theorem joinCheck_cases (b : Build) (s : State) (e : Env) (t : Option Tid) (retval : Bool) :
    (∃ err code, (Piece.joinCheck t retval).perform b s e =
      refused (.threadJoin t retval) (s.setErrno err) code) ∨
    ∃ target, t = some target ∧ (s.threads target).joinedBy = none ∧ target ≠ s.currentThread ∧
      (Piece.joinCheck t retval).perform b s e = (s, [.block, .piece (.join target retval)]) := by
  cases t with
  | none => exact Or.inl ⟨_, _, rfl⟩
  | some target =>
      simp only [Piece.perform]
      split
      · exact Or.inl ⟨_, _, rfl⟩
      next hjoined =>
        split
        · exact Or.inl ⟨_, _, rfl⟩
        next hself => exact Or.inr ⟨target, rfl, Decidable.not_not.mp hjoined, hself, rfl⟩

/-- What a piece leaves to be done fits the mask it runs with. -/
theorem Piece.perform_maskOk (p : Piece) (hp : p.Proper) (hrest : MaskOk false rest) :
    MaskOk p.masked ((p.perform b s e).2 ++ rest) := by
  cases p with
  | start => exact hrest
  | yield k =>
      cases hkept : keptRunning b.policy s with
      | none => simpa [Piece.perform, hkept, MaskOk, Piece.masked] using hrest
      | some r => simpa [Piece.perform, hkept, MaskOk, Piece.masked, Piece.Proper] using hrest
  | requeue next => exact hrest
  | yieldTo target k =>
      by_cases hready : (s.threads target).state ≠ .ready
      · simpa [Piece.perform, hready, MaskOk, Piece.masked, Piece.Proper] using hrest
      · simpa [Piece.perform, hready, MaskOk, Piece.masked] using hrest
  | setPriority t prio k =>
      rcases hwritten : priorityWritten b.policy s t prio with ⟨s', _ | _⟩
      · simpa [Piece.perform, hwritten, MaskOk, Piece.masked] using hrest
      · simpa [Piece.perform, hwritten, MaskOk, Piece.masked, Piece.Proper] using hrest
  | createInit newthread func =>
      by_cases harg : newthread = false ∨ func = false
      · simpa [Piece.perform, harg, refused, Piece.masked] using hrest
      · rcases hinit : schedulerInit s e.mainSlot with ⟨s', _ | _⟩
        · simpa [Piece.perform, harg, hinit, refused, Piece.masked] using hrest
        · simpa [Piece.perform, harg, hinit, MaskOk, Piece.masked, Piece.Proper] using hrest
  | createAlloc =>
      rcases halloc : threadAlloc s e.thread with ⟨s', _ | newth⟩
      · simpa [Piece.perform, halloc, refused, Piece.masked] using hrest
      · simpa [Piece.perform, halloc, MaskOk, Piece.masked, Piece.Proper] using hrest
  | createReclaim newth => exact ⟨rfl, trivial, hrest⟩
  | createStack newth retries =>
      rcases halloc : stackPoolAlloc b s e.stack with ⟨s', _ | entry⟩
      · simpa [Piece.perform, halloc, MaskOk, Piece.masked, Piece.Proper] using hrest
      · simpa [Piece.perform, halloc, MaskOk, Piece.masked, Piece.Proper] using hrest
  | createRetry newth retries =>
      by_cases hstop : (reclaimDeferredStacksAll s).readyQueue = [] ∨ maxAllocRetries ≤ retries
      · simpa [Piece.perform, hstop, refused, Piece.masked] using hrest
      · simpa [Piece.perform, hstop, MaskOk, Piece.masked, Piece.Proper] using hrest
  | createFill newth entry => exact ⟨rfl, trivial, hrest⟩
  | createSlot newth entry =>
      rcases hslot : threadHeadRefAlloc s newth e.slot with ⟨s', _ | ref⟩
      · simpa [Piece.perform, hslot, refused, Piece.masked] using hrest
      · simpa [Piece.perform, hslot, MaskOk, Piece.masked, Piece.Proper] using hrest
  | createPublish newth => exact ⟨rfl, hrest⟩
  | exit retval => rfl
  | fault => rfl
  | joinCheck t retval =>
      rcases joinCheck_cases b s e t retval with ⟨_, _, heq⟩ | ⟨target, _, _, _, heq⟩
      · rw [heq]
        exact hrest
      · rw [heq]
        exact ⟨rfl, trivial, hrest⟩
  | join target retval =>
      exact returning_maskOk hrest ⟨rfl, rfl, trivial, hrest⟩
  | joinClaim target retval =>
      simp only [Piece.perform, joinResume]
      split
      · exact ⟨rfl, hrest⟩
      · exact ⟨rfl, hrest⟩
  | condWait c m =>
      by_cases hq : s.readyQueue = []
      · simpa [Piece.perform, hq, MaskOk, Piece.masked, Piece.Proper] using hrest
      · simpa [Piece.perform, hq, MaskOk, Piece.masked, Piece.Proper] using hrest
  | condRelock c m code => exact returning_maskOk hrest ⟨rfl, hrest⟩
  | sigwait set => exact returning_maskOk hrest ⟨rfl, trivial, hrest⟩
  | assign q v => exact hrest
  | tailqInit q => exact hrest
  | tailqEmpty c q v =>
      by_cases hq : s.waitingQueue q ≠ []
      · simpa [Piece.perform, hq, MaskOk, Piece.masked] using hrest
      · simp only [Piece.perform, if_neg hq]
        exact ⟨rfl, hp, hrest⟩
  | critical c => exact returning_maskOk hrest ⟨rfl, hrest⟩
  | direct c => exact hrest

end

/-- The parts of the state that recycling works on: the pools, the deferred
stacks, the chunks of head slots, and the zombie queue. -/
def State.recycling (s : State) :=
  (s.threadPool, s.stackPool, s.deferredStacks, s.headRefs, s.headRefChunksCount,
    s.headRefChunksCap, s.headRefActiveChunk, s.headRefActiveIndex, s.zombieQueue)

/-- A call that is one piece outside critical sections sets up a condition, or
writes `errno` at most, or ends the process. -/
theorem enter_direct {c : Call} (hc : c.code = [.piece (.direct c)]) (b : Build) (s : State)
    (e : Env) : (∃ errno, (enter b s c e).1 = { s with errno := errno }) ∨
      (∃ cond, (enter b s c e).1 = (s.initQueue (.cond cond)).emit (.condSet cond)) ∨
      (enter b s c e).1 = { s with ended := true } := by
  cases c with
  | threadCreate newthread func => cases hc
  | threadYield => cases hc
  | threadExit retval => cases hc
  | threadJoin t retval => cases hc
  | guardPageFault => cases hc
  | exit => exact Or.inr (Or.inr rfl)
  | threadCondInit c =>
      cases c with
      | none => exact Or.inl ⟨_, rfl⟩
      | some c => exact Or.inr (Or.inl ⟨c, rfl⟩)
  | threadCondDestroy c =>
      cases c with
      | none => exact Or.inl ⟨_, rfl⟩
      | some c =>
          simp only [enter, threadCondDestroy]
          split
          · exact Or.inl ⟨_, rfl⟩
          · exact Or.inl ⟨_, rfl⟩
  | threadSemInit sm v =>
      cases sm with
      | none => exact Or.inl ⟨_, rfl⟩
      | some sm =>
          by_cases hv : v < 0
          · simp only [enter, threadSemInit, if_pos hv]
            exact Or.inl ⟨_, rfl⟩
          · rw [show (Call.threadSemInit (some sm) v).code =
              (Call.threadSemInit (some sm) v).setUp (.sem sm) v from if_neg hv] at hc
            cases hc
  | threadCondWait c m =>
      cases c with
      | none => exact Or.inl ⟨_, rfl⟩
      | some c =>
          cases m with
          | none => exact Or.inl ⟨_, rfl⟩
          | some m => cases hc
  | threadSignalSend t sig =>
      cases t with
      | none => exact Or.inl ⟨_, rfl⟩
      | some t =>
          by_cases hsig : sig < threadSignalMin ∨ sig > threadSignalMax
          · simp only [enter, threadSignalSend, if_pos hsig]
            exact Or.inl ⟨_, rfl⟩
          · rw [show (Call.threadSignalSend (some t) sig).code =
              [.block, .piece (.critical (.threadSignalSend (some t) sig))] from if_neg hsig] at hc
            cases hc
  | threadSigwait set sig =>
      by_cases hset : set = 0 ∨ sig = false
      · simp only [enter, threadSigwait, if_pos hset]
        exact Or.inl ⟨_, rfl⟩
      · rw [show (Call.threadSigwait set sig).code = [.block, .piece (.sigwait set)]
          from if_neg hset] at hc
        cases hc
  -- The others are refused for a NULL argument, and have a section for any other.
  | threadYieldTo a | threadSetPriority a prio | threadMutexInit a | threadMutexDestroy a
  | threadMutexLock a | threadMutexUnlock a | threadCondSignal a | threadCondBroadcast a
  | threadSemDestroy a | threadSemWait a | threadSemPost a =>
      cases a with
      | none => exact Or.inl ⟨_, rfl⟩
      | some a => cases hc

end UserThreads
