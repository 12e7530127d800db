import UserThreads.Operations.Quiet

/-!
# What the code does to synchronisation objects

In every state a piece of library code leaves a given mutex, semaphore or condition
apart, or does one of a few deeds to it. What all deeds preserve holds in every run
of the preemptive build whose calls keep their promises for the object.
-/

namespace UserThreads

open Transition

/-- The state of the object in which a thread parks on it. -/
def State.Busy (s : State) : QueueId → Prop
  | .mutex m => s.locked m ≠ 0 ∧ s.locked m ≠ -1
  | .sem sm => s.count sm ≤ 0
  | .cond _ => True

theorem State.Busy.quiet {s s' : State} {q : QueueId} (h : s.Busy q) (hq : Quiet s s') :
    s'.Busy q := by
  cases q with
  | mutex m =>
      unfold State.Busy at h ⊢
      rw [hq.locked]
      exact h
  | sem sm =>
      unfold State.Busy at h ⊢
      rw [hq.count]
      exact h
  | cond c => trivial

theorem Apart.setQueue {q q' : QueueId} (hne : q' ≠ q) (s : State) (l : List Tid) :
    Apart q s (s.setQueue q' l) where
  queue := Function.update_of_ne hne.symm _ _
  value := by cases q <;> rfl
  trace := ⟨[], rfl, by simp⟩

/-- One thing that happens to an object. A mutex is released after the test of
`thread_mutex_unlock`, nobody waits on an object that is set up or destroyed, and a
counter stays in range, or the call is careless. -/
inductive Deed (careless : QueueId → Prop) : QueueId → State → State → Prop
  | apart {q : QueueId} {s s' : State} (h : Apart q s s') : Deed careless q s s'
  | park {q : QueueId} {s : State} (t : Tid) (id : Nat) (hbusy : s.Busy q) :
      Deed careless q s ((s.setQueue q (s.waitingQueue q ++ [t])).emit (.parked q id))
  | mutexTake {m : MutexId} {s : State} (id : Nat) (hfree : s.locked m = 0) :
      Deed careless (.mutex m) s ((s.setLocked m 1).emit (.mutexTaken m id))
  | mutexHandOver {m : MutexId} {s : State} (t : Tid) (rest : List Tid) (id id' : Nat)
      (hheld : s.Busy (.mutex m) ∨ careless (.mutex m))
      (hq : s.waitingQueue (.mutex m) = t :: rest) :
      Deed careless (.mutex m) s (((s.emit (.mutexReleased m id)).setQueue (.mutex m) rest).emit
        (.woken (.mutex m) id'))
  | mutexFree {m : MutexId} {s : State} (id : Nat) (hheld : s.Busy (.mutex m) ∨ careless (.mutex m))
      (hq : s.waitingQueue (.mutex m) = []) :
      Deed careless (.mutex m) s ((s.emit (.mutexReleased m id)).setLocked m 0)
  | mutexAssign {m : MutexId} {s : State} {v : Int} (hv : v = -1 ∨ v = 0)
      (hq : s.waitingQueue (.mutex m) = [] ∨ careless (.mutex m)) :
      Deed careless (.mutex m) s ((s.setLocked m v).emit (.mutexSet m v))
  | semTake {sm : SemId} {s : State} (id : Nat) (hpos : 0 < s.count sm) :
      Deed careless (.sem sm) s ((s.setCount sm (s.count sm - 1)).emit (.semTaken sm id))
  | semHandOver {sm : SemId} {s : State} (t : Tid) (rest : List Tid) (id id' : Nat)
      (hq : s.waitingQueue (.sem sm) = t :: rest) :
      Deed careless (.sem sm) s (((s.emit (.semPosted sm id)).setQueue (.sem sm) rest).emit
        (.woken (.sem sm) id'))
  | semCount {sm : SemId} {s : State} (id : Nat) (hq : s.waitingQueue (.sem sm) = [])
      (hmax : s.count sm < intMax ∨ careless (.sem sm)) :
      Deed careless (.sem sm) s ((s.emit (.semPosted sm id)).setCount sm (s.count sm + 1))
  | semAssign {sm : SemId} {s : State} {v : Int} (hv : 0 ≤ v)
      (hq : v ≤ intMax ∧ s.waitingQueue (.sem sm) = [] ∨ careless (.sem sm)) :
      Deed careless (.sem sm) s ((s.setCount sm v).emit (.semSet sm v))
  | tailqInit {q : QueueId} {s : State} : Deed careless q s (s.initQueue q)
  | condWake {c : CondId} {s : State} (t : Tid) (rest : List Tid) (id : Nat)
      (hq : s.waitingQueue (.cond c) = t :: rest) :
      Deed careless (.cond c) s ((s.setQueue (.cond c) rest).emit (.woken (.cond c) id))
  | condInit {c : CondId} {s : State} :
      Deed careless (.cond c) s ((s.initQueue (.cond c)).emit (.condSet c))

/-- Any number of deeds. -/
abbrev Deeds (careless : QueueId → Prop) (q : QueueId) : State → State → Prop :=
  Relation.ReflTransGen (Deed careless q)

namespace Deeds

variable {careless : QueueId → Prop} {q : QueueId} {s s₁ s' : State}

theorem quiet (h : Quiet s s') : Deeds careless q s s' := .single (.apart (h.apart q))

/-- Something happens to the object of `q'`, which is another one or `q`. -/
theorem on (q' : QueueId) (hother : q' ≠ q → Apart q s s') (hself : Deed careless q' s s') :
    Deeds careless q s s' := by
  by_cases hq : q' = q
  · subst hq
    exact .single hself
  · exact .single (.apart (hother hq))

theorem park (s : State) (q' : QueueId) (hbusy : s.Busy q') :
    Deeds careless q s (park s q') := by
  have hstate := Quiet.setState s s.currentThread .blocked none
  refine (quiet hstate).trans (on q' (fun hne => ?_) ?_)
  · exact (Apart.setQueue hne _ _).trans (.emit _ (by simpa [Event.queue] using hne))
  · exact .park s.currentThread _ (hbusy.quiet hstate)

theorem wakeCond (p : Policy) (s : State) (c : CondId) :
    Deeds careless q s (wakeFirst p s (.cond c)) := by
  unfold wakeFirst
  split
  · exact .refl
  next t rest hq =>
    refine Relation.ReflTransGen.trans (on (.cond c) (fun hne => ?_) ?_)
      (quiet (Quiet.ready p _ _ _))
    · exact (Apart.setQueue hne s rest).trans (.emit _ (by simpa [Event.queue] using hne))
    · exact .condWake t rest _ hq

theorem wakeAll (p : Policy) (c : CondId) (n : Nat) (s : State) :
    Deeds careless q s (wakeAll p (.cond c) n s) := by
  induction n generalizing s with
  | zero => exact .refl
  | succ n ih =>
      unfold UserThreads.wakeAll
      split
      · exact .refl
      · exact (wakeCond p s c).trans (ih _)

theorem releaseMutex (p : Policy) (s : State) {m : MutexId}
    (hheld : s.Busy (.mutex m) ∨ careless (.mutex m)) :
    Deeds careless q s (releaseMutex p s m) := by
  have hreleased : ∀ id, QueueId.mutex m ≠ q → Apart q s (s.emit (.mutexReleased m id)) :=
    fun id hne => .emit s (by simpa [Event.queue] using hne)
  unfold UserThreads.releaseMutex
  dsimp only
  split
  next hsome =>
    unfold wakeFirst
    split
    next hq => exact absurd hq hsome
    next t rest hq =>
      refine Relation.ReflTransGen.trans (on (.mutex m) (fun hne => ?_) ?_)
        (quiet (Quiet.ready p _ _ _))
      · exact ((hreleased _ hne).trans (Apart.setQueue hne _ rest)).trans
          (.emit _ (by simpa [Event.queue] using hne))
      · exact .mutexHandOver t rest _ _ hheld hq
  next hempty =>
    refine on (.mutex m) (fun hne => ?_) (.mutexFree _ hheld (not_not.mp hempty))
    exact (hreleased _ hne).trans (Apart.setLocked _ hne.symm 0)

theorem mutexLock (s : State) (m : MutexId) (k : Point) :
    Deeds careless q s (mutexLock s m k).1 := by
  unfold UserThreads.mutexLock
  split
  · exact quiet (.of_eq rfl)
  next hvalid =>
    split
    next hfree =>
      refine on (.mutex m) (fun hne => ?_) (.mutexTake _ hfree)
      exact (Apart.setLocked s hne.symm 1).trans (.emit _ (by simpa [Event.queue] using hne))
    next hheld =>
      split
      next => exact .refl
      next next s₁ hpick =>
        have hpicked := Quiet.pick hpick
        have hbusy : s₁.Busy (.mutex m) := State.Busy.quiet (s := s) ⟨hheld, hvalid⟩ hpicked
        exact (quiet hpicked).trans ((park s₁ _ hbusy).trans (quiet (Quiet.swap _ _ _ _)))

theorem condRelock (s : State) (c : CondId) (m : MutexId) (code : Int) :
    Deeds careless q s (condRelock s c m code).1 := by
  have hlock : Deeds careless q s (UserThreads.mutexLock s m (.condRelock c m code)).1 :=
    mutexLock s m _
  unfold UserThreads.condRelock
  rcases heq : UserThreads.mutexLock s m (.condRelock c m code) with ⟨s', _ | code'⟩
  · rw [heq] at hlock
    exact hlock
  · rw [heq] at hlock
    exact hlock

theorem threadSemWait (s : State) (sm : Option SemId) :
    Deeds careless q s (threadSemWait s sm).1 := by
  unfold UserThreads.threadSemWait
  split
  next => exact .refl
  next sm =>
    split
    next hpos =>
      refine on (.sem sm) (fun hne => ?_) (.semTake _ hpos)
      exact (Apart.setCount s hne.symm _).trans (.emit _ (by simpa [Event.queue] using hne))
    next hzero =>
      split
      next => exact .refl
      next next s₁ hpick =>
        have hpicked := Quiet.pick hpick
        have hbusy : s₁.Busy (.sem sm) := State.Busy.quiet (s := s) (Int.not_lt.mp hzero) hpicked
        exact (quiet hpicked).trans ((park s₁ _ hbusy).trans (quiet (Quiet.swap _ _ _ _)))

theorem threadSemPost (p : Policy) (s : State) {sm : SemId}
    (hmax : s.waitingQueue (.sem sm) = [] → s.count sm < intMax ∨ careless (.sem sm)) :
    Deeds careless q s (threadSemPost p s (some sm)).1 := by
  have hposted : ∀ id, QueueId.sem sm ≠ q → Apart q s (s.emit (.semPosted sm id)) :=
    fun id hne => .emit s (by simpa [Event.queue] using hne)
  unfold UserThreads.threadSemPost
  dsimp only
  split
  next hsome =>
    unfold wakeFirst
    split
    next hq => exact absurd hq hsome
    next t rest hq =>
      refine Relation.ReflTransGen.trans (on (.sem sm) (fun hne => ?_) ?_)
        (quiet (Quiet.ready p _ _ _))
      · exact ((hposted _ hne).trans (Apart.setQueue hne _ rest)).trans
          (.emit _ (by simpa [Event.queue] using hne))
      · exact .semHandOver t rest _ _ hq
  next hempty =>
    have hq := not_not.mp hempty
    refine on (.sem sm) (fun hne => ?_) (.semCount _ hq (hmax hq))
    exact (hposted _ hne).trans (Apart.setCount _ hne.symm _)

theorem assigned (s : State) {q' : QueueId} {v : Int} (htakes : q'.Takes v)
    (hset : v ≤ intMax ∧ s.waitingQueue q' = [] ∨ careless q') :
    Deeds careless q s (s.assigned q' v) := by
  cases q' with
  | mutex m =>
      refine on (.mutex m) (fun hne => ?_) (.mutexAssign htakes (hset.imp_left And.right))
      exact (Apart.setLocked s hne.symm v).trans (.emit _ (by simpa [Event.queue] using hne))
  | sem sm =>
      refine on (.sem sm) (fun hne => ?_) (.semAssign htakes hset)
      exact (Apart.setCount s hne.symm v).trans (.emit _ (by simpa [Event.queue] using hne))
  | cond c => exact htakes.elim

end Deeds

/-- The mutex that a piece releases without a test. -/
def Piece.waits : Piece → Option MutexId
  | .condWait _ m => some m
  | _ => none

/-- The object that a piece sets up or marks as destroyed. -/
def Piece.writes : Piece → Option QueueId
  | .assign q _ | .tailqInit q => some q
  | _ => none

/-- What the users of the objects promise for a piece: `thread_cond_wait` releases
the object only while it is held, nobody waits on the object while it is set up or
destroyed, and no semaphore counts further than an `int`. -/
def Piece.Respects (s : State) (q : QueueId) (p : Piece) : Prop :=
  (∀ m ∈ p.waits, q = .mutex m → s.locked m = 1) ∧
    (p.writes = some q → s.waitingQueue q = []) ∧ p.InRange s

instance (s : State) (q : QueueId) (p : Piece) : Decidable (p.Respects s q) :=
  inferInstanceAs (Decidable (_ ∧ _ ∧ _))

/-- The calls that are one critical section. -/
theorem enter_deeds {c : Call} (hc : c.code = [.block, .piece (.critical c)]) (q : QueueId)
    (b : Build) (s : State) (e : Env) :
    Deeds (fun q' => ¬ (Piece.critical c).Respects s q') q s (enter b s c e).1 := by
  cases Call.critical_of_code hc with
  | mutexLock m => exact .mutexLock s m _
  | mutexUnlock m =>
      simp only [enter, threadMutexUnlock]
      split
      · exact .quiet (.of_eq rfl)
      next hvalid =>
        split
        · exact .refl
        next hheld => exact .releaseMutex b.policy s (Or.inl ⟨hheld, hvalid⟩)
  | condSignal c => exact .wakeCond b.policy s c
  | condBroadcast c => exact .wakeAll b.policy c _ s
  | semWait sm => exact .threadSemWait s sm
  | semPost sm =>
      refine .threadSemPost b.policy s fun hq => or_not_of_imp fun hrespects => ?_
      have hmax := hrespects.2.2 (s.count sm + 1) (by simp [Piece.counts, hq])
      omega
  | signalSend t sig hsig => exact .quiet (.threadSignalSend b.policy s (some t) sig)

/-- A critical section ends with a quiet return. -/
theorem returning_fst (c : Call) (suspended : List Stmt) (r : State × Option Int) :
    Quiet r.1 (returning c suspended r).1 := by
  obtain ⟨s, _ | code⟩ := r
  · exact .refl s
  · exact .finish c (s, some code)

theorem refused_quiet (c : Call) (s : State) (code : Int) : Quiet s (refused c s code).1 :=
  .finish c (s, some code)

/-- What `thread_create` does before its critical section. -/
theorem Piece.quiet_inCreate {p : Piece} (hp : p.inCreate = true) (b : Build) (s : State)
    (e : Env) : Quiet s (p.perform b s e).1 := by
  have hrefused : ∀ s' (err : Errno), Quiet s s' →
      Quiet s (refused (.threadCreate true true) (s'.setErrno err) (-1)).1 :=
    fun s' err h => h.trans ((refused_quiet _ (s'.setErrno err) _).after rfl)
  cases p with
  | createInit newthread func =>
      simp only [Piece.perform]
      split
      · exact (refused_quiet _ (s.setErrno .einval) _).after rfl
      · have hinit := Quiet.schedulerInit s e.mainSlot
        rcases heq : schedulerInit s e.mainSlot with ⟨s', _ | _⟩
        · rw [heq] at hinit
          exact hinit.trans ((refused_quiet _ (s'.setErrno .enomem) _).after rfl)
        · rw [heq] at hinit
          exact hinit
  | createAlloc =>
      have halloc := Quiet.threadAlloc s e.thread
      simp only [Piece.perform]
      rcases heq : threadAlloc s e.thread with ⟨s', _ | newth⟩
      · rw [heq] at halloc
        exact hrefused s' .enomem halloc
      · rw [heq] at halloc
        exact halloc.trans (.of_eq rfl)
  | createReclaim newth =>
      simp only [Piece.perform]
      split
      · exact .reclaimDeferredStacksAll s
      · exact .refl s
  | createStack newth retries =>
      have halloc := Quiet.stackPoolAlloc b s e.stack
      simp only [Piece.perform]
      rcases heq : stackPoolAlloc b s e.stack with ⟨s', _ | entry⟩
      · rw [heq] at halloc
        exact halloc
      · rw [heq] at halloc
        exact halloc
  | createRetry newth retries =>
      have hreclaim := Quiet.reclaimDeferredStacksAll s
      simp only [Piece.perform]
      split
      · exact hrefused _ .enomem (hreclaim.trans (.threadObjRelease _ newth))
      · exact hreclaim.trans (.of_eq rfl)
  | createFill newth entry => exact .of_eq rfl
  | createSlot newth entry =>
      have hslot := Quiet.threadHeadRefAlloc s newth e.slot
      simp only [Piece.perform]
      rcases heq : threadHeadRefAlloc s newth e.slot with ⟨s', _ | ref⟩
      · rw [heq] at hslot
        have hreleased := (Quiet.threadObjRelease (s'.modifyThread newth fun th =>
          { th with headJoiner := none }) newth).after (s := s') rfl
        exact hrefused _ .enomem ((hslot.trans hreleased).trans (.stackPoolPush _ entry))
      · rw [heq] at hslot
        exact hslot.trans (.of_eq rfl)
  | _ => cases hp

/-- A wait releases the mutex, held as the caller promises, before or instead of
parking on the condition. -/
theorem Piece.condWait_deeds (q : QueueId) (b : Build) (s : State) (e : Env) (c : CondId)
    (m : MutexId) : Deeds (fun q' => ¬ (Piece.condWait c m).Respects s q') q s
      ((Piece.condWait c m).perform b s e).1 := by
  have hheld : ∀ s', Quiet s s' →
      s'.Busy (.mutex m) ∨ ¬ (Piece.condWait c m).Respects s (.mutex m) := by
    refine fun s' hquiet => or_not_of_imp fun hrespects => ?_
    have hlocked : s'.locked m = 1 := hquiet.locked ▸ hrespects.1 m rfl rfl
    exact ⟨by omega, by omega⟩
  simp only [Piece.perform]
  split
  · exact .releaseMutex b.policy s (hheld s (.refl s))
  · unfold threadCondWait
    dsimp only
    split
    next hnone =>
      exact (Deeds.releaseMutex b.policy s (hheld s (.refl s))).trans
        (Deeds.condRelock _ c m _)
    next next s₁ hpick =>
      have hpicked := Quiet.pick hpick
      have hreleased : Deeds (fun q' => ¬ (Piece.condWait c m).Respects s q') q s
          (releaseMutex b.policy s₁ m) :=
        (Deeds.quiet hpicked).trans (Deeds.releaseMutex b.policy s₁ (hheld s₁ hpicked))
      exact hreleased.trans ((Deeds.park _ (.cond c) trivial).trans
        (Deeds.quiet (Quiet.swap _ _ _ _)))

/-- What a piece of library code does to an object, in any state. -/
theorem Piece.perform_deeds {p : Piece} (hproper : p.Proper) (q : QueueId) (b : Build) (s : State)
    (e : Env) : Deeds (fun q' => ¬ p.Respects s q') q s (p.perform b s e).1 := by
  by_cases hcreate : p.inCreate = true
  · exact .quiet (Piece.quiet_inCreate hcreate b s e)
  · cases p with
    | start => exact .quiet (.of_eq rfl)
    | yield k =>
        simp only [Piece.perform]
        split
        next next s' hkept => exact .quiet (.keptRunning hkept)
        next => exact .quiet (.threadYield b.policy s k)
    | requeue next => exact .quiet (.enqueue b.policy s next)
    | yieldTo target k =>
        simp only [Piece.perform]
        split
        · exact .refl
        · exact .quiet (.threadYieldTo b.policy s (some target) k)
    | setPriority t prio k =>
        have hwritten := Quiet.priorityWritten b.policy s t prio
        simp only [Piece.perform]
        rcases heq : priorityWritten b.policy s t prio with ⟨s', _ | _⟩
        · rw [heq] at hwritten
          exact .quiet hwritten
        · rw [heq] at hwritten
          exact .quiet hwritten
    | createPublish newth =>
        refine .quiet (Quiet.trans ?_ (returning_fst _ _ _))
        refine Quiet.trans ?_ (Quiet.enqueue b.policy _ newth)
        exact ⟨rfl, rfl, rfl, [_], rfl, by simp [Event.queue]⟩
    | exit retval => exact .quiet (.threadExit b.policy s retval)
    | fault =>
        simp only [Piece.perform, enter]
        split
        · unfold sigsegvHandler
          split
          · exact .quiet (.of_eq rfl)
          · exact .quiet ((Quiet.threadExit b.policy s.marked 0).after rfl)
        · exact .quiet (.of_eq rfl)
    | joinCheck t retval =>
        rcases joinCheck_cases b s e t retval with ⟨err, code, heq⟩ | ⟨target, _, _, _, heq⟩
        · rw [heq]
          exact .quiet ((refused_quiet _ _ _).after rfl)
        · rw [heq]
    | join target retval =>
        exact .quiet ((Quiet.joinChecked s target retval).trans (returning_fst _ _ _))
    | joinClaim target retval =>
        exact .quiet ((Quiet.joinResume s target retval).trans (returning_fst _ _ _))
    | condWait c m => exact condWait_deeds q b s e c m
    | condRelock c m code =>
        exact (Deeds.condRelock s c m code).trans (Deeds.quiet (returning_fst _ _ _))
    | sigwait set => exact .quiet ((Quiet.sigwaitLoop s set).trans (returning_fst _ _ _))
    | critical c =>
        exact (enter_deeds hproper q b s e).trans (Deeds.quiet (returning_fst _ _ _))
    | assign q' v =>
        refine .assigned s hproper (or_not_of_imp fun hrespects => ⟨?_, hrespects.2.1 rfl⟩)
        cases q' with
        | mutex m =>
            have hv : v = -1 ∨ v = 0 := hproper
            unfold intMax
            omega
        | sem sm => exact hrespects.2.2 v rfl
        | cond cond => exact hproper.elim
    | tailqInit q' => exact .on q' (fun hne => .initQueue hne s) .tailqInit
    | tailqEmpty c q' v => exact .refl
    | direct c =>
        refine Relation.ReflTransGen.trans ?_ (Deeds.quiet (.finish c (enter b s c e)))
        rcases enter_direct hproper b s e with ⟨errno, heq⟩ | ⟨cond, heq⟩ | heq
        · rw [heq]
          exact Deeds.quiet (.of_eq rfl)
        · rw [heq]
          refine Deeds.on (.cond cond) (fun hne => ?_) .condInit
          exact (Apart.initQueue hne s).trans (.emit _ (by simpa [Event.queue] using hne))
        · rw [heq]
          exact Deeds.quiet (.of_eq rfl)
    | _ => exact absurd rfl hcreate

namespace Preemptive

/-- The steps that keep the promises for an object. -/
def Respects (q : QueueId) (x : Preemptive) : Stimulus → Prop
  | .go _ => ∀ p ∈ x.nextPiece, p.Respects x.lib q
  | _ => True

instance (q : QueueId) (x : Preemptive) (i : Stimulus) : Decidable (x.Respects q i) :=
  match i with
  | .call _ => .isTrue trivial
  | .tick => .isTrue trivial
  | .go _ => inferInstanceAs (Decidable (∀ p ∈ x.nextPiece, p.Respects x.lib q))

/-- What a step of the preemptive build does to an object, in any state. -/
theorem step_deeds {b : Build} {x x' : Preemptive} {i : Stimulus} (h : MaskInv x)
    (hs : x.step b i = some x') (q : QueueId) :
    Deeds (fun q' => ¬ x.Respects q' i) q x.lib x'.lib := by
  obtain ⟨-, ha⟩ := advance_of_step hs
  cases ha with
  | piece e p rest hfresh hcode =>
      have hmask := h.running
      rw [hcode] at hmask
      have hrespects : (fun q' => ¬ p.Respects x.lib q') = fun q' => ¬ x.Respects q' (.go e) := by
        funext q'
        simp [Respects, nextPiece_eq hcode]
      rw [← hrespects]
      exact Piece.perform_deeds hmask.2.1 q b x.lib e
  | call c hcode => exact .refl
  | tick hmask hinit => exact .refl
  | block e rest hcode => exact .refl
  | unblock e rest hcode => exact .refl
  | sigreturn e k rest hcode => exact .quiet (.of_eq rfl)
  | ret e c code rest hcode => exact .quiet (.finish c (x.lib, some code))

end Preemptive

end UserThreads
