import UserThreads.Operations.Outcome

/-!
# The pieces of `thread_create`

Between its pieces `thread_create` holds a struct and a stack that belong to no
thread. Giving the stack back would restore the invariant, until the new thread is
published.
-/

namespace UserThreads

open Transition

section Pieces

variable {b : Build} {keeps : Prop} {s : State} {e : Env} {rest : List Stmt} (h : Inv s)
  (hrun : s.running.state = .running)
include h hrun

theorem outcome_createInit {newthread func : Bool}
    (hcode : CodeOk s.currentThread s.running.point (.piece (.createInit newthread func) :: rest)) :
    Outcome b keeps s (.createInit newthread func) rest
      ((Piece.createInit newthread func).perform b s e) := by
  obtain ⟨huser, hends⟩ := hcode
  obtain ⟨hm, hrun₁, huser₁, -⟩ := schedulerInit_moves (i := .resume .plain) h hrun huser e.mainSlot
  have hsame := outline_schedulerInit (s := s) e.mainSlot
  have hinv := h.moves hm
  have hinit := schedulerInit_initialized (s := s) (e := e.mainSlot)
  simp only [Piece.perform]
  split
  · have hback := Finishes.refuse (i := .resume .plain) hrun (settled_of_user huser) .einval
      (.threadCreate newthread func) (-1)
    exact .toUser rfl (h.moves hback.moves) (Or.inr hback.runs)
      (.stay (k := .user) (outline_setErrno _) _) (hends _ rfl)
  · generalize schedulerInit s e.mainSlot = r at hm hrun₁ huser₁ hsame hinv hinit
    obtain ⟨s', _ | _⟩ := r
    · have hback := Finishes.refuse (i := .resume .plain) hrun₁ (settled_of_user huser₁) .enomem
        (.threadCreate newthread func) (-1)
      exact .toUser rfl (hinv.moves hback.moves) (Or.inr hback.runs)
        (.stay (k := .user) ((outline_setErrno _).trans hsame) _) (hends _ rfl)
    · have hcurrent : s'.currentThread = s.currentThread := congrArg (·.2.1) hsame
      refine .owing rfl hrun₁ hsame (.alloc hinv (hinit rfl) huser₁ ?_)
      rw [hcurrent]
      exact hends _ rfl

theorem outcome_createAlloc (hinit : s.schedulerInitialized = true)
    (huser : s.running.point = .user) (hfresh : e.Fresh s)
    (hcode : CodeOk s.currentThread .user rest) :
    Outcome b keeps s .createAlloc rest (Piece.createAlloc.perform b s e) := by
  simp only [Piece.perform]
  cases halloc : (threadAlloc s e.thread).2 with
  | none =>
      have hback := Finishes.refuse (i := .resume .plain) hrun (settled_of_user huser) .enomem
        (.threadCreate true true) (-1)
      rw [threadAlloc_none halloc]
      exact .toUser rfl (h.moves hback.moves) (Or.inr hback.runs)
        (.stay (k := .user) (outline_setErrno _) _) hcode
  | some n =>
      obtain ⟨hm, hcurrent, -, hrec⟩ :=
        threadAlloc_moves (i := .resume .plain) hrun huser hfresh.1 halloc hinit
      have hsame := outline_of_schedule (schedule_threadAlloc s e.thread)
      have hinv := h.moves hm
      have hrun' : ((threadAlloc s e.thread).1.setPoint s.currentThread
          (.create n 0)).running.state = .running := by
        rw [hrec, ← hrun]
      have hpair : threadAlloc s e.thread = ((threadAlloc s e.thread).1, some n) := by rw [← halloc]
      rw [hpair]
      generalize (threadAlloc s e.thread).1 = s' at hm hcurrent hinv hrun' hsame
      dsimp only
      rw [hcurrent]
      have hpoint := outline_setPoint (s := s') s.currentThread (.create n 0)
      unfold State.outline at hpoint hsame
      simp only [Prod.mk.injEq] at hpoint hsame
      refine .plain rfl hinv (Or.inr hrun') (k := .create n 0) ?_ ?_
        (CodeOk.last rfl (fun _ hq => hq) hcode)
      · rw [hpoint.1, hsame.1]
      · rw [hpoint.2.2, hsame.2.2]
        exact List.Subset.refl _

theorem outcome_createReclaim {n : Tid}
    (hcode : CodeOk s.currentThread s.running.point (.piece (.createReclaim n) :: rest)) :
    Outcome b keeps s (.createReclaim n) rest ((Piece.createReclaim n).perform b s e) := by
  obtain ⟨hk, hends⟩ := hcode
  have hk : s.running.point = .create n 0 := hk
  have hcode' : CodeOk s.currentThread s.running.point
      ([.piece (.createStack n 0)] ++ rest) := by
    rw [hk]
    exact CodeOk.last rfl (fun _ hq => hq) (hends _ rfl)
  obtain ⟨hm, -⟩ := reclaimDeferredStacksBatch_moves (i := .resume .plain) maxDeferredStacks s
  have hschedule := schedule_reclaimDeferredStacksAll s
  simp only [Piece.perform]
  split
  · refine .still rfl (h.moves hm) ?_ (outline_of_schedule hschedule) hcode'
    rw [running_of_schedule hschedule, hrun]
  · exact .still rfl h hrun rfl hcode'

theorem outcome_createStack {n : Tid} {r : Nat} (hfresh : e.Fresh s)
    (hcode : CodeOk s.currentThread s.running.point (.piece (.createStack n r) :: rest)) :
    Outcome b keeps s (.createStack n r) rest ((Piece.createStack n r).perform b s e) := by
  obtain ⟨hk, hends⟩ := hcode
  have hk : s.running.point = .create n r := hk
  have hretry : Outcome b keeps s (.createStack n r) rest (s, [.piece (.createRetry n r)]) := by
    refine .still rfl h hrun rfl ?_
    rw [hk]
    exact CodeOk.last rfl (fun _ hq => hq) (hends _ rfl)
  cases hpool : s.stackPool with
  | cons entry pool =>
      have halloc : stackPoolAlloc b s e.stack = ({ s with stackPool := pool }, some entry) := by
        simp [stackPoolAlloc, hpool]
      have hback : ({ s with stackPool := entry :: pool } : State) = s := by rw [← hpool]
      have hholds : HoldsStack { s with stackPool := pool } n entry :=
        ⟨by rw [hback]; exact h, r, hk⟩
      simp only [Piece.perform, halloc]
      refine .owing rfl ?_ ?_ (.fill hholds (hends _ rfl))
      · exact hrun
      · rfl
  | nil =>
      cases hmap : e.stack.map with
      | none =>
          have halloc : stackPoolAlloc b s e.stack = (s, none) := by
            simp [stackPoolAlloc, hpool, hmap]
          simp only [Piece.perform, halloc]
          exact hretry
      | some map =>
          by_cases hguard : b.guardPage ∧ e.stack.mprotect = false
          · have halloc : stackPoolAlloc b s e.stack = (s, none) := by
              simp [stackPoolAlloc, hpool, hmap, hguard]
            simp only [Piece.perform, halloc]
            exact hretry
          · let entry : StackEntry :=
              { map := map, stack := map + guardSize, valgrindId := e.stack.valgrindId }
            have halloc : stackPoolAlloc b s e.stack =
                ({ s with mappings := map :: s.mappings }, some entry) := by
              simp [stackPoolAlloc, hpool, hmap, hguard, entry]
            have hmapped : Move (.resume .plain) s
                { s with mappings := map :: s.mappings, stackPool := [entry] } :=
              .mapStack entry hpool (hfresh.2 map hmap)
            have hholds : HoldsStack { s with mappings := map :: s.mappings } n entry := by
              refine ⟨?_, r, hk⟩
              simp only [hpool]
              exact h.move hmapped
            simp only [Piece.perform, halloc]
            refine .owing rfl ?_ ?_ (.fill hholds (hends _ rfl))
            · exact hrun
            · rfl

theorem outcome_createRetry {n : Tid} {r : Nat}
    (hcode : CodeOk s.currentThread s.running.point (.piece (.createRetry n r) :: rest)) :
    Outcome b keeps s (.createRetry n r) rest ((Piece.createRetry n r).perform b s e) := by
  obtain ⟨hk, hends⟩ := hcode
  have hk : s.running.point = .create n r := hk
  obtain ⟨hm, -⟩ := reclaimDeferredStacksBatch_moves (i := .resume .plain) maxDeferredStacks s
  have hschedule := schedule_reclaimDeferredStacksAll s
  have hsame := outline_of_schedule hschedule
  have hrunning := running_of_schedule hschedule
  have hcurrent : (reclaimDeferredStacksAll s).currentThread = s.currentThread :=
    congrArg (·.2.1) hsame
  simp only [Piece.perform]
  split
  next hstop =>
    have hback := createRetry_finishes (i := .resume .plain) h hrun hk b (.threadCreate true true)
    simp only [if_pos hstop] at hback
    exact .toUser rfl (h.moves hback.moves) (Or.inr hback.runs)
      (.stay (k := .user) ((outline_setErrno _).trans
        ((outline_threadObjRelease n).trans hsame)) _) (hends _ rfl)
  next =>
    have hretry : Move (.resume .plain) (reclaimDeferredStacksAll s)
        ((reclaimDeferredStacksAll s).setPoint (reclaimDeferredStacksAll s).currentThread
          (.create n (r + 1))) :=
      .retry n r (r + 1) (by rw [hrunning, hrun]) (by rw [hrunning, hk])
    have hinv := (h.moves hm).move hretry
    have hpoint := outline_setPoint (s := reclaimDeferredStacksAll s) s.currentThread
      (.create n (r + 1))
    have hrun' : ((reclaimDeferredStacksAll s).setPoint (reclaimDeferredStacksAll s).currentThread
        (.create n (r + 1))).running.state = .running := by
      have hstate : (reclaimDeferredStacksAll s).running.state = .running := by rw [hrunning, hrun]
      simpa [State.setPoint, State.modifyThread, State.running] using hstate
    rw [hcurrent] at hinv hrun' ⊢
    unfold State.outline at hpoint hsame
    simp only [Prod.mk.injEq] at hpoint hsame
    refine .plain rfl hinv (Or.inr hrun') (k := .create n (r + 1)) ?_ ?_ ?_
    · rw [hpoint.1, hsame.1]
    · rw [hpoint.2.2, hsame.2.2]
      exact List.Subset.refl _
    · refine ⟨⟨Or.inl rfl, by simp⟩, fun q hq => ?_⟩
      have hq : q = .create n (r + 1) := hq.elim id id
      rw [hq]
      exact CodeOk.last rfl (fun _ hq => hq) (hends _ rfl)

end Pieces

section Creation

variable {b : Build} {keeps : Prop} {s s₁ : State} {e : Env} {rest : List Stmt} {n : Tid}
  {entry : StackEntry}

/-- The struct that is being filled is no thread yet. -/
theorem HoldsStack.fresh (h : HoldsStack s n entry) : n ∉ s.handles ∧ n ≠ s.currentThread := by
  obtain ⟨r, hk⟩ := h.point
  obtain ⟨hn, -⟩ := h.inv.mem.held_fresh h.inv.sched.current_mem (congrArg Point.held hk)
  exact ⟨hn, fun heq => hn (heq ▸ h.inv.sched.current_mem)⟩

/-- Writing to the struct does not concern the running thread. -/
theorem HoldsStack.running (h : HoldsStack s n entry) (f : Thread → Thread) :
    (s.modifyThread n f).running = s.running :=
  Function.update_of_ne h.fresh.2.symm _ _

theorem outcome_createFill (h : HoldsStack s n entry) (hrun : s.running.state = .running)
    (hcode : CodeOk s.currentThread .user rest) :
    Outcome b keeps s (.createFill n entry) rest ((Piece.createFill n entry).perform b s e) := by
  refine .owing rfl ?_ (outline_modify rfl) (.slot h rfl hcode)
  exact (congrArg Thread.state (h.running _)).trans hrun

/-- The rest of `thread_create` does what it does in the other build. -/
theorem HoldsStack.createThread_finishes (h : HoldsStack s n entry)
    (hrun : s.running.state = .running) (p : Policy) (e : SlotEnv) (c : Call) :
    Finishes (.resume .plain) { s with stackPool := entry :: s.stackPool }
      (finish c (createThread p s n entry e)) := by
  obtain ⟨r, hk⟩ := h.point
  have hpool : ({ s with stackPool := entry :: s.stackPool } : State).stackPool =
      entry :: s.stackPool := rfl
  exact UserThreads.createThread_finishes h.inv hrun hk p hpool e c

theorem outcome_createSlot (h : HoldsStack s₁ n entry)
    (hfilled : s = s₁.modifyThread n fun th => th.fresh entry)
    (hrun : s.running.state = .running) (hcode : CodeOk s.currentThread .user rest) :
    Outcome b keeps s (.createSlot n entry) rest ((Piece.createSlot n entry).perform b s e) := by
  have hrun₁ : s₁.running.state = .running := by
    rw [hfilled, h.running] at hrun
    exact hrun
  have hschedule := schedule_threadHeadRefAlloc s n e.slot
  have hsame := outline_of_schedule hschedule
  have hrunning := running_of_schedule hschedule
  have hfinish := h.createThread_finishes hrun₁ b.policy e.slot (.threadCreate true true)
  simp only [Piece.perform]
  rcases halloc : threadHeadRefAlloc s n e.slot with ⟨s₂, _ | ref⟩
  · have hcreate : createThread b.policy s₁ n entry e.slot = ((stackPoolPush (threadObjRelease
        (s₂.modifyThread n fun th => { th with headJoiner := none }) n) entry).setErrno .enomem,
          some (-1)) := by
      simp only [createThread, ← hfilled, halloc]
    rw [halloc] at hsame
    rw [hcreate] at hfinish
    refine .toUser rfl (h.inv.moves hfinish.moves) (Or.inr hfinish.runs)
      (.stay (k := .user) ?_ _) hcode
    rw [outline_setErrno, stackPoolPush_eq]
    refine Eq.trans ?_ hsame
    exact (outline_threadObjRelease n).trans (outline_modify rfl)
  · rw [halloc] at hsame hrunning
    have hne : n ≠ s₂.currentThread := by
      have hcurrent : s₂.currentThread = s.currentThread := congrArg (·.2.1) hsame
      rw [hcurrent, hfilled]
      exact h.fresh.2
    refine .owing rfl ?_ (Eq.trans (outline_modify rfl) hsame) (.publishMask ⟨s₁, s₂, entry, e.slot,
      ref, h, by rw [← hfilled]; exact halloc, rfl⟩ ?_)
    · rw [← hrun, ← hrunning]
      exact congrArg Thread.state (Function.update_of_ne hne.symm _ _)
    · have hcurrent : s₂.currentThread = s.currentThread := congrArg (·.2.1) hsame
      refine (?_ : CodeOk s₂.currentThread .user rest)
      rw [hcurrent]
      exact hcode

/-- The thread `n` as `thread_create` publishes it, before it is enqueued. -/
def State.published (s : State) (n : Tid) : State :=
  { { s with nextThreadId := s.nextThreadId + 1 }.modifyThread n fun th =>
      { th with point := .entry, id := s.nextThreadId } with
    handles := n :: s.handles }.emit (.created s.nextThreadId n)

theorem outline_published (s : State) (n : Tid) :
    (s.published n).outline =
      (Function.update s.points n .entry, s.currentThread, n :: s.handles) := by
  have hpoints : (s.published n).points = Function.update s.points n .entry := by
    funext t
    by_cases ht : t = n
    · subst ht
      simp [State.published, State.points, State.emit, State.modifyThread]
    · simp [State.published, State.points, State.emit, State.modifyThread, ht]
  unfold State.outline
  rw [hpoints]
  rfl

/-- A prepared struct is no thread, everything else is as it was before it was
filled, and publishing it ends the creation as in the other build. -/
theorem Prepared.spec (h : Prepared s n) :
    ∃ s₁ entry e, HoldsStack s₁ n entry ∧ s.schedule = s₁.schedule ∧
      (∀ t, t ≠ n → s.threads t = s₁.threads t) ∧
      ∀ p, createThread p s₁ n entry e = (threadSchedulerEnqueue p (s.published n) n, some 0) := by
  obtain ⟨s₁, s₂, entry, e, ref, hholds, halloc, rfl⟩ := h
  obtain ⟨hschedule, hthreads⟩ :=
    schedule_threadHeadRefAlloc (s₁.modifyThread n fun th => th.fresh entry) n e
  rw [halloc] at hschedule hthreads
  refine ⟨s₁, entry, e, hholds, hschedule, fun t ht => ?_, fun p => ?_⟩
  · have htaken : s₂.threads t = s₁.threads t :=
      (congrFun hthreads t).trans (Function.update_of_ne ht _ _)
    exact (Function.update_of_ne ht _ _).trans htaken
  · simp only [createThread, halloc]
    simp [State.published, State.modifyThread]

theorem outcome_createPublish (h : Prepared s n) (hrun : s.running.state = .running)
    (hcode : CodeOk s.currentThread .user rest) :
    Outcome b keeps s (.createPublish n) rest ((Piece.createPublish n).perform b s e) := by
  obtain ⟨s₁, entry, se, hholds, hschedule, hthreads, hcreate⟩ := h.spec
  have hcurrent : s.currentThread = s₁.currentThread := congrArg Prod.fst hschedule
  have hne : n ≠ s.currentThread := by
    rw [hcurrent]
    exact hholds.fresh.2
  have hrun₁ : s₁.running.state = .running := by
    have hrec := hthreads s.currentThread hne.symm
    rw [State.running, hrec, hcurrent] at hrun
    exact hrun
  have hfinish := hholds.createThread_finishes hrun₁ b.policy se (.threadCreate true true)
  rw [hcreate] at hfinish
  have hperform : (Piece.createPublish n).perform b s e = (finish (.threadCreate true true)
      (threadSchedulerEnqueue b.policy (s.published n) n, some 0), [.unblock]) := rfl
  have hnew := (outline_enqueue (p := b.policy) (s := s.published n) n).trans
    (outline_published s n)
  rw [hperform]
  generalize threadSchedulerEnqueue b.policy (s.published n) n = s' at hfinish hnew
  unfold State.outline at hnew
  simp only [Prod.mk.injEq] at hnew
  obtain ⟨hpoints, hcurrent', hhandles⟩ := hnew
  have hpoints' : (finish (.threadCreate true true) (s', some 0)).points =
      Function.update (Function.update s.points n .entry) s.currentThread .user := by
    have hback := congrArg Prod.fst (outline_setPoint
      (s := s'.emit (.returned s'.self (.threadCreate true true) 0)) s'.currentThread .user)
    rw [← hpoints, ← hcurrent']
    exact hback
  have hhandles' : (finish (.threadCreate true true) (s', some 0)).handles = n :: s.handles :=
    hhandles
  refine ⟨fun t ht hself hnew => ?_, fun n' hn' => ?_,
    Or.inl ⟨hholds.inv.moves hfinish.moves, ?_⟩, Or.inr hfinish.runs⟩
  · have htn : t ≠ n := fun heq => hnew (congrArg some heq.symm)
    rw [hhandles', List.mem_cons] at ht
    refine ⟨ht.resolve_left htn, ?_⟩
    rw [hpoints', Function.update_of_ne hself, Function.update_of_ne htn]
  · cases hn'
    rw [hpoints', Function.update_of_ne hne, Function.update_self]
  · rw [hpoints', Function.update_self]
    exact hcode

end Creation

end UserThreads
