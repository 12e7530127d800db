import UserThreads.Operations.Dispatch
import UserThreads.Abstract.Contract

/-!
# Termination and joining as acts and moves
-/

namespace UserThreads

open Transition

section Exit

variable {i : Input} {s : State} (h : Inv s)
include h

/-- The wake-up in `thread_exit` finds its joiner blocked. -/
theorem exitWake_moves (p : Policy) {d : Tid} (hd : d ∈ s.handles)
    (hdead : (s.threads d).state = .terminated)
    (hjoiner : ∀ j, (s.threads d).joinedBy = some j → (s.threads j).state = .blocked) :
    Moves i s (exitWake p s d) ∧ (exitWake p s d).currentThread = s.currentThread ∧
      ((exitWake p s d).threads d).state = .terminated := by
  unfold exitWake
  split
  next => exact ⟨.refl, rfl, hdead⟩
  next j hj =>
    have hb := hjoiner j hj
    obtain ⟨hmem, -⟩ := h.join.joiner d hd j hj
    have hdj : d ≠ j := by
      rintro rfl
      rw [hdead] at hb
      cases hb
    have hout : ((s.setState j .ready (some (.threadExit d))).threads j).inReadyQueue = false := by
      simpa [State.setState, State.emit, State.modifyThread] using
        h.flag_false hmem (by simp [hb])
    obtain ⟨rq, hrq, heq⟩ := threadSchedulerEnqueue_eq p hout
    have hwake : threadSchedulerEnqueue p (s.setState j .ready (some (.threadExit d))) j =
        s.wakeJoiner d j rq := by
      rw [heq]
      simp [State.setState, State.emit, State.modifyThread, State.wakeJoiner]
    rw [hwake]
    refine ⟨.single (.wakeJoiner d j rq hd hdead hj hb hrq), rfl, ?_⟩
    simpa [State.wakeJoiner, hdj] using hdead

/-- A dying thread, as `thread_exit` leaves it for the wake-up. -/
structure Dying (s s' : State) (d : Tid) : Prop where
  current : s'.currentThread = s.currentThread
  handles : s'.handles = s.handles
  dead : (s'.threads d).state = .terminated
  joiner : ∀ j, (s'.threads d).joinedBy = some j → (s'.threads j).state = .blocked

omit h in
theorem Dying.write {d : Tid} {a : Thread} {s' : State} (hd : Dying s s d)
    (hthreads : s'.threads = Function.update s.threads d a)
    (hcur : s'.currentThread = s.currentThread) (hhandles : s'.handles = s.handles)
    (hstate : a.state = (s.threads d).state) (hjoined : a.joinedBy = (s.threads d).joinedBy) :
    Dying s s' d := by
  refine ⟨hcur, hhandles, ?_, ?_⟩
  · rw [hthreads, Function.update_self, hstate]
    exact hd.dead
  · intro j hj
    rw [hthreads, Function.update_self, hjoined] at hj
    rw [hthreads, proj_update Thread.state hstate j]
    exact hd.joiner j hj

omit h in
/-- The struct of a dying thread goes to the zombie queue, unless a joiner
waits for it. -/
theorem exitZombie_moves {d : Tid} (hmem : d ∈ s.handles) (hd : Dying s s d)
    (hout : (s.threads d).inZombieQueue = false) :
    Moves i s (exitZombie s d) ∧ Dying s (exitZombie s d) d := by
  unfold exitZombie
  split
  next => exact ⟨.refl, hd⟩
  next hmain =>
    have hdefer : Move i s (deferStackReclaim s d) := .deferStack d hmem hd.dead
    obtain ⟨map, base, deferred, heq⟩ := deferStackReclaim_frame s d
    have hd' : Dying s (deferStackReclaim s d) d := by
      rw [heq]
      exact hd.write rfl rfl rfl rfl rfl
    have hout' : ((deferStackReclaim s d).threads d).inZombieQueue = false := by
      rw [heq]
      simpa using hout
    have hadd : Move i (deferStackReclaim s d) (threadZombieAdd (deferStackReclaim s d) d) :=
      .zombieAdd d (hd'.handles ▸ hmem) hmain hd'.dead hout'
    dsimp only
    split
    next hnone =>
      refine ⟨.tail (.single hdefer) hadd, ?_⟩
      have hz : Dying (deferStackReclaim s d) (threadZombieAdd (deferStackReclaim s d) d) d :=
        Dying.write ⟨rfl, rfl, hd'.dead, hd'.joiner⟩ rfl rfl rfl rfl rfl
      exact ⟨hz.current.trans hd'.current, hz.handles.trans hd'.handles, hz.dead, hz.joiner⟩
    next j hj =>
      rw [if_neg (by simp [hd'.joiner j hj])]
      exact ⟨.single hdefer, hd'⟩

omit h in
/-- The processor passes to the next ready thread, or the process ends. -/
theorem pickNext_moves (hrun : s.running.state ≠ .running) :
    let s' := match threadSchedulerPickNext s with
      | none => { s with ended := true }
      | some (next, s) => { s with currentThread := next }.setState next .running none
    Moves i s s' ∧ (s'.ended = true ∨ s'.running.state = .running) := by
  by_cases hq : s.readyQueue = []
  · rw [threadSchedulerPickNext_nil hq]
    exact ⟨.single (.endProcess (s := s)), Or.inl rfl⟩
  · obtain ⟨next, rest, hq⟩ := List.exists_cons_of_ne_nil hq
    have heq : { s.picked next rest with currentThread := next }.setState next .running none =
        s.dispatch next rest := by
      simp [State.picked, State.setState, State.emit, State.modifyThread, State.dispatch]
    simp only [threadSchedulerPickNext_cons hq, heq]
    exact ⟨Moves.dispatch hrun hq, Or.inr (State.dispatch_running _ _ _)⟩

omit h in
/-- The first statements of `thread_exit`. -/
theorem terminate_eq (s : State) (v : Value) :
    ((s.modifyThread s.currentThread fun th => { th with retval := v }).emit
      (.exited s.self v)).setState s.currentThread .terminated none = s.terminate v := by
  simp [State.setState, State.emit, State.modifyThread, State.terminate, State.running,
    State.self]

/-- The joiner of the running thread is blocked. -/
theorem Inv.joiner_blocked (hrun : s.running.state = .running) {j : Tid}
    (hj : s.running.joinedBy = some j) :
    j ∈ s.handles ∧ (s.threads j).state = .blocked ∧ j ≠ s.currentThread := by
  have hr : (s.threads s.currentThread).state = .running := hrun
  obtain ⟨hmem, htarget⟩ := h.join.joiner _ h.sched.current_mem j hj
  have hblocked := h.join.blocked j hmem _ htarget (by simp [hr])
  refine ⟨hmem, hblocked, ?_⟩
  rintro rfl
  rw [hr] at hblocked
  cases hblocked

theorem threadExit_moves (p : Policy) (v : Value) (hrun : s.running.state = .running)
    (huser : s.running.point = .user) :
    Moves i s (threadExit p s v) ∧
      ((threadExit p s v).ended = true ∨ (threadExit p s v).running.state = .running) := by
  have hr : (s.threads s.currentThread).state = .running := hrun
  have hok := h.sched.threads_ok _ h.sched.current_mem
  have hterm : Move i s (s.terminate v) := .terminate v hrun huser
  have hinv := h.move hterm
  have hmem : s.currentThread ∈ (s.terminate v).handles := h.sched.current_mem
  -- The joiner of a live thread is blocked, and it is not the dying thread.
  have hd : Dying (s.terminate v) (s.terminate v) s.currentThread := by
    refine ⟨rfl, rfl, by simp [State.terminate], fun j hj => ?_⟩
    obtain ⟨-, hb, hjc⟩ := h.joiner_blocked hrun (j := j)
      (by simpa [State.terminate, State.running] using hj)
    simpa [State.terminate, hjc] using hb
  have hout : ((s.terminate v).threads s.currentThread).inZombieQueue = false := by
    have hz : (s.threads s.currentThread).inZombieQueue = false := by
      rw [← Bool.not_eq_true]
      intro hz
      have hdead := hok.zombie hz
      rw [hr] at hdead
      cases hdead
    simpa [State.terminate, State.running] using hz
  obtain ⟨hm₁, hd₁⟩ := exitZombie_moves (i := i) hmem hd hout
  obtain ⟨hm₂, hcur₂, hdead₂⟩ := exitWake_moves (i := i) (hinv.moves hm₁) p
    (hd₁.handles ▸ hmem) hd₁.dead hd₁.joiner
  have hstop : (exitWake p (exitZombie (s.terminate v) s.currentThread)
      s.currentThread).running.state ≠ .running := by
    rw [State.running, hcur₂, hd₁.current, show (s.terminate v).currentThread = s.currentThread
      from rfl, hdead₂]
    simp
  obtain ⟨hm₃, hend⟩ := pickNext_moves (i := i) hstop
  unfold threadExit
  simp only [terminate_eq]
  exact ⟨((Relation.ReflTransGen.single hterm).trans hm₁).trans (hm₂.trans hm₃), hend⟩

theorem threadExit_completed (p : Policy) (v : Value) (hrun : s.running.state = .running)
    (huser : s.running.point = .user) : Completed i s (threadExit p s v) := by
  obtain ⟨hm, hend⟩ := threadExit_moves (i := i) h p v hrun huser
  exact ⟨.of_moves hm, hend⟩

theorem sigsegvHandler_completed (p : Policy) (hrun : s.running.state = .running)
    (huser : s.running.point = .user) : Completed i s (sigsegvHandler p s) := by
  unfold sigsegvHandler
  split
  · exact ⟨.of_moves (.single (.endProcess (s := s))), Or.inl rfl⟩
  · have hover : Move i s (s.modifyThread s.currentThread fun th =>
        { th with stackOverflow := true }) := .overflow hrun
    have hsame : (s.modifyThread s.currentThread fun th =>
        { th with stackOverflow := true }).running = { s.running with stackOverflow := true } := by
      simp [State.running, State.modifyThread]
    obtain ⟨hm, hend⟩ := threadExit_moves (i := i) (h.move hover) p 0 (by rw [hsame, ← hrun])
      (by rw [hsame, ← huser])
    exact ⟨.of_moves ((Relation.ReflTransGen.single hover).trans hm), hend⟩

end Exit

section Claim

/-- Leaving `thread_join`, in the record of the caller. -/
def Thread.leaveJoin (th : Thread) : Thread := { th with waitingFor := none }

variable {i : Input} {s : State} {t : Tid}

theorem claimTarget_zombie (hmain : t = mainThread → (s.threads t).inZombieQueue = false) :
    claimTarget s t = claimTarget (threadZombieRemove s t) t := by
  by_cases hz : (s.threads t).inZombieQueue
  · have ht : t ≠ mainThread := fun e => by simp [hmain e] at hz
    have hagain : threadZombieRemove (threadZombieRemove s t) t = threadZombieRemove s t := by
      simp [threadZombieRemove, hz, State.modifyThread]
    simp only [claimTarget, ht, if_false, hagain]
  · have hsame : threadZombieRemove s t = s := by simp [threadZombieRemove, hz]
    rw [hsame]

theorem threadZombieRemove_leave (hne : t ≠ s.currentThread) :
    threadZombieRemove (s.modifyThread s.currentThread Thread.leaveJoin) t =
      (threadZombieRemove s t).modifyThread s.currentThread Thread.leaveJoin := by
  unfold threadZombieRemove
  by_cases hz : (s.threads t).inZombieQueue
  · simp [State.modifyThread, hne, hne.symm, hz, Function.update_comm hne]
  · simp [State.modifyThread, hne, hz]

theorem claimTarget_leave (hne : t ≠ s.currentThread)
    (hzombie : (s.threads t).inZombieQueue = false) :
    claimTarget (s.modifyThread s.currentThread Thread.leaveJoin) t =
      (claimTarget s t).modifyThread s.currentThread Thread.leaveJoin := by
  by_cases hmain : t = mainThread
  · subst t
    simp [claimTarget_main, State.modifyThread]
  · have hz :
        ((s.modifyThread s.currentThread Thread.leaveJoin).threads t).inZombieQueue = false := by
      simpa [State.modifyThread, hne] using hzombie
    rw [claimTarget_eq hmain hz, claimTarget_eq hmain hzombie]
    simp only [State.modifyThread, Function.update_of_ne hne, Function.update_of_ne hne.symm,
      Function.update_comm hne]
    rfl

theorem claimTarget_current (hne : t ≠ s.currentThread)
    (hzombie : (s.threads t).inZombieQueue = false) :
    (claimTarget s t).currentThread = s.currentThread ∧
      (claimTarget s t).threads s.currentThread = s.running := by
  by_cases hmain : t = mainThread
  · subst t
    rw [claimTarget_main]
    exact ⟨rfl, rfl⟩
  · rw [claimTarget_eq hmain hzombie]
    exact ⟨rfl, Function.update_of_ne hne.symm _ _⟩

theorem storedRetval_eq (retval : Bool) :
    ∀ v ∈ storedRetval s t retval, v = (s.threads t).retval := by
  intro v hv
  unfold storedRetval at hv
  split at hv
  · simpa using hv.symm
  · cases hv

/-- The return from a join that has claimed its target. -/
theorem finish_claim (hcur : (claimTarget s t).currentThread = s.currentThread) (c : Call)
    (e : Option Errno) (code : Int) (stored : Option Value) :
    finish c (State.emit
        { (claimTarget s t).modifyThread s.currentThread Thread.leaveJoin with errno := e }
        (.joined (s.threads t).id code stored), some code) =
      { s.claim t code stored with errno := e }.emit
        (.returned (s.claim t code stored).self c code) := by
  simp [finish, State.claim, State.emit, State.modifyThread, State.setPoint, State.self, hcur,
    Thread.leaveJoin]

/-- A terminated target is taken out of the zombie queue and claimed. -/
theorem claim_finishes (h : Inv s) (hrun : s.running.state = .running) (ht : t ∈ s.handles)
    (hdead : (s.threads t).state = .terminated)
    (hpoint : s.running.point.target = some t ∨
      s.running.point = .user ∧ (s.threads t).joinedBy = none)
    (c : Call) (e : Option Errno) (code : Int) {stored : Option Value}
    (hstored : ∀ v ∈ stored, v = (s.threads t).retval) :
    Finishes i s (finish c (State.emit
      { claimTarget (s.modifyThread s.currentThread Thread.leaveJoin) t with errno := e }
      (.joined (s.threads t).id code stored), some code)) := by
  have hne : t ≠ s.currentThread := by
    rintro rfl
    rw [State.running, hdead] at hrun
    cases hrun
  have hremove : Move i s (threadZombieRemove s t) := .zombieRemove t
  obtain ⟨queue, heq⟩ := threadZombieRemove_frame s t
  have hcur : (threadZombieRemove s t).currentThread = s.currentThread := by rw [heq]
  have hrec : (threadZombieRemove s t).running = s.running := by
    rw [heq]
    exact Function.update_of_ne hne.symm _ _
  have htar : (threadZombieRemove s t).threads t = { s.threads t with inZombieQueue := false } := by
    rw [heq]
    exact Function.update_self _ _ _
  have hz : ((threadZombieRemove s t).threads t).inZombieQueue = false := by rw [htar]
  have hne' : t ≠ (threadZombieRemove s t).currentThread := by rwa [hcur]
  have hclaim : Move i (threadZombieRemove s t)
      ((threadZombieRemove s t).claim t code stored) := by
    refine .claim t code _ (by rw [hrec, hrun]) (by rw [heq]; exact ht) hne' (by rw [htar, ← hdead])
      hz (by rw [hrec, htar]; exact hpoint) (by rw [htar]; exact hstored)
  have hsame : claimTarget (s.modifyThread s.currentThread Thread.leaveJoin) t =
      (claimTarget (threadZombieRemove s t) t).modifyThread s.currentThread Thread.leaveJoin := by
    have hleave := claimTarget_leave hne' hz
    rw [hcur] at hleave
    rw [claimTarget_zombie, threadZombieRemove_leave hne, hleave]
    rintro rfl
    simpa [State.modifyThread, hne] using h.main.2
  have hid : (s.threads t).id = ((threadZombieRemove s t).threads t).id := by rw [htar]
  have hfinish := finish_claim (claimTarget_current hne' hz).1 c e code stored
  rw [hcur, ← hid] at hfinish
  rw [hsame, hfinish]
  have hmoves : Moves i s ({ (threadZombieRemove s t).claim t code stored with errno := e }.emit
      (.returned ((threadZombieRemove s t).claim t code stored).self c code)) :=
    .tail (.tail (.tail (.single hremove) hclaim) (.errno e)) (.returned c code)
  refine ⟨hmoves, ?_⟩
  have hback := State.claim_threads_current hne' hz code stored
  have hstay : ((threadZombieRemove s t).claim t code stored).currentThread =
      (threadZombieRemove s t).currentThread := (claimTarget_current hne' hz).1
  change (((threadZombieRemove s t).claim t code stored).threads
    ((threadZombieRemove s t).claim t code stored).currentThread).state = _
  rw [hstay, hback, hrec]
  exact hrun

end Claim

section Join

variable {i : Input} {s : State} {t : Tid} (h : Inv s) (hrun : s.running.state = .running)
include h hrun

/-- `thread_join` after its context switch: the target has terminated. -/
theorem joinResume_completed {retval : Bool} (hk : s.running.point = .join t retval) (c : Call) :
    Completed i s (finish c (joinResume s t retval)) := by
  have htarget : s.running.point.target = some t := by
    rw [hk]
    rfl
  obtain ⟨ht, -⟩ := h.join.target _ h.sched.current_mem t htarget
  have hdead : (s.threads t).state = .terminated := by
    by_contra hlive
    have hb := h.join.blocked _ h.sched.current_mem t htarget hlive
    rw [State.running, hb] at hrun
    cases hrun
  have hne : t ≠ s.currentThread := by
    rintro rfl
    rw [State.running, hdead] at hrun
    cases hrun
  have hrestate : Move i s (s.emit (.stateSet s.self .running .running s.running.point none)) :=
    .restate hrun
  have hleave : (s.modifyThread s.currentThread fun th => { th with waitingFor := none }).setState
      s.currentThread .running none =
      (s.emit (.stateSet s.self .running .running s.running.point none)).modifyThread
        s.currentThread Thread.leaveJoin := by
    have hr : (s.threads s.currentThread).state = .running := hrun
    simp [State.setState, State.emit, State.modifyThread, State.self, State.running,
      Thread.leaveJoin, hr]
  have hclaim := fun e code => claim_finishes (i := i) (h.move hrestate) hrun ht hdead
    (Or.inl htarget) c e code (storedRetval_eq (s := s) retval)
  have hrec : ((s.emit (.stateSet s.self .running .running s.running.point none)).modifyThread
      s.currentThread Thread.leaveJoin).threads t = s.threads t := Function.update_of_ne hne _ _
  have hstored : storedRetval ((s.emit (.stateSet s.self .running .running s.running.point
      none)).modifyThread s.currentThread Thread.leaveJoin) t retval = storedRetval s t retval := by
    unfold storedRetval
    rw [hrec]
  unfold joinResume
  simp only [hleave, hrec, hstored]
  split
  · exact ((hclaim (some .efault) (-1)).after (.single hrestate)).completed
  · exact ((hclaim (claimTarget ((s.emit (.stateSet s.self .running .running
      s.running.point none)).modifyThread s.currentThread Thread.leaveJoin) t).errno 0).after
      (.single hrestate)).completed

variable (huser : s.running.point = .user)
include huser

theorem joinTerminated_completed (ht : t ∈ s.handles) (hdead : (s.threads t).state = .terminated)
    (hfree : (s.threads t).joinedBy = none) (retval : Bool) (c : Call) :
    Completed i s (finish c (joinTerminated s t retval)) := by
  have hok := h.sched.threads_ok _ h.sched.current_mem
  have hwait : (s.threads s.currentThread).waitingFor = none := by
    rw [hok.waiting, ← State.running, huser]
    rfl
  have hleave : s.modifyThread s.currentThread Thread.leaveJoin = s := by
    have hsame : (s.threads s.currentThread).leaveJoin = s.threads s.currentThread := by
      unfold Thread.leaveJoin
      rw [← hwait]
    unfold State.modifyThread
    rw [hsame, Function.update_eq_self]
  have hclaim := claim_finishes (i := i) h hrun ht hdead (Or.inr ⟨huser, hfree⟩) c
    (claimTarget s t).errno 0 (storedRetval_eq retval)
  rw [hleave] at hclaim
  exact hclaim.completed

omit h hrun huser in
/-- `thread_join` with its locals named, up to the pick. -/
theorem joinBlock_eq {slot : SlotRef} {retval : Bool} {next : Tid} {rest : List Tid}
    (hne : t ≠ s.currentThread) (hnext : next ≠ s.currentThread)
    (hq : s.readyQueue = next :: rest) :
    joinBlock s t slot retval = ((s.joinAt t slot retval).dispatch next rest, none) := by
  unfold joinBlock
  by_cases hhead : s.headRefs slot = t
  · simp only [hhead, if_true]
    rw [threadSchedulerPickNext_cons (by exact hq)]
    by_cases hnt : next = t
    · subst next
      simp [swapThread, State.picked, State.setState, State.emit, State.modifyThread,
        State.setPoint, State.joinAt, State.dispatch, State.self, State.running, hne.symm,
        hhead, Function.update_comm hne]
    · simp [swapThread, State.picked, State.setState, State.emit, State.modifyThread,
        State.setPoint, State.joinAt, State.dispatch, State.self, State.running, hne.symm,
        hhead, hnext, hnext.symm, hnt, Function.update_comm hnext]
  · simp only [hhead, if_false]
    rw [threadSchedulerPickNext_cons (by exact hq)]
    by_cases hnt : next = t
    · subst next
      simp [swapThread, State.picked, State.setState, State.emit, State.modifyThread,
        State.setPoint, State.joinAt, State.dispatch, State.self, State.running, hne.symm,
        hhead, Function.update_comm hne]
    · simp [swapThread, State.picked, State.setState, State.emit, State.modifyThread,
        State.setPoint, State.joinAt, State.dispatch, State.self, State.running, hne.symm,
        hhead, hnext, hnext.symm, hnt, Function.update_comm hnext]

omit h hrun huser in
/-- With no thread ready the caller gives up, and `joined_by` stays written. -/
theorem joinBlock_nil {slot : SlotRef} {retval : Bool} (hne : t ≠ s.currentThread)
    (hq : s.readyQueue = []) :
    (joinBlock s t slot retval).2 = some edeadlk ∧
      ((joinBlock s t slot retval).1.threads t).joinedBy = some s.currentThread := by
  unfold joinBlock
  by_cases hhead : s.headRefs slot = t
  · simp only [hhead, if_true]
    rw [threadSchedulerPickNext_nil (by exact hq)]
    simp [State.setState, State.emit, State.modifyThread, State.setErrno, hne]
  · simp only [hhead, if_false]
    rw [threadSchedulerPickNext_nil (by exact hq)]
    simp [State.setState, State.emit, State.modifyThread, State.setErrno, hne]

/-- The caller blocks on its target, and the thread picked next takes over. -/
theorem joinBlock_served {slot own : SlotRef} {retval : Bool} {e : Env}
    (hi : i = .call (.threadJoin (some t) retval) e) (ht : t ∈ s.handles)
    (hne : t ≠ s.currentThread) (hlive : (s.threads t).state ≠ .terminated)
    (hfree : (s.threads t).joinedBy = none) (hslot : (s.threads t).headJoiner = some slot)
    (hown : s.running.headJoiner = some own) (hchain : ¬ (s.headRefs slot = t ∧ own = slot))
    (hready : s.readyQueue ≠ []) : Served i s (joinBlock s t slot retval) := by
  obtain ⟨next, rest, hq⟩ := List.exists_cons_of_ne_nil hready
  obtain ⟨-, hnext⟩ := h.ready_head hrun hq
  have hact : Act i s (s.joinAt t slot retval) :=
    .join t slot own retval e hi hrun huser ht hne hlive hfree hslot hown hchain hready
  have hdispatch := Moves.dispatch (i := i) (s := s.joinAt t slot retval)
    (by simp [State.joinAt, State.running]) hq
  rw [joinBlock_eq hne hnext hq]
  exact .switch (.of_act hact hdispatch) (State.dispatch_running _ _ _)

theorem threadJoin_completed {target : Option Tid} {retval : Bool} {e : Env}
    (hi : i = .call (.threadJoin target retval) e) (hvalid : ValidHandle s i)
    (hready : ¬ EmptyExit s i) (c : Call) :
    Completed i s (finish c (threadJoin s target retval)) := by
  have hold := settled_of_user huser
  unfold threadJoin
  split
  next => exact (Served.refuse hrun hold _ _).completed c
  next t =>
    have ht : t ∈ s.handles := hvalid t (by rw [hi]; rfl)
    split
    next => exact (Served.refuse hrun hold _ _).completed c
    next hfree =>
      split
      next => exact (Served.refuse hrun hold _ _).completed c
      next hne =>
        have hfree : (s.threads t).joinedBy = none := by simpa using hfree
        split
        next hdead => exact joinTerminated_completed h hrun huser ht hdead hfree retval c
        next hlive =>
          split
          next slot own hslot hown =>
            split
            next => exact (Served.refuse hrun hold _ _).completed c
            next hchain =>
              have hnonempty : s.readyQueue ≠ [] := by
                intro hq
                have hallow : slotsAllow s t = true := by
                  simp only [slotsAllow, hslot, State.running, hown]
                  simpa [Classical.or_iff_not_imp_left] using hchain
                exact hready ⟨t, by rw [hi]; rfl, ⟨hfree, hne, hlive, hallow⟩, hq⟩
              exact (joinBlock_served h hrun huser hi ht hne hlive hfree hslot hown hchain
                hnonempty).completed c
          next => exact (Served.refuse hrun hold _ _).completed c

end Join

end UserThreads
