import UserThreads.Model.Fault
import UserThreads.Laws.Join

/-!
# Containment of stack overflows

The first fault in a guard page ends the faulting thread only, as the handler
promises. The mask that the kernel set up for the handler stays behind, so the
second fault of a run, in whatever thread, kills the process.
-/

namespace UserThreads

open Transition

/-- From `s` to `s'` the running thread has been terminated for a stack
overflow, no other thread has, and the process goes on with a thread that was
ready, or waited for the running one, whenever there is such a thread. -/
structure FaultContained (s s' : State) : Prop where
  terminated : (s'.threads s.currentThread).state = .terminated
  flagged : (s'.threads s.currentThread).stackOverflow = true
  only : ∀ t, t ≠ s.currentThread → (s.threads t).state ≠ .terminated →
    (s'.threads t).state ≠ .terminated
  goes_on : (∃ t ∈ s.handles, (s.threads t).state = .ready ∨ s.running.joinedBy = some t) →
    s'.ended = false ∧ s'.running.state = .running ∧ s'.currentThread ≠ s.currentThread ∧
      ((s.threads s'.currentThread).state = .ready ∨ s.running.joinedBy = some s'.currentThread)

namespace Process

/-- Some thread runs its own code. -/
def RunsUser (x : Process) : Prop :=
  x.killed = false ∧ x.lib.ended = false ∧ x.lib.running.point = .user

instance (x : Process) : Decidable x.RunsUser :=
  inferInstanceAs (Decidable (_ ∧ _ ∧ _))

/-- `SIGSEGV` can be delivered, and a fault of the running thread, if it is not
the main thread, is contained. -/
def ContainsFaults (b : Build) (x : Process) : Prop :=
  x.segvBlocked = false ∧ (x.lib.currentThread ≠ mainThread → ∀ e : Env, e.Fresh x.lib →
    ∃ x', x.step b (.call .guardPageFault e) = some x' ∧ x'.killed = false ∧
      FaultContained x.lib x'.lib)

/-- The steps of a run that uses valid handles, without a join that gives up
after it has registered itself. -/
def Regular (x : Process) (i : Input) : Prop := UserThreads.Regular x.lib i

instance (x : Process) (i : Input) : Decidable (x.Regular i) :=
  inferInstanceAs (Decidable (UserThreads.Regular x.lib i))

end Process

section Exit

variable {s : State}

/-- The states, flags and the ready queue when `thread_exit` looks for the next
thread: the caller is terminated, and its joiner is ready. -/
structure Exited (s s' : State) : Prop where
  current : s'.currentThread = s.currentThread
  ended : s'.ended = s.ended
  state : ∀ t, (s'.threads t).state = if t = s.currentThread then .terminated
    else if s.running.joinedBy = some t then .ready else (s.threads t).state
  overflow : ∀ t, (s'.threads t).stackOverflow = (s.threads t).stackOverflow
  queue : ∀ t, t ∈ s'.readyQueue ↔ t ∈ s.readyQueue ∨ s.running.joinedBy = some t

/-- What the wake-up in `thread_exit` reads of the state it finds. -/
theorem exitZombie_terminate (s : State) (v : Value) :
    ∃ r, exitZombie (s.terminate v) s.currentThread = r ∧ r.currentThread = s.currentThread ∧
      r.ended = s.ended ∧ r.readyQueue = s.readyQueue ∧
      ((r.threads s.currentThread).state = .terminated ∧
        (r.threads s.currentThread).joinedBy = s.running.joinedBy ∧
        (r.threads s.currentThread).stackOverflow = s.running.stackOverflow) ∧
      ∀ t, t ≠ s.currentThread → r.threads t = s.threads t := by
  obtain ⟨map, base, flag, deferred, zombies, heq⟩ :=
    exitZombie_frame (s.terminate v) s.currentThread
  refine ⟨_, heq, rfl, rfl, rfl, ?_, fun t ht => ?_⟩
  · simp [State.terminate]
  · simp [State.terminate, ht]

variable (h : Inv s) (hrun : s.running.state = .running)
include h hrun

theorem exited_exitWake (p : Policy) (v : Value) :
    Exited s (exitWake p (exitZombie (s.terminate v) s.currentThread) s.currentThread) := by
  obtain ⟨r, hr, hcurrent, hended, hqueue, ⟨hdead, hjoined, hover⟩, hother⟩ :=
    exitZombie_terminate s v
  rw [hr]
  have hoverflow : ∀ t, (r.threads t).stackOverflow = (s.threads t).stackOverflow := by
    intro t
    by_cases ht : t = s.currentThread
    · rw [ht]
      exact hover
    · rw [hother t ht]
  cases hj : s.running.joinedBy with
  | none =>
      rw [hj] at hjoined
      simp only [exitWake, hjoined]
      refine ⟨hcurrent, hended, fun t => ?_, hoverflow, fun t => ?_⟩
      · by_cases ht : t = s.currentThread
        · rw [if_pos ht, ht, hdead]
        · rw [if_neg ht, if_neg (by simp [hj]), hother t ht]
      · simp [hqueue, hj]
  | some j =>
      obtain ⟨hmem, hblocked, hne⟩ := h.joiner_blocked hrun hj
      rw [hj] at hjoined
      have hout : ((r.setState j .ready (some (.threadExit s.currentThread))).threads
          j).inReadyQueue = false := by
        simpa [State.setState, State.emit, State.modifyThread, hother j hne] using
          h.flag_false hmem (by simp [hblocked])
      obtain ⟨rq, hperm, heq⟩ := threadSchedulerEnqueue_eq p hout
      simp only [exitWake, hjoined, heq]
      refine ⟨hcurrent, hended, fun t => ?_, fun t => ?_, fun t => ?_⟩
      · by_cases ht : t = s.currentThread
        · subst t
          simp [State.setState, State.emit, State.modifyThread, hne.symm, hdead]
        · by_cases htj : t = j
          · subst t
            simp [State.setState, State.emit, State.modifyThread, ht, hj]
          · simp [State.setState, State.emit, State.modifyThread, ht, hj, htj, Ne.symm htj,
              hother t ht]
      · rw [← hoverflow t]
        by_cases htj : t = j
        · subst t
          simp [State.setState, State.emit, State.modifyThread]
        · simp [State.setState, State.emit, State.modifyThread, htj]
      · rw [hperm.mem_iff, hj]
        simp [State.setState, State.emit, State.modifyThread, hqueue, or_comm, eq_comm]

omit h hrun in
theorem threadExit_nil {p : Policy} {v : Value} {r : State}
    (hr : exitWake p (exitZombie (s.terminate v) s.currentThread) s.currentThread = r)
    (hq : r.readyQueue = []) : threadExit p s v = { r with ended := true } := by
  simp only [threadExit, terminate_eq, hr, threadSchedulerPickNext_nil hq]

omit h hrun in
theorem threadExit_cons {p : Policy} {v : Value} {r : State} {next : Tid} {rest : List Tid}
    (hr : exitWake p (exitZombie (s.terminate v) s.currentThread) s.currentThread = r)
    (hq : r.readyQueue = next :: rest) : threadExit p s v = r.dispatch next rest := by
  simp only [threadExit, terminate_eq, hr, threadSchedulerPickNext_cons hq]
  simp [State.picked, State.setState, State.emit, State.modifyThread, State.dispatch]

/-- `thread_exit` terminates its caller only, and goes on when it can. -/
theorem threadExit_contained (hended : s.ended = false) (hflag : s.running.stackOverflow = true)
    (p : Policy) (v : Value) : FaultContained s (threadExit p s v) := by
  have hexited := exited_exitWake h hrun p v
  generalize hr : exitWake p (exitZombie (s.terminate v) s.currentThread) s.currentThread = r
    at hexited
  have hdead : (r.threads s.currentThread).state = .terminated := by
    rw [hexited.state, if_pos rfl]
  have hover : (r.threads s.currentThread).stackOverflow = true :=
    (hexited.overflow s.currentThread).trans hflag
  have hlive : ∀ t, t ≠ s.currentThread → (s.threads t).state ≠ .terminated →
      (r.threads t).state ≠ .terminated := by
    intro t ht hne
    rw [hexited.state, if_neg ht]
    split
    · simp
    · exact hne
  have hready : ∀ t, t ∈ r.readyQueue → t ≠ s.currentThread ∧
      ((s.threads t).state = .ready ∨ s.running.joinedBy = some t) := by
    intro t ht
    rcases (hexited.queue t).mp ht with hmem | hj
    · obtain ⟨-, hstate⟩ := (h.sched.ready.mem_iff t).mp hmem
      refine ⟨?_, Or.inl hstate⟩
      rintro rfl
      rw [State.running, hstate] at hrun
      cases hrun
    · exact ⟨(h.joiner_blocked hrun hj).2.2, Or.inr hj⟩
  by_cases hq : r.readyQueue = []
  · rw [threadExit_nil hr hq]
    refine ⟨hdead, hover, hlive, ?_⟩
    rintro ⟨t, ht, hcan⟩
    have hmem : t ∈ r.readyQueue :=
      (hexited.queue t).mpr (hcan.imp_left fun hstate => (h.sched.ready.mem_iff t).mpr ⟨ht, hstate⟩)
    rw [hq] at hmem
    cases hmem
  · obtain ⟨next, rest, hq⟩ := List.exists_cons_of_ne_nil hq
    obtain ⟨hne, hcan⟩ := hready next (by rw [hq]; exact List.mem_cons_self)
    rw [threadExit_cons hr hq]
    refine ⟨?_, ?_, fun t ht hstate => ?_, fun _ => ⟨?_, ?_, hne, hcan⟩⟩
    · simpa [State.dispatch, hne.symm] using hdead
    · simpa [State.dispatch, hne.symm] using hover
    · by_cases htn : t = next
      · simp [State.dispatch, htn]
      · simpa [State.dispatch, htn] using hlive t ht hstate
    · exact hexited.ended.trans hended
    · exact State.dispatch_running r next rest

/-- The handler, for a thread that has a guard page. -/
theorem sigsegvHandler_contained (hended : s.ended = false) (hstack : s.running.stackMap ≠ none)
    (p : Policy) : FaultContained s (sigsegvHandler p s) := by
  have hhandler : sigsegvHandler p s = threadExit p
      (s.modifyThread s.currentThread fun th => { th with stackOverflow := true }) 0 :=
    if_neg hstack
  have hmarked : Inv (s.modifyThread s.currentThread fun th => { th with stackOverflow := true }) :=
    h.move (i := .resume .plain) (.overflow hrun)
  have hsame : (s.modifyThread s.currentThread fun th =>
      { th with stackOverflow := true }).running = { s.running with stackOverflow := true } := by
    simp [State.running, State.modifyThread]
  have hstate : ∀ t, ((s.modifyThread s.currentThread fun th =>
      { th with stackOverflow := true }).threads t).state = (s.threads t).state := by
    intro t
    refine proj_update Thread.state ?_ t
    rfl
  have hcurrent : (s.modifyThread s.currentThread fun th =>
      { th with stackOverflow := true }).currentThread = s.currentThread := rfl
  have hhandles : (s.modifyThread s.currentThread fun th =>
      { th with stackOverflow := true }).handles = s.handles := rfl
  have hcontained := threadExit_contained hmarked (by rw [hsame, ← hrun]) hended
    (by rw [hsame]) p 0
  rw [hhandler]
  generalize (s.modifyThread s.currentThread fun th => { th with stackOverflow := true }) = r
    at *
  obtain ⟨hdead, hflagged, honly, hgoes⟩ := hcontained
  simp only [hcurrent, hstate, hsame, hhandles] at hdead hflagged honly hgoes
  exact ⟨hdead, hflagged, honly, hgoes⟩

end Exit

namespace Process

variable {b : Build} {x x' : Process} {inputs : List Input}

/-- A step of the process is one of the library, unless it is the last. -/
theorem step_cases {i : Input} (h : x.step b i = some x') :
    x.killed = false ∧ ∃ s, UserThreads.step b x.lib i = some s ∧
      (x'.killed = true ∧ x'.lib = x.lib ∨
        x'.killed = false ∧ x'.lib = s ∧ x'.segvBlocked = (x.segvBlocked || i.isFault)) := by
  unfold Process.step at h
  by_cases hkilled : x.killed = true
  · rw [if_pos hkilled] at h
    cases h
  · rw [if_neg hkilled] at h
    refine ⟨Bool.of_not_eq_true hkilled, ?_⟩
    by_cases hblocked : i.isFault = true ∧ x.segvBlocked = true
    · rw [if_pos hblocked] at h
      obtain ⟨s, hs, rfl⟩ := Option.map_eq_some_iff.mp h
      exact ⟨s, hs, Or.inl ⟨rfl, rfl⟩⟩
    · rw [if_neg hblocked] at h
      obtain ⟨s, hs, rfl⟩ := Option.map_eq_some_iff.mp h
      exact ⟨s, hs, Or.inr ⟨Bool.of_not_eq_true hkilled, rfl, rfl⟩⟩

/-- The library of the process takes regular steps, and `SIGSEGV` is blocked
as soon as there has been a fault. -/
theorem run_spec {x₀ : Process} (h : run (Process.step b) Regular x₀ inputs = some x)
    (hreach : RegularReach b x₀.lib) (hlive : x.killed = false) :
    RegularReach b x.lib ∧ x.segvBlocked = (x₀.segvBlocked || inputs.any Input.isFault) := by
  induction inputs generalizing x₀ with
  | nil =>
      obtain rfl : x₀ = x := by simpa [run] using h
      simp [hreach]
  | cons i rest ih =>
      simp only [run] at h
      split at h
      next hg =>
        obtain ⟨x₁, hstep, hrest⟩ := Option.bind_eq_some_iff.mp h
        obtain ⟨-, s, hs, ⟨hkilled, -⟩ | ⟨-, hlib, hblocked⟩⟩ := step_cases hstep
        · exfalso
          cases rest with
          | nil =>
              obtain rfl : x₁ = x := by simpa [run] using hrest
              rw [hkilled] at hlive
              cases hlive
          | cons i' rest' =>
              simp [run, Process.step, hkilled] at hrest
        · have hnext : RegularReach b x₁.lib := by
            rw [hlib]
            exact hreach.tail hg hs
          obtain ⟨hend, hmask⟩ := ih hrest hnext
          refine ⟨hend, ?_⟩
          rw [hmask, hblocked, List.any_cons, Bool.or_assoc]
      next => cases h

/-- With `SIGSEGV` unblocked, a fault of a thread in its own code is contained. -/
theorem contained_of_unblocked (hdetect : b.overflowDetection = true)
    (hreach : RegularReach b x.lib) (huser : x.RunsUser) (hmask : x.segvBlocked = false)
    (hmain : x.lib.currentThread ≠ mainThread) {e : Env} (hfresh : e.Fresh x.lib) :
    ∃ x', x.step b (.call .guardPageFault e) = some x' ∧ x'.killed = false ∧
      FaultContained x.lib x'.lib := by
  obtain ⟨hlive, hended, hpoint⟩ := huser
  have hrun := hreach.sound.runs hended
  have houtcome : x.lib.running.outcome = none := by
    simp [Thread.outcome, hrun]
  have hstack : x.lib.running.stackMap ≠ none :=
    (exitInv_of_reach hreach).stacked _ hreach.sound.inv.sched.current_mem hmain houtcome
  have hlib : UserThreads.step b x.lib (.call .guardPageFault e) =
      some (sigsegvHandler b.policy x.lib) := by
    have hcall : (x.lib.threads x.lib.currentThread).point = .user ∧ e.Fresh x.lib :=
      ⟨hpoint, hfresh⟩
    simp [UserThreads.step, hended, hcall, enter, hdetect, finish]
  refine ⟨{ x with lib := sigsegvHandler b.policy x.lib, segvBlocked := true }, ?_, hlive, ?_⟩
  · simp [Process.step, hlive, hmask, hlib, Input.isFault]
  · exact sigsegvHandler_contained hreach.sound.inv hrun hended hstack b.policy

/-- In every regular run, faults are contained while user code runs exactly if
there has been no fault before. -/
theorem containsFaults_iff_of_run (hdetect : b.overflowDetection = true)
    (h : run (Process.step b) Regular Process.initial inputs = some x) (huser : x.RunsUser) :
    x.ContainsFaults b ↔ ∀ i ∈ inputs, i.isFault = false := by
  obtain ⟨hreach, hmask⟩ := run_spec h .refl huser.1
  have hfaults : x.segvBlocked = false ↔ ∀ i ∈ inputs, i.isFault = false := by
    rw [hmask]
    simp [Process.initial]
  constructor
  · intro hcontains
    exact hfaults.mp hcontains.1
  · intro hnone
    have hunblocked := hfaults.mpr hnone
    refine ⟨hunblocked, fun hmain e hfresh => ?_⟩
    exact contained_of_unblocked hdetect hreach huser hunblocked hmain hfresh

/-- The build that detects stack overflows. -/
def detecting : Build := { policy := .fifo, guardPage := true, overflowDetection := true }

/-- A thread other than the main thread runs, and no fault has happened. -/
theorem containsFaults_iff_of_run_script : ∃ x, run (Process.step detecting) Regular Process.initial
    [.create 1, .plain .threadYield, .go] = some x ∧ x.RunsUser ∧
      x.lib.currentThread = 1 ∧ x.ContainsFaults detecting := by
  have hrun : ((run (Process.step detecting) Regular Process.initial
      [.create 1, .plain .threadYield, .go]).map fun x =>
        decide (x.RunsUser ∧ x.lib.currentThread = 1)) = some true := by decide +kernel
  obtain ⟨x, hx, hend⟩ := Option.map_eq_some_iff.mp hrun
  obtain ⟨huser, hcurrent⟩ := of_decide_eq_true hend
  refine ⟨x, hx, huser, hcurrent, (containsFaults_iff_of_run rfl hx huser).mpr ?_⟩
  decide

/-- Thread 1 overflows its stack and is terminated. Thread 2 goes on with
`SIGSEGV` blocked, and its own overflow kills the process. -/
theorem not_containsFaults_of_run : ¬ ∀ (b : Build) (inputs : List Input) (x : Process),
    b.overflowDetection = true → run (Process.step b) Regular Process.initial inputs = some x →
      x.RunsUser → x.ContainsFaults b := by
  intro hall
  have hrun : ((run (Process.step detecting) Regular Process.initial
      [.create 1, .create 2, .plain .threadYield, .go, .plain .guardPageFault, .go]).map fun x =>
        decide (x.RunsUser ∧ x.lib.currentThread = 2 ∧
          (x.step detecting (.plain .guardPageFault)).map (·.killed) = some true)) =
            some true := by decide +kernel
  obtain ⟨x, hx, hend⟩ := Option.map_eq_some_iff.mp hrun
  obtain ⟨huser, hcurrent, hkilled⟩ := of_decide_eq_true hend
  obtain ⟨x', hstep, hdead⟩ := Option.map_eq_some_iff.mp hkilled
  obtain ⟨x'', hstep', hlive, -⟩ := (hall detecting _ x rfl hx huser).2 (by rw [hcurrent]; decide)
    .plain (by simp [Env.Fresh, Env.plain])
  obtain rfl := Option.some.inj (hstep.symm.trans hstep')
  rw [hdead] at hlive
  cases hlive

end Process

end UserThreads
