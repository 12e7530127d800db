import UserThreads.Operations.Creation

/-!
# The invariant between the pieces

The library invariant in calm runs of the preemptive build. In each of their states
it holds, or a state in which it holds differs only in what the running thread owes.
-/

namespace UserThreads

open Transition

/-- Every piece, executed where its thread may stand, keeps the invariant. -/
theorem Standing.outcome {b : Build} {keeps : Prop} {s : State} {p : Piece} {rest : List Stmt}
    (h : Standing b keeps s (.piece p :: rest)) (hrun : s.running.state = .running) {e : Env}
    (hfresh : e.Fresh s) (hproper : p.Proper) (hpromised : p.Promised s)
    (hkeep : p.yields = true → keptRunning b.policy s ≠ none → keeps) :
    Outcome b keeps s p rest (p.perform b s e) := by
  cases h with
  | kept hkeeps inv code => exact outcome_requeue hrun inv code
  | alloc inv init user code => exact outcome_createAlloc inv hrun init user hfresh code
  | fill holds code => exact outcome_createFill holds hrun code
  | slot holds filled code => exact outcome_createSlot holds filled hrun code
  | publish prepared code => exact outcome_createPublish prepared hrun code
  | plain inv code =>
      cases p with
      | start => exact outcome_start inv hrun code
      | yield k => exact outcome_yield inv hrun (hkeep rfl) code
      | yieldTo t k => exact outcome_yieldTo inv hrun (hpromised.1 t rfl) code
      | setPriority t prio k => exact outcome_setPriority inv hrun (hpromised.1 t rfl) code
      | createInit newthread func => exact outcome_createInit inv hrun code
      | createReclaim n => exact outcome_createReclaim inv hrun code
      | createStack n r => exact outcome_createStack inv hrun hfresh code
      | createRetry n r => exact outcome_createRetry inv hrun code
      | exit retval => exact outcome_exit inv hrun code
      | fault => exact outcome_fault inv hrun code
      | joinCheck t retval => exact outcome_joinCheck inv hrun code
      | join t retval => exact outcome_join inv hrun hpromised code
      | joinClaim t retval => exact outcome_joinClaim inv hrun code
      | condWait c m => exact outcome_condWait inv hrun code
      | condRelock c m code' => exact outcome_condRelock inv hrun code
      | sigwait set => exact outcome_sigwait inv hrun code
      | assign q v => exact outcome_assign inv hrun code
      | tailqInit q => exact outcome_tailqInit inv hrun code
      | tailqEmpty c q v => exact outcome_tailqEmpty inv hrun code
      | critical c => exact outcome_critical inv hrun hproper hpromised hfresh code
      | direct c => exact outcome_direct inv hrun hproper code
      | requeue next => exact code.1.elim
      | createAlloc => exact code.1.elim
      | createFill n entry => exact code.1.elim
      | createSlot n entry => exact code.1.elim
      | createPublish n => exact code.1.elim

/-- `s₀` satisfies the invariant and differs from `s` only in what the running
thread owes: the memory of a thread that does not exist yet, and the place of one
that a yield has taken out of the queue. -/
structure Settles (keeps : Prop) (s s₀ : State) : Prop where
  inv : Inv s₀
  handles : s₀.handles = s.handles
  points : ∀ t ∈ s.handles, (s₀.threads t).point = (s.threads t).point
  joinedBy : ∀ t ∈ s.handles, (s₀.threads t).joinedBy = (s.threads t).joinedBy
  waiting : s₀.waitingQueue = s.waitingQueue
  zombies : s₀.zombieQueue = s.zombieQueue
  ready : s.readyQueue.Sublist s₀.readyQueue
  queue : ¬ keeps → s₀.readyQueue = s.readyQueue ∧ ∀ t ∈ s.handles, s₀.threads t = s.threads t

section Settles

variable {b : Build} {keeps : Prop} {s s₀ : State}

theorem Settles.of_threads (hinv : Inv s₀) (hschedule : s₀.schedule = s.schedule)
    (hthreads : ∀ t ∈ s.handles, s₀.threads t = s.threads t) : Settles keeps s s₀ := by
  unfold State.schedule at hschedule
  simp only [Prod.mk.injEq] at hschedule
  obtain ⟨-, hqueue, hhandles, -, hwaiting, hzombies⟩ := hschedule
  exact
    { inv := hinv
      handles := hhandles
      points := fun t ht => by rw [hthreads t ht]
      joinedBy := fun t ht => by rw [hthreads t ht]
      waiting := hwaiting
      zombies := hzombies
      ready := hqueue ▸ List.Sublist.refl _
      queue := fun _ => ⟨hqueue, hthreads⟩ }

/-- Enqueuing a thread leaves the other queues alone. -/
theorem enqueue_queues (p : Policy) (s : State) (t : Tid) :
    (threadSchedulerEnqueue p s t).waitingQueue = s.waitingQueue ∧
      (threadSchedulerEnqueue p s t).zombieQueue = s.zombieQueue ∧
      s.readyQueue.Sublist (threadSchedulerEnqueue p s t).readyQueue := by
  unfold threadSchedulerEnqueue
  split
  · exact ⟨rfl, rfl, List.Sublist.refl _⟩
  · refine ⟨rfl, rfl, ?_⟩
    cases p with
    | fifo => exact List.sublist_append_left _ _
    | prio => exact sublist_insertByPriority

theorem Settles.of_kept {next : Tid} (hkeeps : keeps)
    (hinv : Inv (threadSchedulerEnqueue b.policy s next)) :
    Settles keeps s (threadSchedulerEnqueue b.policy s next) := by
  obtain ⟨hwaiting, hzombies, hready⟩ := enqueue_queues b.policy s next
  exact
    { inv := hinv
      handles := congrArg (·.2.2) (outline_enqueue next)
      points := fun t _ => congrFun (congrArg Prod.fst (outline_enqueue next)) t
      joinedBy := fun t _ => enqueue_joinedBy b.policy s next t
      waiting := hwaiting
      zombies := hzombies
      ready := hready
      queue := fun hnot => absurd hkeeps hnot }

theorem HoldsStack.settles {s₁ : State} {n : Tid} {entry : StackEntry} (h : HoldsStack s₁ n entry)
    (hschedule : s.schedule = s₁.schedule) (hthreads : ∀ t, t ≠ n → s.threads t = s₁.threads t) :
    Settles keeps s { s₁ with stackPool := entry :: s₁.stackPool } := by
  refine .of_threads h.inv hschedule.symm fun t ht => (hthreads t ?_).symm
  have hhandles : s.handles = s₁.handles := congrArg (·.2.2.1) hschedule
  rintro rfl
  exact h.fresh.1 (hhandles ▸ ht)

theorem Prepared.settles {n : Tid} (h : Prepared s n) : ∃ s₀, Settles keeps s s₀ := by
  obtain ⟨s₁, entry, e, holds, hschedule, hthreads, -⟩ := h.spec
  exact ⟨_, holds.settles hschedule hthreads⟩

theorem Standing.settles {l : List Stmt} (h : Standing b keeps s l) :
    ∃ s₀, Settles keeps s s₀ := by
  cases h with
  | plain inv code => exact ⟨s, .of_threads inv rfl fun _ _ => rfl⟩
  | keptMasked hkeeps inv code => exact ⟨_, .of_kept hkeeps inv⟩
  | kept hkeeps inv code => exact ⟨_, .of_kept hkeeps inv⟩
  | alloc inv init user code => exact ⟨s, .of_threads inv rfl fun _ _ => rfl⟩
  | fill holds code => exact ⟨_, holds.settles rfl fun _ _ => rfl⟩
  | slot holds filled code =>
      subst filled
      exact ⟨_, holds.settles rfl fun t ht => Function.update_of_ne ht _ _⟩
  | publishMask prepared code => exact prepared.settles
  | publish prepared code => exact prepared.settles

end Settles

/-- The return from the handler puts the thread back where it was interrupted. -/
theorem Inv.sigreturn {s : State} {k : Point} (h : Inv s) (hrun : s.running.state = .running)
    (hk : s.running.point = k ∨ s.running.point = k.suspended) :
    Inv (s.setPoint s.currentThread k) := by
  have hstay : s.running.point = k → s.setPoint s.currentThread k = s := by
    rintro rfl
    unfold State.setPoint State.modifyThread State.running
    rw [Function.update_eq_self]
  rcases hk with hk | hk
  · rw [hstay hk]
    exact h
  · cases k with
    | user =>
        refine h.move (i := .resume .plain) (.toUser hrun ?_)
        rw [hk]
        exact ⟨rfl, rfl⟩
    | _ =>
        rw [hstay hk]
        exact h

/-- A thread that changes its point goes on running, and the others stay. -/
theorem setPoint_frame (s : State) (k : Point) :
    (s.setPoint s.currentThread k).running.state = s.running.state ∧
      (s.setPoint s.currentThread k).running.point = k ∧
      ∀ t, t ≠ s.currentThread → (s.setPoint s.currentThread k).points t = s.points t := by
  refine ⟨?_, ?_, fun t ht => ?_⟩
  · simp [State.setPoint, State.modifyThread, State.running]
  · simp [State.setPoint, State.modifyThread, State.running]
  · simp [State.setPoint, State.modifyThread, State.points, ht]

namespace Steady

open Preemptive

variable {b : Build} {keeps : Prop} {x x' : Preemptive} {i : Stimulus}

theorem runPiece (h : Steady b keeps x) {p : Piece} {e : Env} {rest : List Stmt}
    (ho : Outcome b keeps x.lib p rest (p.perform b x.lib e)) :
    Steady b keeps (x.runPiece b p e rest) := by
  have hlib : (x.runPiece b p e rest).lib = (p.perform b x.lib e).1 := rfl
  -- The threads other than the one that executed the piece stand as before.
  have hother : ∀ t ∈ (p.perform b x.lib e).1.handles, t ≠ x.lib.currentThread →
      CodeOk t ((p.perform b x.lib e).1.points t) ((x.runPiece b p e rest).code t) := by
    intro t ht hne
    rcases runPiece_other (b := b) (x := x) p e rest hne with ⟨hold, heq⟩ | ⟨hnew, heq⟩
    · obtain ⟨hmem, hpoint⟩ := ho.others t ht hne hold
      rw [heq, hpoint]
      exact h.others t hmem hne
    · rw [heq, ho.started t hnew]
      exact codeOk_threadEntry t
  refine ⟨ho.runs, ?_, fun t ht hne => ?_⟩
  · by_cases hcurrent : (p.perform b x.lib e).1.currentThread = x.lib.currentThread
    · have hcode : (x.runPiece b p e rest).running = (p.perform b x.lib e).2 ++ rest := by
        rw [Preemptive.running, hlib, hcurrent, runPiece_running]
      rw [hlib, hcode]
      rcases ho.own with ⟨hinv, hown⟩ | ⟨-, hstanding⟩
      · rw [← hcurrent] at hown
        exact .plain hinv hown
      · exact hstanding
    · rcases ho.own with ⟨hinv, -⟩ | ⟨hsame, -⟩
      · exact .plain hinv (hother _ hinv.sched.current_mem hcurrent)
      · exact absurd hsame hcurrent
  · by_cases hself : t = x.lib.currentThread
    · rcases ho.own with ⟨-, hown⟩ | ⟨hsame, -⟩
      · rw [hself, runPiece_running]
        exact hown
      · exact absurd (hself.trans hsame.symm) hne
    · exact hother t ht hself

/-- The running thread goes on with other code, and stays the running one. -/
theorem goOn (h : Steady b keeps x) {blocked : Bool} {l : List Stmt} {s : State}
    (hrun : s.running.state = .running) (hcurrent : s.currentThread = x.lib.currentThread)
    (hhandles : s.handles = x.lib.handles)
    (hpoints : ∀ t, t ≠ x.lib.currentThread → s.points t = x.lib.points t)
    (hl : Standing b keeps s l) :
    Steady b keeps { x.goOn l with blocked := blocked, lib := s } where
  runs := Or.inr hrun
  running := by
    have hcode : ({ x.goOn l with blocked := blocked, lib := s } : Preemptive).running = l := by
      simp [Preemptive.running, Preemptive.goOn, hcurrent]
    rw [hcode]
    exact hl
  others := by
    intro t ht hne
    have hne' : t ≠ x.lib.currentThread := hcurrent ▸ hne
    have hold := h.others t (hhandles ▸ ht) hne'
    have hcode :
        ({ x.goOn l with blocked := blocked, lib := s } : Preemptive).code t = x.code t := by
      simp [Preemptive.goOn, hne']
    rw [hcode]
    exact (hpoints t hne').symm ▸ hold

theorem advance (h : Steady b keeps x) (hmask : MaskInv x) (hended : x.lib.ended = false)
    (hg : x.Calm i) (hkeep : x.KeepsOnly b keeps i) (ha : x.Advance b i x') :
    Steady b keeps x' := by
  have hrun : x.lib.running.state = .running := by
    rcases h.runs with htrue | hrun
    · rw [hended] at htrue
      cases htrue
    · exact hrun
  have hstanding := h.running
  -- A step that leaves the library alone.
  have hlib : ∀ {blocked : Bool} {l : List Stmt}, Standing b keeps x.lib l →
      Steady b keeps { x.goOn l with blocked := blocked } :=
    fun hl => h.goOn hrun rfl rfl (fun _ _ => rfl) hl
  cases ha with
  | call c hcode =>
      rw [hcode] at hstanding
      cases hstanding with
      | plain inv code =>
          have huser : x.lib.running.point = .user := code
          refine hlib (.plain inv ?_)
          rw [huser]
          exact c.code_codeOk x.lib.currentThread
  | tick hunmasked hinit =>
      have hexposed : exposed x.running = false := hg
      have hblocked := hmask.running
      rw [hunmasked] at hblocked
      refine hlib ?_
      generalize x.running = l at hstanding hexposed hblocked
      cases hstanding with
      | plain inv code => exact .plain inv (codeOk_preemptionHandler code)
      | keptMasked hkeeps inv code => cases hblocked.1
      | publish prepared code => cases hblocked.1
      | _ => cases hexposed
  | block e rest hcode =>
      rw [hcode] at hstanding
      refine hlib ?_
      cases hstanding with
      | plain inv code => exact .plain inv code
      | publishMask prepared code => exact .publish prepared code
  | unblock e rest hcode =>
      rw [hcode] at hstanding
      refine hlib ?_
      cases hstanding with
      | plain inv code => exact .plain inv code
      | keptMasked hkeeps inv code => exact .kept hkeeps inv code
  | sigreturn e k rest hcode =>
      rw [hcode] at hstanding
      cases hstanding with
      | plain inv code =>
          obtain ⟨hk, hrest⟩ := code
          obtain ⟨hstate, hpoint, hothers⟩ := setPoint_frame x.lib k
          refine h.goOn (hstate.trans hrun) rfl rfl hothers (.plain (inv.sigreturn hrun hk) ?_)
          rw [hpoint]
          exact hrest
  | ret e c code rest hcode =>
      rw [hcode] at hstanding
      cases hstanding with
      | plain inv code' =>
          obtain ⟨hsettled, hrest⟩ := code'
          have hback := Finishes.toUser (i := .resume .plain) hrun hsettled c code
          obtain ⟨-, hpoint, hothers⟩ :=
            setPoint_frame (x.lib.emit (.returned x.lib.self c code)) .user
          have huser : (finish c (x.lib, some code)).running.point = .user := hpoint
          refine h.goOn hback.runs rfl rfl hothers (.plain (inv.moves hback.moves) ?_)
          rw [huser]
          exact hrest
  | piece e p rest hfresh hcode =>
      have hproper := hmask.running
      rw [hcode] at hstanding hproper
      exact h.runPiece (hstanding.outcome hrun hfresh hproper.2.1 (hg p (nextPiece_eq hcode))
        (hkeep p (nextPiece_eq hcode)))

theorem of_reach {guard : Preemptive → Stimulus → Prop}
    (hguard : ∀ x i, guard x i → x.Calm i ∧ x.KeepsOnly b keeps i)
    (h : Reach (Preemptive.step b) guard initial x) :
    Steady b keeps x := by
  refine h.invariant (steady_initial b keeps) fun hreach hsteady hg hs => ?_
  obtain ⟨hended, ha⟩ := advance_of_step hs
  obtain ⟨hcalm, hkeep⟩ := hguard _ _ hg
  exact hsteady.advance (maskInv_of_reach hreach) hended hcalm hkeep ha

end Steady

end UserThreads
