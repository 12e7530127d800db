import UserThreads.Operations.WritesStep
import UserThreads.Laws.Fault

/-!
# How a join reports the end of its target

A thread ends by `thread_exit`, also when its start function returns, or is
killed by a stack overflow. `thread_join` has two places that report the end:
one for a target that had terminated when the call was made, one for a caller
that blocked. Only the second looks at `stack_overflow`.
-/

namespace UserThreads

open Transition

/-- How a thread ends: the value it leaves, and whether an overflow killed it. -/
structure Ending where
  retval : Value
  overflow : Bool
  deriving DecidableEq

/-- The end that the input brings to the running thread. -/
def Input.ending : Input → Option Ending
  | .call (.threadExit v) _ => some { retval := v, overflow := false }
  | .call .guardPageFault _ => some { retval := 0, overflow := true }
  | _ => none

/-- In a regular run that reaches `s`, the thread `id` has ended as `d` says. -/
def EndedAs (b : Build) (id : Nat) (d : Ending) (s : State) : Prop :=
  ∃ u i u', RegularReach b u ∧ Regular u i ∧ u.self = id ∧ i.ending = some d ∧
    step b u i = some u' ∧ Reach (step b) Regular u' s

theorem EndedAs.reach {b : Build} {id : Nat} {d : Ending} {s : State} (h : EndedAs b id d s) :
    RegularReach b s := by
  obtain ⟨u, i, u', hreach, hg, -, -, hstep, htail⟩ := h
  exact (hreach.tail hg hstep).trans htail

/-- A run that is executed up to the end of a thread and on from there. -/
theorem exists_endedAs_of_run (b : Build) (id : Nat) (before : List Input) (i : Input)
    (after : List Input) {d : Ending} (hd : i.ending = some d) (p : State → Prop) [DecidablePred p]
    (h : ((run (step b) Regular State.initial before).bind fun u =>
      if Regular u i ∧ u.self = id then
        (step b u i).bind fun u' =>
          (run (step b) Regular u' after).map (fun s => decide (p s))
      else none) = some true) : ∃ s, EndedAs b id d s ∧ p s := by
  obtain ⟨u, hrun, hnext⟩ := Option.bind_eq_some_iff.mp h
  split at hnext
  next hu =>
    obtain ⟨u', hstep, hafter⟩ := Option.bind_eq_some_iff.mp hnext
    obtain ⟨s, htail, hp⟩ := exists_reach_of_run (step b) Regular u' after p hafter
    exact ⟨s, ⟨u, i, u', reach_of_run hrun, hu.1, hu.2, hd, hstep, htail⟩, hp⟩
  next => cases hnext

/-- What the caller of `thread_join` gets. -/
structure JoinAnswer where
  code : Int
  errno : Option Errno
  stored : Option Value
  deriving DecidableEq

/-- The answer of a `thread_join` that returns in this step after it has claimed
its target. `errno` is cleared first, so that it shows what the join writes. -/
def joinAnswer (b : Build) (s : State) (i : Input) : Option JoinAnswer :=
  (step b { s with errno := none } i).bind fun s' =>
    match s'.trace with
    | .returned _ (.threadJoin _ _) code :: .joined _ _ stored :: _ =>
        some { code := code, errno := s'.errno, stored := stored }
    | _ => none

/-! `stack_overflow` is set by the fault handler, on the thread that faulted, and
cleared when a struct is used for a new thread. No other operation writes it. -/

/-- From `s` to `s'` no thread is marked, and threads that are new in `s'` are
not, whether or not their struct was in use before. -/
structure Spares (s s' : State) : Prop where
  unset : ∀ t, (s'.threads t).stackOverflow = true → (s.threads t).stackOverflow = true
  fresh : ∀ t ∈ s'.handles, t ∉ s.handles → (s'.threads t).stackOverflow = false
  renamed : ∀ t, (s'.threads t).id ≠ (s.threads t).id → (s'.threads t).stackOverflow = false

namespace Spares

variable {i : Input} {s s₁ s' : State}

theorem frame (hthreads : s'.threads = s.threads) (hhandles : s'.handles ⊆ s.handles) :
    Spares s s' := by
  refine ⟨fun t ht => ?_, fun t ht hnew => absurd (hhandles ht) hnew, fun t hid => ?_⟩
  · rwa [hthreads] at ht
  · rw [hthreads] at hid
    exact absurd rfl hid

theorem trans (h : Spares s s₁) (h' : Spares s₁ s') : Spares s s' := by
  have hstays : ∀ t, (s₁.threads t).stackOverflow = false →
      (s'.threads t).stackOverflow = false := by
    intro t hclear
    rw [← Bool.not_eq_true]
    intro hflag
    rw [h'.unset t hflag] at hclear
    cases hclear
  refine ⟨fun t ht => h.unset t (h'.unset t ht), fun t ht hnew => ?_, fun t hid => ?_⟩
  · by_cases hmem : t ∈ s₁.handles
    · exact hstays t (h.fresh t hmem hnew)
    · exact h'.fresh t ht hmem
  · by_cases hsame : (s'.threads t).id = (s₁.threads t).id
    · rw [hsame] at hid
      exact hstays t (h.renamed t hid)
    · exact h'.renamed t hsame

/-- A struct is cleared, or given to a new thread, while it bears no mark. -/
theorem update {n : Tid} {th : Thread} (hthreads : s'.threads = Function.update s.threads n th)
    (hhandles : s'.handles ⊆ n :: s.handles) (hclear : th.stackOverflow = false) : Spares s s' := by
  have hn : (s'.threads n).stackOverflow = false := by
    rw [hthreads, Function.update_self]
    exact hclear
  have hother : ∀ t, t ≠ n → s'.threads t = s.threads t := fun t ht => by
    rw [hthreads, Function.update_of_ne ht]
  refine ⟨fun t ht => ?_, fun t ht hnew => ?_, fun t hid => ?_⟩
  · by_cases htn : t = n
    · rw [htn, hn] at ht
      cases ht
    · rwa [hother t htn] at ht
  · obtain rfl := (List.mem_cons.mp (hhandles ht)).resolve_right hnew
    exact hn
  · by_cases htn : t = n
    · rw [htn]
      exact hn
    · rw [hother t htn] at hid
      exact absurd rfl hid

theorem of_write (h : Write i s s') : Spares s s' := by
  cases h with
  | globals hthreads hhandles hlocked htrace hmemory => exact frame hthreads hhandles
  | record t f hf =>
      refine ⟨fun u hu => ?_, fun u hu hnew => absurd hu hnew, fun u hid => ?_⟩
      · exact (proj_update Thread.stackOverflow hf.1 u).symm.trans hu
      · exact absurd (proj_update Thread.id hf.2 u) hid
  | clear n entry => exact update rfl (List.subset_cons_self _ _) rfl
  | create n id ref hclear => exact update rfl (List.Subset.refl _) hclear
  | _ => exact frame rfl (List.Subset.refl _)

theorem of_writes (h : Writes i s s') : Spares s s' := by
  induction h with
  | refl => exact frame rfl (List.Subset.refl _)
  | tail _ hwrite ih => exact ih.trans (of_write hwrite)

end Spares

section Mark

variable {b : Build} {i : Input} {s s' : State} {t : Tid}

/-- A move takes the mark from no thread. -/
theorem Move.mark_kept (h : Inv s) (hm : Move i s s') (ht : t ∈ s.handles)
    (hmark : (s.threads t).stackOverflow = true) : (s'.threads t).stackOverflow = true := by
  cases hm with
  | overflow hrun =>
      by_cases htc : t = s.currentThread
      · subst t
        simp [State.modifyThread]
      · simpa [State.modifyThread, htc] using hmark
  | scribble n th hdead hmain =>
      have hne : t ≠ n := fun e => hdead (e ▸ ht)
      exact (congrArg Thread.stackOverflow (Function.update_of_ne hne _ _)).trans hmark
  | claimed u code stored head sp mp tp hp hrun hu hne hdead hzombie hpoint hstored heq =>
      exact (claimed_proj Thread.stackOverflow hne (by rfl) (by rfl) t).trans hmark
  | spawned n r entry rest ref count cap index active rq hrun hk hpool hslot hrq =>
      obtain ⟨hfresh, -, -⟩ := h.mem.held_fresh h.sched.current_mem (congrArg Point.held hk)
      have hne : t ≠ n := fun e => hfresh (e ▸ ht)
      exact (spawn_proj (s := s.slotGiven n ref count cap index active) Thread.stackOverflow rfl
        hne).trans hmark
  | reprioritize f rq hrq => exact hmark
  | _ => first | exact hmark | exact (proj_update Thread.stackOverflow (by rfl) t).trans hmark

theorem Release.mark_eq {m : MutexId} (hr : Release m s s') (t : Tid) :
    (s'.threads t).stackOverflow = (s.threads t).stackOverflow := by
  cases hr with
  | handOff u rest rq hq hrq => exact proj_update Thread.stackOverflow (by rfl) t
  | free hq => rfl

theorem Acquire.mark_eq {m : MutexId} {k : Point} (ha : Acquire m k s s') (t : Tid) :
    (s'.threads t).stackOverflow = (s.threads t).stackOverflow := by
  cases ha with
  | take hfree => rfl
  | park hrun hold hvalid hheld hready => exact proj_update Thread.stackOverflow (by rfl) t
  | fail hfail => rfl

theorem Act.mark_eq (ha : Act i s s') (t : Tid) :
    (s'.threads t).stackOverflow = (s.threads t).stackOverflow := by
  cases ha with
  | lock m e hi huser ha => exact ha.mark_eq t
  | unlock m e hi huser hvalid hheld hr => exact hr.mark_eq t
  | condWait c m e hi hrun huser hready hr =>
      exact (proj_update Thread.stackOverflow (by rfl) t).trans (hr.mark_eq t)
  | condGiveUp c m e hi huser hready hr ha => exact (ha.mark_eq t).trans (hr.mark_eq t)
  | relock c m e hi hk ha hb =>
      cases hb with
      | user hrun hk => exact (proj_update Thread.stackOverflow (by rfl) t).trans (ha.mark_eq t)
      | switched hrun => exact ha.mark_eq t
  | join u slot own retval e hi hrun huser hu hne hlive hfree hslot hown hchain hready =>
      exact joinAt_proj Thread.stackOverflow hne (by rfl) (by rfl) t
  | _ => rfl

/-- A regular step takes the mark from no thread that stays. -/
theorem step_mark_kept (h : Settled s) (hg : Regular s i) (hs : step b s i = some s')
    (ht : t ∈ s'.handles) (hid : (s'.threads t).id < s.nextThreadId)
    (hmark : (s.threads t).stackOverflow = true) : (s'.threads t).stackOverflow = true := by
  have hkept := h.step (b := b) (I := fun r => s.nextThreadId ≤ r.nextThreadId ∧
    ∀ u ∈ r.handles, (r.threads u).id < s.nextThreadId → (s.threads u).stackOverflow = true →
      (r.threads u).stackOverflow = true) ⟨Nat.le_refl _, fun _ _ _ hu => hu⟩ hg hs ?_ ?_
  · exact hkept.2.2 t ht hid hmark
  · intro r _ ha
    obtain ⟨-, hnext⟩ := ha.handles
    exact ⟨by omega, fun u _ _ hu => (ha.mark_eq u).trans hu⟩
  · rintro r r' hwf ⟨hle, hr⟩ hm
    rcases hm.creates hwf.inv with ⟨hsub, hnext⟩ | ⟨n, -, hhandles, hn, hnext, -⟩
    · refine ⟨by omega, fun u hu hlt hmark => ?_⟩
      rw [hm.id_eq hwf.inv (hsub hu)] at hlt
      exact hm.mark_kept hwf.inv (hsub hu) (hr u (hsub hu) hlt hmark)
    · refine ⟨by omega, fun u hu hlt hmark => ?_⟩
      rw [hhandles] at hu
      rcases List.mem_cons.mp hu with rfl | hold
      · omega
      · rw [hm.id_eq hwf.inv hold] at hlt
        exact hm.mark_kept hwf.inv hold (hr u hold hlt hmark)

theorem State.marked_other (hne : t ≠ s.currentThread) : s.marked.threads t = s.threads t :=
  Function.update_of_ne hne _ _

end Mark

/-- A thread with an exit in the history is terminated, with that value. -/
theorem ExitInv.of_exited {s : State} (h : ExitInv s) {t : Tid} {v : Value} (ht : t ∈ s.handles)
    (hmem : .exited (s.threads t).id v ∈ s.trace) :
    (s.threads t).state = .terminated ∧ (s.threads t).retval = v := by
  have hvalue := (h.values t ht).trans (exitValue_of_mem h.entries hmem)
  unfold Thread.outcome at hvalue
  split at hvalue
  next hdead => exact ⟨hdead, Option.some.inj hvalue⟩
  next => cases hvalue

/-- Nobody who is alive is marked. -/
def MarksDead (s : State) : Prop :=
  ∀ t ∈ s.handles, (s.threads t).stackOverflow = true → (s.threads t).state = .terminated

section

variable {b : Build} {i : Input} {s s' : State}

/-- A terminated thread stays terminated. -/
theorem ExitInv.dead_stays (h : ExitInv s) (h' : ExitInv s') (hlater : Later s s') {t : Tid}
    (ht : t ∈ s.handles) (ht' : t ∈ s'.handles) (hid : (s'.threads t).id = (s.threads t).id)
    (hdead : (s.threads t).state = .terminated) : (s'.threads t).state = .terminated := by
  have hmem := hlater.history.subset (h.exited_of_dead ht hdead)
  rw [← hid] at hmem
  exact (h'.of_exited ht' hmem).1

/-- A step that spares everybody keeps the marks on the dead. -/
theorem MarksDead.spares (hI : MarksDead s) (h : ExitInv s) (h' : ExitInv s') (hlater : Later s s')
    (hspares : Spares s s') : MarksDead s' := by
  intro t ht hmark
  have hold : t ∈ s.handles := by
    by_contra hnew
    rw [hspares.fresh t ht hnew] at hmark
    cases hmark
  have hid : (s'.threads t).id = (s.threads t).id := by
    by_contra hne
    rw [hspares.renamed t hne] at hmark
    cases hmark
  exact h.dead_stays h' hlater hold ht hid (hI t hold (hspares.unset t hmark))

theorem step_resume_fresh {e : Env} (hs : step b s (.resume e) = some s') : e.Fresh s := by
  have hended := ended_of_step hs
  simp only [step, hended, Bool.false_eq_true, if_false] at hs
  split at hs
  next hfresh => exact hfresh
  next => cases hs

theorem regular_later (h : Settled s) (hg : Regular s i) (hs : step b s i = some s') :
    Later s s' := by
  have hreach : Reach (step b) Regular s s' := .tail .refl hg hs
  exact (Later.of_reach hreach (fun _ _ hg => hg) h).2

/-- The fault handler marks the thread that it terminates. -/
theorem MarksDead.step (hI : MarksDead s) (hreach : RegularReach b s) (hg : Regular s i)
    (hs : UserThreads.step b s i = some s') : MarksDead s' := by
  have h := exitInv_of_reach hreach
  have h' := exitInv_of_reach (hreach.tail hg hs)
  have hlater := regular_later hreach.settled hg hs
  rcases step_writes hs with hwrites | ⟨-, hstack, heq, hwrites⟩
  · exact hI.spares h h' hlater (.of_writes hwrites)
  · intro t ht hmark
    have hspares := Spares.of_writes hwrites
    have hended := ended_of_step hs
    have hcontained := sigsegvHandler_contained hreach.sound.inv (hreach.sound.runs hended) hended
      hstack b.policy
    have hexit : sigsegvHandler b.policy s = s' := (if_neg hstack).trans heq.symm
    rw [hexit] at hcontained
    by_cases htc : t = s.currentThread
    · rw [htc]
      exact hcontained.terminated
    · have hold : t ∈ s.handles := by
        by_contra hnew
        rw [hspares.fresh t ht hnew] at hmark
        cases hmark
      have hid : (s'.threads t).id = (s.threads t).id := by
        rw [← State.marked_other htc]
        by_contra hne
        rw [hspares.renamed t hne] at hmark
        cases hmark
      have hbefore := hspares.unset t hmark
      rw [State.marked_other htc] at hbefore
      exact h.dead_stays h' hlater hold ht hid (hI t hold hbefore)

theorem marksDead_of_reach (hreach : RegularReach b s) : MarksDead s := by
  refine hreach.invariant (I := MarksDead) ?_ fun hreach hI hg hs => hI.step hreach hg hs
  intro t _ hmark
  cases hmark

/-- An exit is entered in the history. -/
theorem exited_mem_threadExit (p : Policy) (s : State) (v : Value) :
    .exited s.self v ∈ (threadExit p s v).trace := by
  obtain ⟨map, base, flag, deferred, zombies, heq⟩ :=
    exitZombie_frame (s.terminate v) s.currentThread
  have hzombie : .exited s.self v ∈ (exitZombie (s.terminate v) s.currentThread).trace := by
    rw [heq]
    simp [State.terminate]
  have hwake : .exited s.self v ∈
      (exitWake p (exitZombie (s.terminate v) s.currentThread) s.currentThread).trace := by
    unfold exitWake
    split
    · exact hzombie
    · rw [threadSchedulerEnqueue_trace]
      exact List.mem_cons_of_mem _ hzombie
  generalize hr : exitWake p (exitZombie (s.terminate v) s.currentThread) s.currentThread = r
    at hwake
  by_cases hq : r.readyQueue = []
  · rw [threadExit_nil hr hq]
    exact hwake
  · obtain ⟨next, rest, hq⟩ := List.exists_cons_of_ne_nil hq
    rw [threadExit_cons hr hq]
    exact List.mem_cons_of_mem _ hwake

/-- A process that has ended stays as it is. -/
theorem eq_of_reach_ended {guard : State → Input → Prop} (h : Reach (step b) guard s s')
    (hended : s.ended = true) : s' = s := by
  refine h.invariant (I := fun r => r = s) rfl ?_
  rintro r r' i - rfl _ hs
  rw [ended_of_step hs] at hended
  cases hended

/-- What the step that ends a thread leaves behind, if the process goes on. -/
theorem ending_step {d : Ending} (hreach : RegularReach b s) (hd : i.ending = some d)
    (hs : step b s i = some s') (hlive : s'.ended = false) :
    .exited s.self d.retval ∈ s'.trace ∧
      (s'.threads s.currentThread).stackOverflow = d.overflow := by
  have hended := ended_of_step hs
  have hrun := hreach.sound.runs hended
  cases i with
  | resume e => cases hd
  | call c e =>
      cases c with
      | threadExit v =>
          obtain ⟨-, heq⟩ := step_call hs
          cases hd
          refine ⟨heq ▸ exited_mem_threadExit b.policy s v, ?_⟩
          -- The running thread is alive, so it is not marked.
          rw [← Bool.not_eq_true]
          intro hmark
          have hspares : Spares s s' := heq ▸ .of_writes (i := .resume e) (.threadExit b.policy s v)
          have hdead := marksDead_of_reach hreach _ hreach.sound.inv.sched.current_mem
            (hspares.unset _ hmark)
          rw [State.running, hdead] at hrun
          cases hrun
      | guardPageFault =>
          cases hd
          obtain ⟨-, heq⟩ := step_call hs
          have hdetect : b.overflowDetection = true := by
            by_contra hoff
            have hend : s' = { s with ended := true } := by
              rw [heq]
              simp only [enter, finish]
              rw [if_neg hoff]
            rw [hend] at hlive
            cases hlive
          have hhandler : s' = sigsegvHandler b.policy s := by
            rw [heq]
            simp only [enter, hdetect, if_true, finish]
          have hstack : s.running.stackMap ≠ none := by
            intro hnone
            have hend : s' = { s with ended := true } := hhandler.trans (if_pos hnone)
            rw [hend] at hlive
            cases hlive
          have hcontained := sigsegvHandler_contained hreach.sound.inv hrun hended hstack b.policy
          rw [← hhandler] at hcontained
          refine ⟨?_, hcontained.flagged⟩
          have hself : s.marked.self = s.self := by
            simp [State.self, State.marked, State.modifyThread]
          have hmem := exited_mem_threadExit b.policy s.marked 0
          rw [hself] at hmem
          rw [hhandler.trans (if_neg hstack)]
          exact hmem
      | _ => cases hd

/-- A step marks no terminated thread and takes no mark from one. -/
theorem dead_mark_eq (hreach : RegularReach b s) (hg : Regular s i) (hs : step b s i = some s')
    {t : Tid} (ht : t ∈ s'.handles) (hid : (s'.threads t).id < s.nextThreadId)
    (hdead : (s.threads t).state = .terminated) :
    (s'.threads t).stackOverflow = (s.threads t).stackOverflow := by
  have hother : t ≠ s.currentThread := by
    rintro rfl
    have hrun := hreach.sound.runs (ended_of_step hs)
    rw [State.running, hdead] at hrun
    cases hrun
  rw [Bool.eq_iff_iff]
  refine ⟨fun hmark => ?_, fun hmark => step_mark_kept hreach.settled hg hs ht hid hmark⟩
  rcases step_writes hs with hwrites | ⟨-, -, -, hwrites⟩
  · exact (Spares.of_writes hwrites).unset t hmark
  · have hbefore := (Spares.of_writes hwrites).unset t hmark
    rwa [State.marked_other hother] at hbefore

/-- The record of a thread that has ended shows how, until it is claimed. -/
theorem EndedAs.record {id : Nat} {d : Ending} (h : EndedAs b id d s) (hlive : s.ended = false)
    {t : Tid} (ht : t ∈ s.handles) (hid : (s.threads t).id = id) :
    (s.threads t).state = .terminated ∧ (s.threads t).retval = d.retval ∧
      (s.threads t).stackOverflow = d.overflow := by
  obtain ⟨u, i, u', hreach, hg, hself, hd, hstep, htail⟩ := h
  have hreach' : RegularReach b u' := hreach.tail hg hstep
  have hlive' : u'.ended = false := by
    rw [← Bool.not_eq_true]
    intro hended
    rw [eq_of_reach_ended htail hended, hended] at hlive
    cases hlive
  obtain ⟨hexited, hmark⟩ := ending_step hreach hd hstep hlive'
  rw [hself] at hexited
  -- The thread is the one that ran at `u`, as ids are not used twice.
  have hbound : id < u.nextThreadId := by
    rw [← hself]
    exact hreach.settled.ids.bound _ hreach.sound.inv.sched.current_mem
  have hsame : ∀ r, Reach (step b) Regular u' r → ∀ t ∈ r.handles, (r.threads t).id = id →
      t = u.currentThread := by
    intro r hr t ht hid
    have hlater := (Later.of_reach ((Reach.tail .refl hg hstep).trans hr) (fun _ _ hg => hg)
      hreach.settled).2
    obtain ⟨hmem, hold⟩ := hlater.same t ht (by rw [hid]; exact hbound)
    refine hreach.settled.ids.inj t hmem _ hreach.sound.inv.sched.current_mem ?_
    rw [hold, hid, ← hself]
    rfl
  have hdead : ∀ r, Reach (step b) Regular u' r → ∀ t ∈ r.handles, (r.threads t).id = id →
      (r.threads t).state = .terminated ∧ (r.threads t).retval = d.retval := by
    intro r hr t ht hid
    have hmem := (Later.of_reach hr (fun _ _ hg => hg) hreach'.settled).2.history.subset hexited
    rw [← hid] at hmem
    exact (exitInv_of_reach (hreach'.trans hr)).of_exited ht hmem
  have hmarks : ∀ t ∈ s.handles, (s.threads t).id = id →
      (s.threads t).stackOverflow = d.overflow := by
    refine htail.invariant (I := fun r => ∀ t ∈ r.handles, (r.threads t).id = id →
      (r.threads t).stackOverflow = d.overflow) ?_ ?_
    · intro t ht hid
      rw [hsame u' .refl t ht hid]
      exact hmark
    · intro r r' j hr hI hg' hs' t ht hid
      have hwhole : RegularReach b r := hreach'.trans hr
      have hlt : (r'.threads t).id < r.nextThreadId := by
        have hle := (Later.of_reach hr (fun _ _ hg => hg) hreach'.settled).2.next
        have hle' := (regular_later hreach.settled hg hstep).next
        omega
      obtain ⟨hmem, hold⟩ := (regular_later hwhole.settled hg' hs').same t ht hlt
      rw [dead_mark_eq hwhole hg' hs' ht hlt (hdead r hr t hmem (hold.trans hid)).1]
      exact hI t hmem (hold.trans hid)
  obtain ⟨hstate, hvalue⟩ := hdead s htail t ht hid
  exact ⟨hstate, hvalue, hmarks t ht hid⟩

end

/-! The two answers. -/

section Answer

variable {b : Build} {s : State} {t : Tid} {retval : Bool} {e : Env}

/-- Claiming a thread does not touch `errno`. -/
theorem claimTarget_errno (s : State) (t : Tid) : (claimTarget s t).errno = s.errno := by
  obtain ⟨queue, hremove⟩ := threadZombieRemove_frame s t
  have hpush : ∀ (r : State) (entry : StackEntry), (stackPoolPush r entry).errno = r.errno := by
    intro r entry
    rw [stackPoolPush_eq]
  have hrelease : ∀ r : State, (threadObjRelease r t).errno = r.errno := by
    intro r
    unfold threadObjRelease
    split
    · rfl
    · rw [threadFree_eq]
      rfl
  unfold claimTarget
  dsimp only
  split
  · rfl
  · rw [hrelease]
    split
    · rw [hremove]
    · rw [hpush, hremove]

/-- The answer is read off the claim and the return. -/
theorem joinAnswer_of_step {i : Input} {r : State} {id : Nat} {c code : Int}
    {stored : Option Value} (hstep : step b { s with errno := none } i =
      some (finish (.threadJoin (some t) retval) (r.emit (.joined id c stored), some code))) :
    joinAnswer b s i = some { code := code, errno := r.errno, stored := stored } := by
  rw [joinAnswer, hstep]
  rfl

/-- A join that finds its target terminated answers 0 in any case. -/
theorem joinAnswer_immediate (hlive : s.ended = false) (huser : s.running.point = .user)
    (hfresh : e.Fresh s) (hfree : (s.threads t).joinedBy = none) (hne : t ≠ s.currentThread)
    (hdead : (s.threads t).state = .terminated) :
    joinAnswer b s (.call (.threadJoin (some t) retval) e) =
      some { code := 0, errno := none, stored := storedRetval s t retval } := by
  obtain ⟨r, hr⟩ : ∃ r : State, r = { s with errno := none } := ⟨_, rfl⟩
  have hended : r.ended = false := by rw [hr]; exact hlive
  have hcall : (r.threads r.currentThread).point = .user ∧ e.Fresh r := by
    rw [hr]
    exact ⟨huser, hfresh⟩
  have hjoin : threadJoin r (some t) retval = joinTerminated r t retval := by
    rw [hr]
    simp [threadJoin, hfree, hne, hdead]
  have hstep : step b r (.call (.threadJoin (some t) retval) e) =
      some (finish (.threadJoin (some t) retval) (joinTerminated r t retval)) := by
    simp only [step, hended, Bool.false_eq_true, if_false, if_pos hcall, enter, hjoin]
  have hanswer := joinAnswer_of_step (hr ▸ hstep)
  rw [claimTarget_errno] at hanswer
  exact hanswer

/-- A join that has blocked answers what the mark says. -/
theorem joinAnswer_blocking (hlive : s.ended = false) (hpoint : s.running.point = .join t retval)
    (hfresh : e.Fresh s) (hne : t ≠ s.currentThread) :
    joinAnswer b s (.resume e) =
      some { code := if (s.threads t).stackOverflow then -1 else 0
             errno := if (s.threads t).stackOverflow then some .efault else none
             stored := storedRetval s t retval } := by
  obtain ⟨r, hr⟩ : ∃ r : State, r = { s with errno := none } := ⟨_, rfl⟩
  have hended : r.ended = false := by rw [hr]; exact hlive
  have hfresh' : e.Fresh r := by rw [hr]; exact hfresh
  have hpoint' : (r.threads r.currentThread).point = .join t retval := by rw [hr]; exact hpoint
  have hstep : step b r (.resume e) =
      some (finish (.threadJoin (some t) retval) (joinResume r t retval)) := by
    simp only [step, hended, Bool.false_eq_true, if_false, if_pos hfresh', hpoint', continueAt]
  -- What the caller writes in its own record before it reads the target's.
  obtain ⟨r₁, hr₁⟩ : ∃ r₁ : State, r₁ = (r.modifyThread r.currentThread fun th =>
      { th with waitingFor := none }).setState r.currentThread .running none := ⟨_, rfl⟩
  have htarget : r₁.threads t = s.threads t := by
    rw [hr₁, hr]
    simp [State.setState, State.emit, State.modifyThread, hne]
  have hstored : storedRetval r₁ t retval = storedRetval s t retval := by
    unfold storedRetval
    rw [htarget]
  have herrno : (claimTarget r₁ t).errno = none := by
    rw [claimTarget_errno, hr₁, hr]
    rfl
  cases hmark : (s.threads t).stackOverflow with
  | true =>
      have hresume : joinResume r t retval =
          (((claimTarget r₁ t).setErrno .efault).emit (.joined (r₁.threads t).id (-1)
            (storedRetval r₁ t retval)), some (-1)) := by
        simp only [joinResume, ← hr₁]
        rw [if_pos (by rw [htarget, hmark])]
      rw [hresume, hr] at hstep
      rw [joinAnswer_of_step hstep, hstored]
      rfl
  | false =>
      have hresume : joinResume r t retval = ((claimTarget r₁ t).emit (.joined (r₁.threads t).id 0
          (storedRetval r₁ t retval)), some 0) := by
        simp only [joinResume, ← hr₁]
        rw [if_neg (by rw [htarget, hmark]; exact Bool.false_ne_true)]
      rw [hresume, hr] at hstep
      rw [joinAnswer_of_step hstep, hstored, herrno]
      rfl

end Answer

/-- In any two regular runs of a build in which the targets have ended alike, a
join that comes too late to block and a join that has blocked give the same
answer exactly if the targets were not killed by a stack overflow. -/
theorem joinAnswer_eq_iff_of_ended {b : Build} {d : Ending} {s₁ s₂ s₁' s₂' : State} {t₁ t₂ : Tid}
    {retval : Bool} {e₁ e₂ : Env} (hends₁ : EndedAs b (s₁.threads t₁).id d s₁)
    (hends₂ : EndedAs b (s₂.threads t₂).id d s₂) (ht₁ : t₁ ∈ s₁.handles)
    (hfree : (s₁.threads t₁).joinedBy = none)
    (hcall : step b s₁ (.call (.threadJoin (some t₁) retval) e₁) = some s₁')
    (hpoint : s₂.running.point = .join t₂ retval) (hresume : step b s₂ (.resume e₂) = some s₂') :
    ∃ a₁ a₂, joinAnswer b s₁ (.call (.threadJoin (some t₁) retval) e₁) = some a₁ ∧
      joinAnswer b s₂ (.resume e₂) = some a₂ ∧ (a₁ = a₂ ↔ d.overflow = false) := by
  have hlive₁ := ended_of_step hcall
  have hlive₂ := ended_of_step hresume
  have hother : ∀ {s : State} {t : Tid}, s.running.state = .running →
      (s.threads t).state = .terminated → t ≠ s.currentThread := by
    rintro s t hrun hdead rfl
    rw [State.running, hdead] at hrun
    cases hrun
  -- The target of the blocked caller exists, as the invariant says.
  have hinv₂ := hends₂.reach.sound.inv
  have htarget : s₂.running.point.target = some t₂ := by rw [hpoint]; rfl
  have ht₂ := (hinv₂.join.target _ hinv₂.sched.current_mem t₂ htarget).1
  obtain ⟨hdead₁, hvalue₁, -⟩ := hends₁.record hlive₁ ht₁ rfl
  obtain ⟨hdead₂, hvalue₂, hmark₂⟩ := hends₂.record hlive₂ ht₂ rfl
  obtain ⟨huser, hfresh₁, -⟩ := step_call_fresh hcall
  have hfresh₂ := step_resume_fresh hresume
  refine ⟨_, _, joinAnswer_immediate hlive₁ huser hfresh₁ hfree
    (hother (hends₁.reach.sound.runs hlive₁) hdead₁) hdead₁, joinAnswer_blocking hlive₂ hpoint
    hfresh₂ (hother (hends₂.reach.sound.runs hlive₂) hdead₂), ?_⟩
  have hstored : storedRetval s₁ t₁ retval = storedRetval s₂ t₂ retval := by
    unfold storedRetval
    rw [hvalue₁, hvalue₂]
  rw [hmark₂, hstored]
  cases hover : d.overflow with
  | true => simp
  | false => simp

/-- Thread 1 returns 7. The main thread joins it late in one run, and waits for
it in the other. -/
theorem joinAnswer_eq_iff_of_ended_exit : ∃ s₁ s₂ a,
    EndedAs .fifo 1 { retval := 7, overflow := false } s₁ ∧
    EndedAs .fifo 1 { retval := 7, overflow := false } s₂ ∧
    joinAnswer .fifo s₁ (.plain (.threadJoin (some 1) true)) = some a ∧
    joinAnswer .fifo s₂ .go = some a := by
  obtain ⟨s₁, hends₁, hid₁, ht₁, hfree, hcall⟩ := exists_endedAs_of_run .fifo 1
    [.create 1, .plain .threadYield, .go] (.plain (.threadExit 7)) [.go] rfl
    (fun s => (s.threads 1).id = 1 ∧ 1 ∈ s.handles ∧ (s.threads 1).joinedBy = none ∧
      (step .fifo s (.plain (.threadJoin (some 1) true))).isSome = true) (by decide +kernel)
  obtain ⟨s₂, hends₂, hid₂, hpoint, hresume⟩ := exists_endedAs_of_run .fifo 1
    [.create 1, .plain (.threadJoin (some 1) true), .go] (.plain (.threadExit 7)) [] rfl
    (fun s => (s.threads 1).id = 1 ∧ s.running.point = .join 1 true ∧
      (step .fifo s .go).isSome = true) (by decide +kernel)
  obtain ⟨s₁', hcall⟩ := Option.isSome_iff_exists.mp hcall
  obtain ⟨s₂', hresume⟩ := Option.isSome_iff_exists.mp hresume
  obtain ⟨a₁, a₂, ha₁, ha₂, heq⟩ := joinAnswer_eq_iff_of_ended (hid₁.symm ▸ hends₁)
    (hid₂.symm ▸ hends₂) ht₁ hfree hcall hpoint hresume
  exact ⟨s₁, s₂, a₁, hends₁, hends₂, ha₁, (heq.mpr rfl) ▸ ha₂⟩

/-- Thread 1 is killed by a stack overflow. The main thread that joins it late
gets 0, the main thread that waits for it gets -1 and `EFAULT`. -/
theorem not_joinAnswer_eq_of_ended : ¬ ∀ (b : Build) (d : Ending) (s₁ s₂ : State) (t₁ t₂ : Tid)
    (retval : Bool), EndedAs b (s₁.threads t₁).id d s₁ → EndedAs b (s₂.threads t₂).id d s₂ →
      t₁ ∈ s₁.handles → (s₁.threads t₁).joinedBy = none →
      (step b s₁ (.plain (.threadJoin (some t₁) retval))).isSome = true →
      s₂.running.point = .join t₂ retval → (step b s₂ .go).isSome = true →
      joinAnswer b s₁ (.plain (.threadJoin (some t₁) retval)) = joinAnswer b s₂ .go := by
  intro hall
  obtain ⟨s₁, hends₁, hid₁, ht₁, hfree, hcall, hanswer₁⟩ :=
    exists_endedAs_of_run Process.detecting 1
      [.create 1, .plain .threadYield, .go] (.plain .guardPageFault) [.go] rfl
      (fun s => (s.threads 1).id = 1 ∧ 1 ∈ s.handles ∧ (s.threads 1).joinedBy = none ∧
        (step Process.detecting s (.plain (.threadJoin (some 1) true))).isSome = true ∧
        joinAnswer Process.detecting s (.plain (.threadJoin (some 1) true)) =
          some { code := 0, errno := none, stored := some 0 }) (by decide +kernel)
  obtain ⟨s₂, hends₂, hid₂, hpoint, hresume, hanswer₂⟩ :=
    exists_endedAs_of_run Process.detecting 1
      [.create 1, .plain (.threadJoin (some 1) true), .go] (.plain .guardPageFault) [] rfl
      (fun s => (s.threads 1).id = 1 ∧ s.running.point = .join 1 true ∧
        (step Process.detecting s .go).isSome = true ∧
        joinAnswer Process.detecting s .go =
          some { code := -1, errno := some .efault, stored := some 0 }) (by decide +kernel)
  have heq := hall Process.detecting _ s₁ s₂ 1 1 true (hid₁.symm ▸ hends₁) (hid₂.symm ▸ hends₂)
    ht₁ hfree hcall hpoint hresume
  rw [hanswer₁, hanswer₂] at heq
  exact absurd heq (by decide)

end UserThreads
