import UserThreads.Operations.Create
import UserThreads.Operations.Join
import UserThreads.Operations.Signal
import UserThreads.Operations.Sync
import UserThreads.Transition.GuardedRun

/-!
# Every stretch is an act followed by moves

The one theorem that ties the code to the moves, and the invariant of every
regular run that follows from it.
-/

namespace UserThreads

open Transition

section

variable {i : Input} {s : State} (h : Inv s) (hrun : s.running.state = .running)
include h hrun

theorem enter_completed (b : Build) (c : Call) (e : Env) (hi : i = .call c e)
    (huser : s.running.point = .user) (hfresh : e.Fresh s) (hg : Regular s i) :
    Completed i s (finish c (enter b s c e)) := by
  obtain ⟨hvalid, hready⟩ := hg
  have hhandle : ∀ t, i.handle = some t → t ∈ s.handles := hvalid
  cases c with
  | threadCreate newthread func =>
      exact (threadCreate_finishes h hrun huser b _ _ e hfresh _).completed
  | threadYield =>
      exact ((threadYield_yields hrun (yieldPoint_call huser _) h b.policy).served
        (settled_of_user huser)).completed _
  | threadYieldTo target =>
      cases target with
      | none => exact (Served.refuse hrun (settled_of_user huser) _ _).completed _
      | some t =>
          exact ((threadYieldTo_yields hrun (yieldPoint_call huser _) h b.policy
            (hhandle t (by rw [hi]; rfl))).served (settled_of_user huser)).completed _
  | threadSetPriority target prio =>
      cases target with
      | none => exact (Served.nothing hrun (settled_of_user huser) _).completed _
      | some t =>
          exact ((threadSetPriority_yields hrun (yieldPoint_call huser _) h b.policy
            (hhandle t (by rw [hi]; rfl)) prio).served (settled_of_user huser)).completed _
  | threadExit retval => exact threadExit_completed h b.policy retval hrun huser
  | threadJoin t retval => exact threadJoin_completed h hrun huser hi hvalid hready _
  | threadMutexInit m => exact (threadMutexInit_served hrun huser m hi).completed _
  | threadMutexDestroy m => exact (threadMutexDestroy_served hrun huser m hi).completed _
  | threadMutexLock m => exact (threadMutexLock_served h hrun huser m hi).completed _
  | threadMutexUnlock m => exact (threadMutexUnlock_served h hrun huser b.policy m hi).completed _
  | threadCondInit c => exact (threadCondInit_served hrun huser c hi).completed _
  | threadCondDestroy c => exact (threadCondDestroy_served hrun huser c).completed _
  | threadCondWait c m => exact (threadCondWait_served h hrun huser b.policy c m hi).completed _
  | threadCondSignal c => exact (threadCondSignal_served h hrun huser b.policy c).completed _
  | threadCondBroadcast c => exact (threadCondBroadcast_served h hrun huser b.policy c).completed _
  | threadSemInit sm v => exact (threadSemInit_served hrun huser sm v hi).completed _
  | threadSemDestroy sm => exact (threadSemDestroy_served hrun huser sm hi).completed _
  | threadSemWait sm => exact (threadSemWait_served h hrun huser sm).completed _
  | threadSemPost sm => exact (threadSemPost_served h hrun huser b.policy sm).completed _
  | threadSignalSend t sig =>
      exact (threadSignalSend_served h hrun b.policy t sig huser fun t' ht' =>
        hhandle t' (by rw [hi]; exact ht')).completed _
  | threadSigwait set sig => exact (threadSigwait_served h hrun set sig huser).completed _
  | guardPageFault =>
      simp only [enter]
      split
      · exact sigsegvHandler_completed h b.policy hrun huser
      · exact ⟨.of_moves (.single (.endProcess (s := s))), Or.inl rfl⟩
  | exit => exact ⟨.of_moves (.single (.endProcess (s := s))), Or.inl rfl⟩

theorem continueAt_completed (b : Build) (e : Env) (hi : i = .resume e) (hfresh : e.Fresh s)
    {s' : State} (hs : continueAt b s e s.running.point = some s') : Completed i s s' := by
  have hback : ∀ c code, s.running.point.Settled → Completed i s (finish c (s, some code)) :=
    fun c code hpoint => (Finishes.toUser hrun hpoint c code).completed
  cases hk : s.running.point with
  | user =>
      rw [hk] at hs
      cases hs
  | entry =>
      rw [hk] at hs
      cases hs
      refine ⟨.of_moves (.single (.toUser hrun (by rw [hk]; exact ⟨rfl, rfl⟩))), Or.inr ?_⟩
      simpa [State.setPoint, State.modifyThread, State.running] using hrun
  | yielded c =>
      rw [hk] at hs hback
      cases hs
      exact hback c 0 ⟨rfl, rfl⟩
  | create newth retries =>
      rw [hk] at hs
      cases hs
      exact (createLoop_finishes h hrun hk b e hfresh.2 _).completed
  | join target retval =>
      rw [hk] at hs
      cases hs
      exact joinResume_completed h hrun hk _
  | mutexLock m =>
      rw [hk] at hs hback
      cases hs
      exact hback _ 0 ⟨rfl, rfl⟩
  | condWait c m =>
      rw [hk] at hs
      cases hs
      exact condWait_resumed h hrun c m e hi hk
  | condRelock c m code =>
      rw [hk] at hs hback
      cases hs
      exact hback _ code ⟨rfl, rfl⟩
  | semWait sm =>
      rw [hk] at hs hback
      cases hs
      exact hback _ 0 ⟨rfl, rfl⟩
  | sigwait set =>
      rw [hk] at hs
      cases hs
      exact (sigwaitLoop_served h hrun set (by rw [hk]; exact ⟨rfl, rfl⟩)).completed _

end

/-- What holds between the stretches of a regular run. -/
structure Sound (s : State) : Prop where
  inv : Inv s
  runs : s.ended = false → s.running.state = .running

theorem sound_initial : Sound State.initial := ⟨inv_initial, fun _ => rfl⟩

/-- A process that has ended takes no step. -/
theorem ended_of_step {b : Build} {s s' : State} {i : Input} (hs : step b s i = some s') :
    s.ended = false := by
  by_contra hended
  simp [step, Bool.of_not_eq_false hended] at hs

/-- A call is made from user code, with memory that is not in use. -/
theorem step_call_fresh {b : Build} {s s' : State} {c : Call} {e : Env}
    (hs : step b s (.call c e) = some s') :
    s.running.point = .user ∧ e.Fresh s ∧ s' = finish c (enter b s c e) := by
  have hended := ended_of_step hs
  simp only [step, hended, Bool.false_eq_true, if_false] at hs
  split at hs
  next hcall => exact ⟨hcall.1, hcall.2, (Option.some.inj hs).symm⟩
  next => cases hs

/-- A call runs the code of the call and returns, or switches away. -/
theorem step_call {b : Build} {s s' : State} {c : Call} {e : Env}
    (hs : step b s (.call c e) = some s') :
    s.running.point = .user ∧ s' = finish c (enter b s c e) := by
  obtain ⟨huser, -, heq⟩ := step_call_fresh hs
  exact ⟨huser, heq⟩

/-- A resumption continues at the point where the running thread switched away. -/
theorem step_resume {b : Build} {s s' : State} {e : Env} (hs : step b s (.resume e) = some s') :
    continueAt b s e s.running.point = some s' := by
  have hended := ended_of_step hs
  simp only [step, hended, Bool.false_eq_true, if_false] at hs
  split at hs
  next => exact hs
  next => cases hs

/-- Every regular step is an act followed by moves. -/
theorem step_completed {b : Build} {s s' : State} {i : Input} (h : Sound s) (hg : Regular s i)
    (hs : step b s i = some s') : Completed i s s' := by
  unfold step at hs
  split at hs
  next => cases hs
  next hended =>
    have hrun := h.runs (by simpa using hended)
    cases i with
    | call c e =>
        simp only at hs
        split at hs
        next hcall =>
          obtain rfl := Option.some.inj hs
          exact enter_completed h.inv hrun b c e rfl hcall.1 hcall.2 hg
        next => cases hs
    | resume e =>
        simp only at hs
        split at hs
        next hfresh => exact continueAt_completed h.inv hrun b e rfl hfresh hs
        next => cases hs

theorem Sound.step {b : Build} {s s' : State} {i : Input} (h : Sound s) (hg : Regular s i)
    (hs : UserThreads.step b s i = some s') : Sound s' := by
  have hc := step_completed h hg hs
  refine ⟨h.inv.stretch hc.stretch, fun hended => ?_⟩
  rcases hc.runs with htrue | hrun
  · rw [hended] at htrue
    cases htrue
  · exact hrun

/-- The states of regular runs. -/
abbrev RegularReach (b : Build) : State → Prop := Reach (step b) Regular State.initial

theorem RegularReach.sound {b : Build} {s : State} (h : RegularReach b s) : Sound s :=
  h.invariant sound_initial fun _ hs hg hstep => hs.step hg hstep

end UserThreads
