import UserThreads.Operations.Standing

/-!
# The pieces and the invariant

What each piece of library code does to the invariant when a thread executes it
where its code expects it, for all pieces but those of `thread_create`.
-/

namespace UserThreads

open Transition

theorem running_point_of_outline {s s' : State} (h : s'.outline = s.outline) :
    s'.running.point = s.running.point := by
  have hpoints : s'.points = s.points := congrArg Prod.fst h
  have hcurrent : s'.currentThread = s.currentThread := congrArg (·.2.1) h
  unfold State.running
  rw [hcurrent]
  exact congrFun hpoints s.currentThread

theorem enqueue_running_state (p : Policy) (s : State) (t : Tid) :
    (threadSchedulerEnqueue p s t).running.state = s.running.state := by
  unfold threadSchedulerEnqueue
  split
  · rfl
  · refine proj_update Thread.state ?_ s.currentThread
    rfl

theorem enqueue_joinedBy (p : Policy) (s : State) (t u : Tid) :
    ((threadSchedulerEnqueue p s t).threads u).joinedBy = (s.threads u).joinedBy := by
  unfold threadSchedulerEnqueue
  split
  · rfl
  · refine proj_update Thread.joinedBy ?_ u
    rfl

/-- `thread_yield` keeps its caller running by putting back what it has picked. -/
theorem threadYield_kept {p : Policy} {s s' : State} {next : Tid}
    (hkept : keptRunning p s = some (next, s')) (k : Point) :
    threadYield p s k = (threadSchedulerEnqueue p s' next, some 0) ∧ s'.outline = s.outline := by
  cases p with
  | fifo => cases hkept
  | prio =>
      simp only [keptRunning] at hkept
      rcases hpick : threadSchedulerPickNext (ageThreads s s.currentThread) with _ | ⟨next', s''⟩
      · rw [hpick] at hkept
        cases hkept
      · rw [hpick] at hkept
        simp only [Option.ite_none_right_eq_some, Option.some.injEq, Prod.mk.injEq] at hkept
        obtain ⟨⟨hne, hle⟩, rfl, rfl⟩ := hkept
        refine ⟨?_, (outline_pickNext hpick).trans (outline_ageThreads _)⟩
        simp [threadYield, hpick, hne, hle]

section Pieces

variable {b : Build} {keeps : Prop} {s : State} {e : Env} {rest : List Stmt} (h : Inv s)
  (hrun : s.running.state = .running)
include h hrun

/-- A yield ends its section at the thread it has chosen, or goes on to put it back. -/
theorem outcome_yield {k : Point} (hkeep : keptRunning b.policy s ≠ none → keeps)
    (hcode : CodeOk s.currentThread s.running.point (.piece (.yield k) :: rest)) :
    Outcome b keeps s (.yield k) rest ((Piece.yield k).perform b s e) := by
  obtain ⟨hfits, hends⟩ := hcode
  have hyields := threadYield_yields (i := .resume .plain) (k := k) hrun hfits h b.policy
  have hinv := h.moves hyields.moves
  cases hkept : keptRunning b.policy s with
  | none =>
      simp only [Piece.perform, hkept]
      exact .yielded rfl h hyields (threadYield_leaves b.policy s k) (hends _ (Or.inl rfl))
        (hends _ (Or.inr rfl))
  | some r =>
      obtain ⟨next, s'⟩ := r
      obtain ⟨heq, hsame⟩ := threadYield_kept hkept k
      rw [heq] at hinv hyields
      have hpoint : s'.running.point = s.running.point := running_point_of_outline hsame
      have hcurrent : s'.currentThread = s.currentThread := congrArg (·.2.1) hsame
      simp only [Piece.perform, hkept]
      refine .owing rfl ?_ hsame (.keptMasked (hkeep (by rw [hkept]; simp)) hinv ?_)
      · rw [← hyields.runs]
        exact (enqueue_running_state b.policy s' next).symm
      · rw [hcurrent, hpoint]
        exact hends _ (Or.inl rfl)

omit h in
/-- The thread that was picked goes back into the queue. -/
theorem outcome_requeue {next : Tid} (hinv : Inv (threadSchedulerEnqueue b.policy s next))
    (hcode : CodeOk s.currentThread s.running.point rest) :
    Outcome b keeps s (.requeue next) rest ((Piece.requeue next).perform b s e) :=
  .still rfl hinv ((enqueue_running_state b.policy s next).trans hrun) (outline_enqueue next) hcode

/-- A target that is not READY makes it a yield, in a section of its own. -/
theorem outcome_yieldTo {t : Tid} {k : Point} (ht : t ∈ s.handles)
    (hcode : CodeOk s.currentThread s.running.point (.piece (.yieldTo t k) :: rest)) :
    Outcome b keeps s (.yieldTo t k) rest ((Piece.yieldTo t k).perform b s e) := by
  by_cases hready : (s.threads t).state ≠ .ready
  · have hperform : (Piece.yieldTo t k).perform b s e =
        (s, [.unblock, .block, .piece (.yield k)]) := if_pos hready
    rw [hperform]
    exact .still rfl h hrun rfl hcode
  · obtain ⟨hfits, hends⟩ := hcode
    have hyields := threadYieldTo_yields (i := .resume .plain) hrun hfits h b.policy ht
    have hperform : (Piece.yieldTo t k).perform b s e =
        ((threadYieldTo b.policy s (some t) k).1, [.unblock]) := if_neg hready
    rw [hperform]
    exact .yielded rfl h hyields (threadYieldTo_leaves b.policy s t k) (hends _ (Or.inl rfl))
      (hends _ (Or.inr rfl))

omit hrun in
/-- Writing a priority moves the thread within the ready queue at most. -/
theorem priorityWritten_reprioritized (p : Policy) {t : Tid} (ht : t ∈ s.handles) (prio : Int) :
    Reprioritized s (priorityWritten p s t prio).1 := by
  have hset : Reprioritized s
      (s.modifyThread t fun x => { x with priority := clampPriority prio }) := .modify rfl
  have hset_inv := h.moves (i := .resume .plain) hset.move
  unfold priorityWritten
  cases p with
  | fifo => exact hset
  | prio =>
      dsimp only
      split
      next hready =>
        have hmem := (hset_inv.sched.ready.mem_iff t).mpr ⟨ht, hready⟩
        exact hset.trans (requeue_reprioritized .prio
          ((hset_inv.sched.threads_ok t ht).flag.mpr hready) (List.perm_cons_erase hmem).symm)
      next => exact hset

/-- A priority is written in one section, and a better thread started in the next. -/
theorem outcome_setPriority {t : Tid} {prio : Int} {k : Point} (ht : t ∈ s.handles)
    (hcode : CodeOk s.currentThread s.running.point (.piece (.setPriority t prio k) :: rest)) :
    Outcome b keeps s (.setPriority t prio k) rest
      ((Piece.setPriority t prio k).perform b s e) := by
  have hre := priorityWritten_reprioritized h b.policy ht prio
  have hinv := h.moves (i := .resume .plain) hre.move
  obtain ⟨-, hstate, -⟩ := hre.running
  have hsame : (priorityWritten b.policy s t prio).1.outline = s.outline := by
    obtain ⟨f, rq, -, heq⟩ := hre
    rw [heq]
    rfl
  simp only [Piece.perform]
  rcases hwritten : priorityWritten b.policy s t prio with ⟨s', _ | _⟩
  · rw [hwritten] at hinv hstate hsame
    exact .still rfl hinv (hstate.trans hrun) hsame (hcode.2 _ (Or.inl rfl))
  · rw [hwritten] at hinv hstate hsame
    exact .still rfl hinv (hstate.trans hrun) hsame hcode

theorem outcome_start (hcode : CodeOk s.currentThread s.running.point (.piece .start :: rest)) :
    Outcome b keeps s .start rest (Piece.start.perform b s e) := by
  obtain ⟨hentry, hends⟩ := hcode
  have hmove : Move (.resume .plain) s (s.setPoint s.currentThread .user) :=
    .toUser hrun (by rw [hentry]; exact ⟨rfl, rfl⟩)
  have hpoints := outline_setPoint (s := s) s.currentThread .user
  unfold State.outline at hpoints
  simp only [Prod.mk.injEq] at hpoints
  refine .plain rfl (h.move hmove) (Or.inr ?_) hpoints.1 (List.Subset.refl _) (hends _ rfl)
  simpa [State.setPoint, State.modifyThread, State.running] using hrun

/-- The end of a thread. -/
theorem outcome_exit {retval : Value}
    (hcode : CodeOk s.currentThread s.running.point (.piece (.exit retval) :: rest)) :
    Outcome b keeps s (.exit retval) rest ((Piece.exit retval).perform b s e) := by
  obtain ⟨hm, hend⟩ := threadExit_moves (i := .resume .plain) h b.policy retval hrun hcode.1
  obtain ⟨hpoints, hhandles⟩ := threadExit_outline b.policy s retval
  refine .plain rfl (h.moves hm) hend (k := s.running.point) ?_ ?_ trivial
  · rw [hpoints]
    exact (Function.update_eq_self _ _).symm
  · rw [hhandles]
    exact List.Subset.refl _

/-- A fault ends the thread or the process. -/
theorem outcome_fault (hcode : CodeOk s.currentThread s.running.point (.piece .fault :: rest)) :
    Outcome b keeps s .fault rest (Piece.fault.perform b s e) := by
  have hended : Outcome b keeps s .fault rest ({ s with ended := true }, [.dead]) := by
    refine .plain rfl (h.move (i := .resume .plain) .endProcess) (Or.inl rfl)
      (k := s.running.point) ?_ (List.Subset.refl _) trivial
    exact (Function.update_eq_self _ _).symm
  simp only [Piece.perform, enter]
  split
  · have hc := sigsegvHandler_completed (i := .resume .plain) h b.policy hrun hcode.1
    obtain ⟨hinv, hend⟩ := h.completed hc
    unfold sigsegvHandler at hinv hend ⊢
    split
    · exact hended
    next hstack =>
      rw [if_neg hstack] at hinv hend
      obtain ⟨hpoints, hhandles⟩ := threadExit_outline b.policy
        (s.modifyThread s.currentThread fun th => { th with stackOverflow := true }) 0
      have hflag := outline_modify (s := s) (t := s.currentThread)
        (f := fun th => { th with stackOverflow := true }) rfl
      refine .plain rfl hinv hend (k := s.running.point) ?_ ?_ trivial
      · rw [hpoints]
        exact (congrArg Prod.fst hflag).trans (Function.update_eq_self _ _).symm
      · rw [hhandles]
        exact List.Subset.refl _
  · exact hended

omit h hrun in
/-- `thread_join`, once its two checks have been passed. -/
theorem threadJoin_checked {t : Tid} (hfree : (s.threads t).joinedBy = none)
    (hne : t ≠ s.currentThread) (retval : Bool) :
    threadJoin s (some t) retval = joinChecked s t retval := by
  have hpassed : ¬ (s.threads t).joinedBy ≠ none := by simp [hfree]
  exact (if_neg hpassed).trans (if_neg hne)

/-- `thread_join` before its critical section refuses, or enters it. -/
theorem outcome_joinCheck {t : Option Tid} {retval : Bool}
    (hcode : CodeOk s.currentThread s.running.point (.piece (.joinCheck t retval) :: rest)) :
    Outcome b keeps s (.joinCheck t retval) rest ((Piece.joinCheck t retval).perform b s e) := by
  obtain ⟨huser, hends⟩ := hcode
  have huser : s.running.point = .user := huser
  rcases joinCheck_cases b s e t retval with ⟨err, code, heq⟩ | ⟨target, -, -, hne, heq⟩
  · have hback := Finishes.refuse (i := .resume .plain) hrun (settled_of_user huser) err
      (.threadJoin t retval) code
    rw [heq]
    exact .toUser rfl (h.moves hback.moves) (Or.inr hback.runs)
      (.stay (k := .user) (outline_setErrno err) code) (hends _ rfl)
  · rw [heq]
    refine .still rfl h hrun rfl ?_
    rw [huser]
    exact CodeOk.last (k := .user) ⟨rfl, hne⟩ (fun _ hq => hq) (hends _ rfl)

/-- The promise of the guarded runs lets the section register the caller. -/
theorem outcome_join {t : Tid} {retval : Bool} (hpromised : (Piece.join t retval).Promised s)
    (hcode : CodeOk s.currentThread s.running.point (.piece (.join t retval) :: rest)) :
    Outcome b keeps s (.join t retval) rest ((Piece.join t retval).perform b s e) := by
  obtain ⟨⟨huser, hne⟩, hends⟩ := hcode
  obtain ⟨hvalid, hjoins⟩ := hpromised
  obtain ⟨hfree, hready⟩ := hjoins t rfl
  have hc := threadJoin_completed (i := .call (.threadJoin (some t) retval) e) h hrun huser rfl
    hvalid
    (by
      rintro ⟨t', ht', hblocks, hq⟩
      cases ht'
      exact hready ⟨hblocks, hq⟩)
    (.threadJoin (some t) retval)
  rw [threadJoin_checked hfree hne] at hc
  exact .sectionEnd rfl (h.completed hc) (joinChecked_leaves s t retval) (hends _ rfl)
    (CodeOk.last (k := .join t retval) rfl (fun _ hq => hq) (hends _ rfl))

theorem outcome_joinClaim {t : Tid} {retval : Bool}
    (hcode : CodeOk s.currentThread s.running.point (.piece (.joinClaim t retval) :: rest)) :
    Outcome b keeps s (.joinClaim t retval) rest ((Piece.joinClaim t retval).perform b s e) := by
  obtain ⟨hk, hends⟩ := hcode
  have hc := joinResume_completed (i := .resume .plain) h hrun hk (.threadJoin (some t) retval)
  exact .sectionEnd rfl (h.completed hc) (joinResume_leaves (k := .user) s t retval) (hends _ rfl)
    (hends _ rfl)

/-- A wait releases the mutex, with or without a switch, and has still to lock it again.
-/
theorem outcome_condWait {c : CondId} {m : MutexId}
    (hcode : CodeOk s.currentThread s.running.point (.piece (.condWait c m) :: rest)) :
    Outcome b keeps s (.condWait c m) rest ((Piece.condWait c m).perform b s e) := by
  obtain ⟨huser, hends⟩ := hcode
  have huser : s.running.point = .user := huser
  have hrelock : ∀ (k : Point) (code : Int), k.Settled → CodeOk s.currentThread k
      ([.unblock, .block, .piece (.condRelock c m code)] ++ rest) :=
    fun k code hk => CodeOk.last (k := k) hk (fun _ hq => hq) (hends _ rfl)
  by_cases hq : s.readyQueue = []
  · have hr := releaseMutex_release h b.policy m
    obtain ⟨-, hsame⟩ := h.release_running hr hrun
    simp only [Piece.perform, if_pos hq]
    exact .still rfl (h.release hr) (by rw [hsame, hrun]) (outline_releaseMutex m)
      (hrelock _ _ (settled_of_user huser))
  · have hserved := threadCondWait_served h hrun huser b.policy (some c) (some m)
      (i := .call (.threadCondWait (some c) (some m)) e) rfl
    have hleaves := threadCondWait_leaves b.policy hq c m
    have hinv := h.stretch hserved.stretch
    simp only [Piece.perform, if_neg hq]
    generalize threadCondWait b.policy s (some c) (some m) = r at hserved hleaves hinv
    cases hleaves with
    | returns code hpoints hcurrent hhandles =>
        refine .plain rfl hinv (Or.inr (hserved.returns code rfl).1) (k := s.running.point) ?_
          hhandles (hrelock _ _ (settled_of_user huser))
        rw [hpoints]
        exact (Function.update_eq_self _ _).symm
    | switches hpoints hhandles =>
        exact .plain rfl hinv (hserved.switched rfl) hpoints hhandles
          (hrelock _ _ ⟨rfl, rfl⟩)

theorem outcome_condRelock {c : CondId} {m : MutexId} {code : Int}
    (hcode : CodeOk s.currentThread s.running.point (.piece (.condRelock c m code) :: rest)) :
    Outcome b keeps s (.condRelock c m code) rest ((Piece.condRelock c m code).perform b s e) := by
  obtain ⟨hsettled, hends⟩ := hcode
  obtain ⟨s₁, ha, hm, hrun', hpoint⟩ := condRelock_acquire (i := .resume .plain) h hrun c m code
    hsettled
  have hinv := (h.acquire (m := m) rfl ha).moves hm
  have hc := hinv.served (Or.inr hrun') (fun code' hcode' => ⟨hrun', hpoint code' hcode'⟩)
    (.threadCondWait (some c) (some m))
  exact .sectionEnd rfl hc (condRelock_leaves s c m code) (hends _ rfl) ⟨⟨rfl, rfl⟩, hends _ rfl⟩

theorem outcome_sigwait {set : BitVec 32}
    (hcode : CodeOk s.currentThread s.running.point (.piece (.sigwait set) :: rest)) :
    Outcome b keeps s (.sigwait set) rest ((Piece.sigwait set).perform b s e) := by
  obtain ⟨hsettled, hends⟩ := hcode
  have hserved := sigwaitLoop_served (i := .resume .plain) h hrun set hsettled
  exact .sectionEnd rfl (h.completed (hserved.completed (.threadSigwait set true)))
    (sigwaitLoop_leaves s set) (hends _ rfl)
    (CodeOk.last (k := .sigwait set) ⟨rfl, rfl⟩ (fun _ hq => hq) (hends _ rfl))

theorem outcome_assign {q : QueueId} {v : Int}
    (hcode : CodeOk s.currentThread s.running.point (.piece (.assign q v) :: rest)) :
    Outcome b keeps s (.assign q v) rest ((Piece.assign q v).perform b s e) := by
  obtain ⟨huser, hends⟩ := hcode
  have huser : s.running.point = .user := huser
  have hrest : CodeOk s.currentThread s.running.point ([] ++ rest) := by
    rw [huser]
    exact hends _ rfl
  cases q with
  | mutex m => exact .still rfl ((h.setLocked m v).emit _) hrun rfl hrest
  | sem sm => exact .still rfl ((h.setCount sm v).emit _) hrun rfl hrest
  | cond c => exact .still rfl h hrun rfl hrest

theorem outcome_tailqInit {q : QueueId}
    (hcode : CodeOk s.currentThread s.running.point (.piece (.tailqInit q) :: rest)) :
    Outcome b keeps s (.tailqInit q) rest ((Piece.tailqInit q).perform b s e) := by
  obtain ⟨huser, hends⟩ := hcode
  have huser : s.running.point = .user := huser
  refine .still rfl (h.initQueue q) hrun rfl ?_
  rw [huser]
  exact hends _ rfl

/-- The destruction of an object returns at once, or has still to mark the object. -/
theorem outcome_tailqEmpty {c : Call} {q : QueueId} {v : Int}
    (hcode : CodeOk s.currentThread s.running.point (.piece (.tailqEmpty c q v) :: rest)) :
    Outcome b keeps s (.tailqEmpty c q v) rest ((Piece.tailqEmpty c q v).perform b s e) := by
  obtain ⟨huser, hends⟩ := hcode
  have huser : s.running.point = .user := huser
  have hreturn : ∀ code, CodeOk s.currentThread .user (.ret c code :: rest) :=
    fun _ => ⟨Point.settled_user, hends _ rfl⟩
  refine .still rfl h hrun rfl ?_
  rw [huser]
  split
  · exact hreturn _
  · exact CodeOk.last rfl (fun _ hq => hq) (hreturn _)

/-- A call that is one critical section returns from it, or is suspended in it. -/
theorem outcome_critical {c : Call} (hproper : (Piece.critical c).Proper)
    (hpromised : (Piece.critical c).Promised s) (hfresh : e.Fresh s)
    (hcode : CodeOk s.currentThread s.running.point (.piece (.critical c) :: rest)) :
    Outcome b keeps s (.critical c) rest ((Piece.critical c).perform b s e) := by
  obtain ⟨huser, hends⟩ := hcode
  obtain ⟨k, hsettled, hleaves⟩ := enter_leaves hproper b s e
  have hregular : Regular s (.call c e) := by
    cases Call.critical_of_code hproper with
    | signalSend t sig hsig =>
        refine ⟨fun t' ht' => ?_, by simp [EmptyExit, Input.joinTarget]⟩
        obtain rfl : t = t' := Option.some.inj ht'
        exact hpromised.1 t rfl
    | _ => exact ⟨by simp [ValidHandle, Input.handle], by simp [EmptyExit, Input.joinTarget]⟩
  have hc := enter_completed h hrun b c e rfl huser hfresh hregular
  exact .sectionEnd rfl (h.completed hc) hleaves (hends _ rfl) ⟨hsettled, hends _ rfl⟩

/-- A call without a critical section returns at once, or ends the process. -/
theorem outcome_direct {c : Call} (hproper : (Piece.direct c).Proper)
    (hcode : CodeOk s.currentThread s.running.point (.piece (.direct c) :: rest)) :
    Outcome b keeps s (.direct c) rest ((Piece.direct c).perform b s e) := by
  obtain ⟨huser, hends⟩ := hcode
  have huser : s.running.point = .user := huser
  obtain ⟨hinv, hsame, hrunning⟩ : Inv (enter b s c e).1 ∧ (enter b s c e).1.outline = s.outline ∧
      (enter b s c e).1.running = s.running := by
    rcases enter_direct hproper b s e with ⟨errno, heq⟩ | ⟨cond, heq⟩ | heq
    · rw [heq]
      exact ⟨h.move (i := .resume .plain) (.errno errno), rfl, rfl⟩
    · rw [heq]
      exact ⟨(h.initQueue _).emit _, rfl, rfl⟩
    · rw [heq]
      exact ⟨h.move (i := .resume .plain) .endProcess, rfl, rfl⟩
  have hrun' : (enter b s c e).1.running.state = .running := by rw [hrunning, hrun]
  have hsettled : (enter b s c e).1.running.point.Settled := by
    rw [hrunning]
    exact settled_of_user huser
  simp only [Piece.perform]
  rcases hr : enter b s c e with ⟨s', _ | code⟩
  · rw [hr] at hinv hrun' hsame
    refine .still rfl hinv hrun' hsame ?_
    rw [huser]
    exact hends _ rfl
  · rw [hr] at hinv hrun' hsame hsettled
    have hback := Finishes.toUser (i := .resume .plain) hrun' hsettled c code
    exact .toUser rfl (hinv.moves hback.moves) (Or.inr hback.runs) (.stay (k := .user) hsame code)
      (hends _ rfl)

end Pieces

end UserThreads
