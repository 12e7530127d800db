import Mathlib.Data.Fintype.EquivFin
import UserThreads.History.Crew

/-!
# Fork-join programs compute what their serial elision computes

Whatever the policy, and in whatever order the threads run, a program that forks
and joins ends with the result of the program in which every creation is a call.
No join fails on the way, every thread has been joined at the end, and the number
of steps is bounded by the serial work.
-/

namespace UserThreads

open Transition

/-- The environments of a run that is executed: each step has memory of its own. -/
def Env.supply (steps : Nat) : List Env :=
  (List.range' 1 steps).map fun n =>
    { Env.plain with
      thread := some n
      stack := { map := some (n * 65536), mprotect := true, valgrindId := n } }

namespace Crew

variable {α ω : Type} {func : α → Code α Value ω} {b : Build} {v : Result ω}

/-- A run goes on with at most `n` steps before it, or it is over. -/
inductive Held (func : α → Code α Value ω) (b : Build) (v : Result ω) (n : Nat)
    (x : Crew α ω) : Prop
  | going (hfailed : x.failed = false) (hended : x.lib.ended = false) {goal : Tid → Result ω}
      {work : Tid → Nat} (hcoherent : Coherent func b goal work x) (hgoal : goal mainThread = v)
      (hbound : x.total work ≤ n)
  | finished (hfailed : x.failed = false) (hended : x.lib.ended = true)
      (houtcome : x.outcome = some v) (hhandles : x.lib.handles = [mainThread])

section Going

variable {x x' : Crew α ω} {goal : Tid → Result ω} {work : Tid → Nat} {s' : State} {n : Nat}
  (h : Coherent func b goal work x) (hgoal : goal mainThread = v) (hfailed : x.failed = false)
  (hended : x.lib.ended = false) (hbound : x.total work ≤ n)
include h hgoal hfailed hended hbound

/-- A thread goes on or stays in its call, with less work before it. -/
theorem Held.goOn {k : Point} {code : Code α Value ω} {m : Nat}
    (hreach : RegularReach b s') (hshows : Shows x.lib.currentThread k x.lib s')
    (hhandles : s'.handles = x.lib.handles)
    (hmeaning : Evaluates func ((x.kids x.lib.currentThread).map goal) code
      (goal x.lib.currentThread) m)
    (hstands : Stands { x with
      lib := s', code := Function.update x.code x.lib.currentThread code } x.lib.currentThread)
    (hwait : ∀ u ∈ k.target, u ∈ x.lib.handles ∧ (x.lib.threads u).state ≠ .terminated)
    (hless : remaining { x with
        lib := s', code := Function.update x.code x.lib.currentThread code }
      (Function.update work x.lib.currentThread m) x.lib.currentThread <
        x.remaining work x.lib.currentThread) :
    ∃ n' < n, Held func b v n' { x with
      lib := s', code := Function.update x.code x.lib.currentThread code } := by
  have hrun := h.reach.sound.runs hended
  have hcoherent := h.goOn hreach hrun hshows hhandles hmeaning hstands hwait
  have htotal := Coherent.total_lt (x := x) h.inv.sched.current_mem hhandles
    (fun t ht htc => Coherent.remaining_congr (hshows.face t ht) (hshows.point t ht htc)
      (Function.update_of_ne htc _ _)) hless
  exact ⟨_, Nat.lt_of_lt_of_le htotal hbound,
    .going hfailed (hshows.ended.trans hended) hcoherent hgoal (Nat.le_refl _)⟩

/-- What a switch away from a call leaves of the code. -/
theorem Held.away {k : Point} (hreach : RegularReach b s')
    (hshows : Shows x.lib.currentThread k x.lib s') (hhandles : s'.handles = x.lib.handles)
    (hstands : Stands { x with lib := s' } x.lib.currentThread)
    (hwait : ∀ u ∈ k.target, u ∈ x.lib.handles ∧ (x.lib.threads u).state ≠ .terminated)
    (hless : remaining { x with lib := s' } work x.lib.currentThread <
      x.remaining work x.lib.currentThread) :
    ∃ n' < n, Held func b v n' { x with lib := s' } := by
  have hcode : Function.update x.code x.lib.currentThread (x.code x.lib.currentThread) = x.code :=
    Function.update_eq_self _ _
  have hwork : Function.update work x.lib.currentThread (work x.lib.currentThread) = work :=
    Function.update_eq_self _ _
  have hheld := Held.goOn h hgoal hfailed hended hbound hreach hshows hhandles
    (h.meaning _ h.inv.sched.current_mem)
  rw [hcode, hwork] at hheld
  exact hheld hstands hwait hless

/-- A join has returned, at once or later. -/
theorem Held.received [Inhabited ω] {c : Call} {i m : Nat} {u : Tid} {retval : Bool}
    {rest : Option Value × ω → Code α Value ω} (hreach : RegularReach b s')
    (hcode : x.code x.lib.currentThread = .join i retval rest)
    (hkid : (x.kids x.lib.currentThread)[i]? = some u)
    (hdead : (x.lib.threads u).state = .terminated) (hjoined : Joined u retval c x.lib s')
    (hrest : Evaluates func (((x.kids x.lib.currentThread).map goal).eraseIdx i)
      (rest (known retval (goal u))) (goal x.lib.currentThread) m)
    (hless : m < x.remaining work x.lib.currentThread) :
    ∃ n' < n, Held func b v n' (x.answer func x.lib.currentThread s') := by
  have hrun := h.reach.sound.runs hended
  have hlive := h.running_live hended
  have hu := h.family.kid_mem h.inv.sched.current_mem (List.mem_of_getElem? hkid)
  obtain ⟨id, id', code, past, htrace⟩ := hjoined.stored
  have hanswer : x.answer func x.lib.currentThread s' = Crew.receive { x with lib := s' }
      x.lib.currentThread i u (storedRetval x.lib u retval) rest := by
    simp [answer, hcode, htrace, hkid]
  rw [hanswer]
  have hcoherent := h.receive hreach hrun hkid hdead hjoined hrest
  refine ⟨_, ?_,
    .going hfailed (hjoined.shows.ended.trans hended) hcoherent hgoal (Nat.le_refl _)⟩
  exact Nat.lt_of_lt_of_le (h.receive_total_lt hlive hu hdead hjoined hless) hbound

variable (huser : x.lib.running.point = .user)
include huser

/-- The call of `thread_yield`. -/
theorem Held.yield [Inhabited ω] {rest : Code α Value ω}
    (hcode : x.code x.lib.currentThread = .yield rest) (hreach : RegularReach b s')
    (hs : s' = finish .threadYield (threadYield b.policy x.lib (.yielded .threadYield))) :
    ∃ n' < n, Held func b v n' (x.answer func x.lib.currentThread s') := by
  have hrun := h.reach.sound.runs hended
  have hcur := h.inv.sched.current_mem
  have hmeaning := h.meaning _ hcur
  rw [hcode] at hmeaning
  obtain ⟨m, hwork, hrest⟩ := hmeaning.yield_inv
  have hlive := h.running_live hended
  have hremaining := remaining_user work hlive huser
  obtain ⟨hhandles, hcases⟩ := (threadYield_case h.inv hrun b.policy (.yielded .threadYield)).shows
    hrun
  rw [← hs] at hhandles hcases
  rcases hcases with ⟨hshows, id, past, htrace⟩ | ⟨hshows, id, old, new, k, w, past, htrace⟩
  · have hanswer : x.answer func x.lib.currentThread s' = { x with
        lib := s', code := Function.update x.code x.lib.currentThread rest } := by
      simp only [answer, hcode, htrace]
      rfl
    rw [hanswer]
    refine Held.goOn h hgoal hfailed hended hbound hreach hshows hhandles hrest (.user hshows.own)
      (fun u hu => by cases hu) ?_
    rw [remaining_user _ (hshows.live hcur hlive) hshows.own, Function.update_self, hremaining]
    omega
  · have hanswer : x.answer func x.lib.currentThread s' = { x with lib := s' } := by
      simp only [answer, hcode, htrace]
    rw [hanswer]
    refine Held.away h hgoal hfailed hended hbound hreach hshows hhandles
      (.yielded hshows.own hcode) (fun u hu => by cases hu) ?_
    rw [remaining_call _ (hshows.live hcur hlive) (by simp [hshows.own]) (by simp [hshows.own]),
      hremaining]
    omega

/-- The call of `thread_create`. -/
theorem Held.fork [Inhabited ω] {a : α} {rest : Code α Value ω} {e : Env} (hgrants : e.Grants)
    (hfresh : e.Fresh x.lib) (hcode : x.code x.lib.currentThread = .fork a rest)
    (hreach : RegularReach b s')
    (hs : s' = finish (.threadCreate true true) (threadCreate b x.lib true true e)) :
    ∃ n' < n, Held func b v n' (x.answer func x.lib.currentThread s') := by
  have hrun := h.reach.sound.runs hended
  have hcur := h.inv.sched.current_mem
  have hmeaning := h.meaning _ hcur
  rw [hcode] at hmeaning
  obtain ⟨w, m, k, hwork, hcall, hrest⟩ := hmeaning.fork_inv
  have hlive := h.running_live hended
  have hremaining := remaining_user work hlive huser
  obtain ⟨child, hnew, hcreated⟩ := threadCreate_created h.inv hrun huser b hgrants hfresh
    (.threadCreate true true)
  rw [← hs] at hcreated
  have hshows := hcreated.shows
  obtain ⟨id, id', past, htrace⟩ := hcreated.stored
  have hanswer : x.answer func x.lib.currentThread s' =
      Crew.adopt func { x with lib := s' } x.lib.currentThread child a rest := by
    simp [answer, hcode, htrace]
  rw [hanswer]
  have hcoherent := h.adopt hreach hrun hnew hcreated hcall hrest
  refine ⟨_, ?_, .going hfailed (hshows.ended.trans hended) hcoherent ?_ (Nat.le_refl _)⟩
  · exact Nat.lt_of_lt_of_le (h.adopt_total_lt hlive huser hnew hcreated hwork) hbound
  · have hne : mainThread ≠ child := fun heq => hnew (heq ▸ h.family.root_mem)
    rw [Function.update_of_ne hne, hgoal]

/-- The call of `thread_join`. -/
theorem Held.join [Inhabited ω] {i : Nat} {u : Tid} {retval : Bool}
    {rest : Option Value × ω → Code α Value ω}
    (hcode : x.code x.lib.currentThread = .join i retval rest)
    (hkid : (x.kids x.lib.currentThread)[i]? = some u) (hreach : RegularReach b s')
    (hs : s' = finish (.threadJoin (some u) retval) (threadJoin x.lib (some u) retval)) :
    ∃ n' < n, Held func b v n' (x.answer func x.lib.currentThread s') := by
  have hrun := h.reach.sound.runs hended
  have hcur := h.inv.sched.current_mem
  have hmeaning := h.meaning _ hcur
  rw [hcode] at hmeaning
  obtain ⟨w, m, hwork, hw, hrest⟩ := hmeaning.join_inv
  rw [List.getElem?_map, hkid] at hw
  obtain rfl : goal u = w := Option.some.inj hw
  have hlive := h.running_live hended
  have hremaining := remaining_user work hlive huser
  have hu := h.family.kid_mem hcur (List.mem_of_getElem? hkid)
  by_cases hdead : (x.lib.threads u).state = .terminated
  · obtain ⟨hfree, hne⟩ := h.kid_free huser (List.mem_of_getElem? hkid)
    have hjoined := threadJoin_terminated hfree hne hdead retval (.threadJoin (some u) retval)
    rw [← hs] at hjoined
    exact Held.received h hgoal hfailed hended hbound hreach hcode hkid hdead hjoined hrest
      (by omega)
  · obtain ⟨hblocks, hready⟩ := h.joinBlocks huser (List.mem_of_getElem? hkid) hdead
    obtain ⟨hhandles, hshows, id, old, new, k, waker, past, htrace⟩ :=
      threadJoin_blocks h.inv hrun hblocks hready retval (.threadJoin (some u) retval)
    rw [← hs] at hhandles hshows htrace
    have hanswer : x.answer func x.lib.currentThread s' = { x with lib := s' } := by
      simp only [answer, hcode, htrace]
    rw [hanswer]
    refine Held.away h hgoal hfailed hended hbound hreach hshows hhandles
      (.join hshows.own hcode hkid) (fun u' hu' => ?_) ?_
    · obtain rfl := Option.some.inj hu'
      exact ⟨hu, hdead⟩
    · rw [remaining_call _ (hshows.live hcur hlive) (by simp [hshows.own]) (by simp [hshows.own]),
        hremaining]
      omega

/-- The return from a start function. -/
theorem Held.ret [Inhabited ω] {w : Result ω} (hcode : x.code x.lib.currentThread = .ret w)
    (hmain : x.lib.currentThread ≠ mainThread) (hreach : RegularReach b s')
    (hs : s' = threadExit b.policy x.lib w.1) :
    ∃ n' < n, Held func b v n' (x.answer func x.lib.currentThread s') := by
  have hrun := h.reach.sound.runs hended
  have hcur := h.inv.sched.current_mem
  have hmeaning := h.meaning _ hcur
  rw [hcode] at hmeaning
  obtain ⟨-, -, hwork⟩ := hmeaning.ret_inv
  have hremaining := remaining_user work (h.running_live hended) huser
  have hleft := threadExit_left h.inv hrun b.policy w.1 (h.exit_next hmain)
  rw [← hs] at hleft
  have hanswer : x.answer func x.lib.currentThread s' = { x with
      lib := s', cell := Function.update x.cell x.lib.currentThread w.2 } := by
    simp [answer, hcode, hmain]
  rw [hanswer]
  have hcoherent := h.leave hreach hmain hcode hleft
  have hgone : remaining { x with
      lib := s', cell := Function.update x.cell x.lib.currentThread w.2 } work
      x.lib.currentThread = 0 := by
    refine if_pos ?_
    simpa [Thread.face] using congrArg (·.2.2.2) hleft.own
  have htotal : total { x with
      lib := s', cell := Function.update x.cell x.lib.currentThread w.2 } work < x.total work := by
    refine Coherent.total_lt hcur hleft.handles (fun t ht htc => ?_) (by omega)
    exact Coherent.remaining_congr (hleft.face t ht htc) (hleft.point t) rfl
  exact ⟨_, Nat.lt_of_lt_of_le htotal hbound,
    .going hfailed (hleft.ended.trans hended) hcoherent hgoal (Nat.le_refl _)⟩

/-- The return from `main`. -/
theorem Held.finish [Inhabited ω] {w : Result ω} (hcode : x.code x.lib.currentThread = .ret w)
    (hmain : x.lib.currentThread = mainThread) (hs : s' = { x.lib with ended := true }) :
    ∃ n' < n, Held func b v n' (x.answer func x.lib.currentThread s') := by
  have hcur := h.inv.sched.current_mem
  have hmeaning := h.meaning _ hcur
  rw [hcode] at hmeaning
  obtain ⟨hkids, hvalue, hwork⟩ := hmeaning.ret_inv
  have hremaining := remaining_user work (h.running_live hended) huser
  rw [hmain] at hcode hkids hvalue hwork hremaining
  have hanswer : x.answer func mainThread s' = { x with lib := s', outcome := some w } := by
    simp [answer, hcode]
  have hhandles : x.lib.handles = [mainThread] :=
    h.family.alone h.nodup (fun t => (x.lib.threads t).id) h.older (List.map_eq_nil_iff.mp hkids)
  have htotal : x.total work = 1 := by
    unfold total
    rw [hhandles]
    simp [hremaining, hwork]
  refine ⟨0, by omega, ?_⟩
  rw [hmain, hanswer]
  refine .finished hfailed ?_ ?_ ?_
  · rw [hs]
  · simp only [← hgoal, hvalue]
  · rw [hs]
    exact hhandles

omit huser in
/-- The end of a call that had switched, and the start of a thread. -/
theorem Held.resume [Inhabited ω] {e : Env}
    (hs : UserThreads.step b x.lib (.resume e) = some s') :
    (x.lib.running.point = .entry → ∃ n' < n, Held func b v n' { x with lib := s' }) ∧
      (x.lib.running.point ≠ .entry →
        ∃ n' < n, Held func b v n' (x.answer func x.lib.currentThread s')) := by
  have hcur := h.inv.sched.current_mem
  have hrun := h.reach.sound.runs hended
  have hlive := h.running_live hended
  have hmeaning := h.meaning _ hcur
  have hreach : RegularReach b s' := .tail h.reach
    ⟨by simp [ValidHandle, Input.handle], by simp [EmptyExit, Input.joinTarget]⟩ hs
  have hcontinue := step_resume hs
  cases h.stands _ hcur with
  | user hk =>
      rw [State.running, hk] at hcontinue
      cases hcontinue
  | entry hk =>
      refine ⟨fun _ => ?_, fun hne => absurd hk hne⟩
      rw [State.running, hk] at hcontinue
      obtain rfl := Option.some.inj hcontinue
      have hshows : Shows x.lib.currentThread .user x.lib
          (x.lib.setPoint x.lib.currentThread .user) :=
        .write (a := { x.lib.running with point := .user }) rfl rfl rfl
      refine Held.away h hgoal hfailed hended hbound hreach hshows rfl (.user hshows.own)
        (fun u hu => by cases hu) ?_
      have hremaining : x.remaining work x.lib.currentThread = work x.lib.currentThread + 1 := by
        simp [remaining, hlive, hk]
      rw [remaining_user _ (hshows.live hcur hlive) hshows.own, hremaining]
      exact Nat.lt_succ_self _
  | @yielded rest hk hcode =>
      have hk' : x.lib.running.point = .yielded .threadYield := hk
      refine ⟨fun hentry => by simp [hk'] at hentry, fun _ => ?_⟩
      rw [hk'] at hcontinue
      obtain rfl := Option.some.inj hcontinue
      rw [hcode] at hmeaning
      obtain ⟨m, hwork, hrest⟩ := hmeaning.yield_inv
      have hshows := finish_shows (s := x.lib) .threadYield 0
      have hanswer : x.answer func x.lib.currentThread
          (UserThreads.finish .threadYield (x.lib, some 0)) = { x with
            lib := UserThreads.finish .threadYield (x.lib, some 0)
            code := Function.update x.code x.lib.currentThread rest } := by
        simp only [answer, hcode]
        rfl
      rw [hanswer]
      refine Held.goOn h hgoal hfailed hended hbound hreach hshows rfl hrest (.user hshows.own)
        (fun u hu => by cases hu) ?_
      rw [remaining_user _ (hshows.live hcur hlive) hshows.own, Function.update_self,
        remaining_call work hlive (by simp [hk]) (by simp [hk]), hwork]
      omega
  | @join i u retval rest hk hcode hkid =>
      have hk' : x.lib.running.point = .join u retval := hk
      refine ⟨fun hentry => by simp [hk'] at hentry, fun _ => ?_⟩
      rw [hk'] at hcontinue
      have hs' := (Option.some.inj hcontinue).symm
      rw [hcode] at hmeaning
      obtain ⟨w, m, hwork, hw, hrest⟩ := hmeaning.join_inv
      rw [List.getElem?_map, hkid] at hw
      obtain rfl : goal u = w := Option.some.inj hw
      have hu := h.family.kid_mem hcur (List.mem_of_getElem? hkid)
      -- A joiner runs again only when its target has terminated.
      have hdead : (x.lib.threads u).state = .terminated := by
        by_contra hne
        have hblocked := h.inv.join.blocked _ hcur u (by rw [hk]; rfl) hne
        rw [← State.running, hrun] at hblocked
        cases hblocked
      have hne : u ≠ x.lib.currentThread := by
        rintro rfl
        exact hlive hdead
      have hjoined := joinResume_joined hrun hne (h.intact u hu) retval
        (.threadJoin (some u) retval)
      rw [← hs'] at hjoined
      refine Held.received h hgoal hfailed hended hbound hreach hcode hkid hdead hjoined hrest ?_
      rw [remaining_call work hlive (by simp [hk]) (by simp [hk]), hwork]
      omega

/-- A call, whichever the code asks for. -/
theorem Held.call [Inhabited ω] {e : Env} (hgrants : e.Grants)
    (hs : UserThreads.step b x.lib (.call (x.request x.lib.currentThread) e) = some s') :
    ∃ n' < n, Held func b v n' (x.answer func x.lib.currentThread s') := by
  have hcur := h.inv.sched.current_mem
  obtain ⟨-, hfresh, hs'⟩ := step_call_fresh hs
  cases hcode : x.code x.lib.currentThread with
  | ret w =>
      by_cases hmain : x.lib.currentThread = mainThread
      · have hcall : x.request x.lib.currentThread = .exit := by
          simp only [request, hcode, if_pos hmain]
        rw [hcall] at hs'
        exact Held.finish h hgoal hfailed hended hbound huser hcode hmain hs'
      · have hcall : x.request x.lib.currentThread = .threadExit w.1 := by
          simp [request, hcode, hmain]
        rw [hcall] at hs hs'
        have hreach : RegularReach b s' := .tail h.reach
          ⟨by simp [ValidHandle, Input.handle], by simp [EmptyExit, Input.joinTarget]⟩ hs
        exact Held.ret h hgoal hfailed hended hbound huser hcode hmain hreach hs'
  | yield rest =>
      have hcall : x.request x.lib.currentThread = .threadYield := by simp [request, hcode]
      rw [hcall] at hs hs'
      have hreach : RegularReach b s' := .tail h.reach
        ⟨by simp [ValidHandle, Input.handle], by simp [EmptyExit, Input.joinTarget]⟩ hs
      exact Held.yield h hgoal hfailed hended hbound huser hcode hreach hs'
  | fork a rest =>
      have hcall : x.request x.lib.currentThread = .threadCreate true true := by
        simp [request, hcode]
      rw [hcall] at hs hs'
      have hreach : RegularReach b s' := .tail h.reach
        ⟨by simp [ValidHandle, Input.handle], by simp [EmptyExit, Input.joinTarget]⟩ hs
      exact Held.fork h hgoal hfailed hended hbound huser hgrants hfresh hcode hreach hs'
  | join i retval rest =>
      have hmeaning := h.meaning _ hcur
      rw [hcode] at hmeaning
      obtain ⟨w, m, -, hw, -⟩ := hmeaning.join_inv
      rw [List.getElem?_map] at hw
      obtain ⟨u, hkid, -⟩ := Option.map_eq_some_iff.mp hw
      have hcall : x.request x.lib.currentThread = .threadJoin (some u) retval := by
        simp [request, hcode, hkid]
      rw [hcall] at hs hs'
      have hkid' := List.mem_of_getElem? hkid
      have hregular : Regular x.lib (.call (.threadJoin (some u) retval) e) := by
        constructor
        · rintro t ht
          obtain rfl := Option.some.inj ht
          exact h.family.kid_mem hcur hkid'
        · rintro ⟨t, ht, hblocks, hempty⟩
          obtain rfl := Option.some.inj ht
          exact (h.joinBlocks huser hkid' hblocks.2.2.1).2 hempty
      exact Held.join h hgoal hfailed hended hbound huser hcode hkid
        (.tail h.reach hregular hs) hs'
  | fail =>
      have hmeaning := h.meaning _ hcur
      rw [hcode] at hmeaning
      exact absurd hmeaning Evaluates.not_fail

end Going

/-- Every step of a run takes one from the steps it has before it. -/
theorem Held.step [Inhabited ω] {x x' : Crew α ω} {n : Nat} {e : Env} (h : Held func b v n x)
    (hgrants : e.Grants) (hs : x.step func b e = some x') : ∃ n' < n, Held func b v n' x' := by
  cases h with
  | finished hfailed hended houtcome hhandles =>
      have hnone : ∀ i, UserThreads.step b x.lib i = none := fun i => by
        simp [UserThreads.step, hended]
      unfold Crew.step at hs
      rw [hfailed] at hs
      simp only [hnone, Option.map_none, Bool.false_eq_true, if_false] at hs
      split at hs <;> cases hs
  | @going hfailed hended goal work h hgoal hbound =>
      unfold Crew.step at hs
      rw [if_neg (by simp [hfailed])] at hs
      dsimp only at hs
      split at hs
      next hk =>
        obtain ⟨s', hstep, rfl⟩ := Option.map_eq_some_iff.mp hs
        exact Held.call h hgoal hfailed hended hbound hk hgrants hstep
      next hk =>
        obtain ⟨s', hstep, rfl⟩ := Option.map_eq_some_iff.mp hs
        exact (Held.resume h hgoal hfailed hended hbound hstep).1 hk
      next huser hentry =>
        obtain ⟨s', hstep, rfl⟩ := Option.map_eq_some_iff.mp hs
        exact (Held.resume h hgoal hfailed hended hbound hstep).2 hentry

/-- A run of a list of environments takes that many from them. -/
theorem Held.run [Inhabited ω] {x y : Crew α ω} {n : Nat} {es : List Env}
    (h : Held func b v n x)
    (hs : Transition.run (Crew.step func b) (fun _ e => e.Grants) x es = some y) :
    ∃ n', es.length + n' ≤ n ∧ Held func b v n' y := by
  induction es generalizing x n with
  | nil =>
      obtain rfl : x = y := by simpa [Transition.run] using hs
      exact ⟨n, by simp, h⟩
  | cons e rest ih =>
      by_cases hgrants : e.Grants
      · simp only [Transition.run, hgrants, if_true] at hs
        obtain ⟨x₁, hstep, hrest⟩ := Option.bind_eq_some_iff.mp hs
        obtain ⟨n₁, hlt, h₁⟩ := h.step hgrants hstep
        obtain ⟨n', hle, h'⟩ := ih h₁ hrest
        exact ⟨n', by simp only [List.length_cons]; omega, h'⟩
      · simp [Transition.run, hgrants] at hs

/-- `main` starts with all the work before it. -/
theorem coherent_initial [Inhabited ω] {a : α} {n : Nat}
    (heval : Evaluates func [] (func a) v n) (b : Build) :
    Coherent func b (fun _ => v) (fun _ => n) (Crew.initial func a) where
  reach := .refl
  family := by
    unfold Family
    simp [Crew.initial, State.initial]
  older := by simp [Crew.initial]
  meaning := fun _ _ => heval
  stands := fun _ _ => .user rfl
  dead := by simp [Crew.initial, State.initial, Thread.main]
  intact := by simp [Crew.initial, State.initial, Thread.main]
  waiting := by simp [Crew.initial, State.initial, Thread.main]

theorem Held.initial [Inhabited ω] {a : α} {n : Nat} (heval : Evaluates func [] (func a) v n)
    (b : Build) : Held func b v n (Crew.initial func a) := by
  refine .going rfl rfl (coherent_initial heval b) rfl (le_of_eq ?_)
  simp [total, remaining, Crew.initial, State.initial, Thread.main]

/-- There is memory that is not in use. -/
theorem exists_grants (s : State) : ∃ e : Env, e.Grants ∧ e.Fresh s := by
  obtain ⟨t, ht⟩ := Infinite.exists_notMem_finset (mainThread :: s.heap).toFinset
  obtain ⟨map, hmap⟩ := Infinite.exists_notMem_finset s.mappings.toFinset
  refine ⟨{ Env.plain with
    thread := some t, stack := { map := some map, mprotect := true, valgrindId := 0 } }, ?_, ?_⟩
  · simp [Env.Grants, Env.plain]
  · simp only [List.mem_toFinset, List.mem_cons, not_or] at ht hmap
    simpa [Env.Fresh] using ⟨ht, hmap⟩

/-- As long as the process has not ended it can take a step. -/
theorem Held.goesOn [Inhabited ω] {x : Crew α ω} {n : Nat} (h : Held func b v n x)
    (hended : x.lib.ended = false) : ∃ e x', e.Grants ∧ x.step func b e = some x' := by
  obtain ⟨e, hgrants, hfresh⟩ := exists_grants x.lib
  cases h with
  | finished hfailed hended' =>
      rw [hended] at hended'
      cases hended'
  | @going hfailed _ goal work h hgoal hbound =>
      have hcall : ∀ c, (x.lib.threads x.lib.currentThread).point = .user →
          ∃ s', UserThreads.step b x.lib (.call c e) = some s' := fun c hk =>
        ⟨_, by simp only [UserThreads.step, hended, hk, hfresh]; rfl⟩
      have hresume : (x.lib.threads x.lib.currentThread).point ≠ .user →
          ∃ s', UserThreads.step b x.lib (.resume e) = some s' := by
        intro hk
        simp only [UserThreads.step, hended, hfresh, Bool.false_eq_true, if_false, if_true]
        cases hpoint : (x.lib.threads x.lib.currentThread).point with
        | user => exact absurd hpoint hk
        | _ => exact ⟨_, rfl⟩
      have hsome : ∃ x', x.step func b e = some x' := by
        unfold Crew.step
        rw [if_neg (by simp [hfailed])]
        dsimp only
        split
        next hk =>
          obtain ⟨s', hs'⟩ := hcall (x.request x.lib.currentThread) hk
          rw [hs']
          exact ⟨_, rfl⟩
        next hk =>
          obtain ⟨s', hs'⟩ := hresume (by simp [hk])
          rw [hs']
          exact ⟨_, rfl⟩
        next hk _ =>
          obtain ⟨s', hs'⟩ := hresume hk
          rw [hs']
          exact ⟨_, rfl⟩
      obtain ⟨x', hs'⟩ := hsome
      exact ⟨e, x', hgrants, hs'⟩

/-- What a run of a program has come to after the steps `es`, when its serial
elision gives `v` in `n` steps. -/
structure Computes [Inhabited ω] (func : α → Code α Value ω) (b : Build) (v : Result ω) (n : Nat)
    (es : List Env) (x : Crew α ω) : Prop where
  bounded : es.length ≤ n
  unfailing : x.failed = false
  result : x.lib.ended = true → x.outcome = some v ∧ x.lib.handles = [mainThread]
  goesOn : x.lib.ended = false → ∃ e x', e.Grants ∧ x.step func b e = some x'

theorem Held.computes [Inhabited ω] {n n' : Nat} {es : List Env} {x : Crew α ω}
    (h : Held func b v n' x) (hle : es.length + n' ≤ n) : Computes func b v n es x := by
  refine ⟨by omega, ?_, fun hended => ?_, fun hended => h.goesOn hended⟩
  · cases h with
    | going hfailed => exact hfailed
    | finished hfailed => exact hfailed
  · cases h with
    | going hfailed hended' =>
        rw [hended] at hended'
        cases hended'
    | finished hfailed hended houtcome hhandles => exact ⟨houtcome, hhandles⟩

/-- Every run of a fork-join program is on its way to the result of its serial
elision, and gets there. -/
theorem computes_of_run [Inhabited ω] {a : α} {n : Nat} {es : List Env} {x : Crew α ω}
    (heval : Evaluates func [] (func a) v n)
    (hrun : run (step func b) (fun _ e => e.Grants) (initial func a) es = some x) :
    Computes func b v n es x := by
  obtain ⟨n', hle, hheld⟩ := (Held.initial heval b).run hrun
  exact hheld.computes hle

/-- The main thread adds its number to the one of the thread it has created. -/
theorem computes_of_run_script : ∃ x : Crew Nat Unit, x.lib.ended = true ∧
    x.outcome = some (7, ()) ∧ x.lib.handles = [mainThread] := by
  let func : Nat → Code Nat Value Unit := fun a =>
    if a = 0 then .ret (4, ())
    else .fork 0 (.yield (.join 0 true fun res => .ret (res.1.getD 0 + a, ())))
  have hcall : Evaluates func [] (func 0) (4, ()) 1 := .ret _
  have heval : Evaluates func [] (func 3) (7, ()) (1 + (1 + 2 + 2) + 2) :=
    .fork hcall (.yield (.join rfl (.ret _)))
  obtain ⟨x, hx, hended⟩ := exists_run (step func .fifo) (fun _ e => e.Grants) (initial func 3)
    (Env.supply 7) (fun x => x.lib.ended = true) (by decide +kernel)
  exact ⟨x, hended, (computes_of_run heval hx).result hended⟩

end Crew

end UserThreads
