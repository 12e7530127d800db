import UserThreads.Abstract.Scheduling

/-!
# Every move keeps joiners and targets paired

Only four moves touch the pairing: the start of a blocking join, the wake-up
by the target's exit, the claim that ends a join, and the birth of a thread.
-/

namespace UserThreads

open Transition

namespace JoinInv

variable {s s' : State}

/-- The pairing survives when nobody dies back to life, nobody changes partner
and no joiner is woken. -/
theorem congr (h : JoinInv s) (hhandles : s'.handles = s.handles)
    (htarget : ∀ t ∈ s.handles, (s'.threads t).point.target = (s.threads t).point.target)
    (hjoiner : ∀ t ∈ s.handles, (s'.threads t).joinedBy = (s.threads t).joinedBy)
    (hdead : ∀ t ∈ s.handles, (s.threads t).state = .terminated →
      (s'.threads t).state = .terminated)
    (hblocked : ∀ j ∈ s.handles, (s.threads j).point.target ≠ none →
      (s.threads j).state = .blocked → (s'.threads j).state = .blocked) : JoinInv s' := by
  constructor
  · intro j hj t ht
    rw [hhandles] at hj ⊢
    rw [htarget j hj] at ht
    obtain ⟨hmem, hback⟩ := h.target j hj t ht
    exact ⟨hmem, (hjoiner t hmem).trans hback⟩
  · intro t ht j hj
    rw [hhandles] at ht ⊢
    rw [hjoiner t ht] at hj
    obtain ⟨hmem, hback⟩ := h.joiner t ht j hj
    exact ⟨hmem, (htarget j hmem).trans hback⟩
  · intro j hj t ht hlive
    rw [hhandles] at hj
    rw [htarget j hj] at ht
    have hmem := (h.target j hj t ht).1
    exact hblocked j hj (by simp [ht])
      (h.blocked j hj t ht fun hterm => hlive (hdead t hmem hterm))

/-- A write to one record that keeps its partners, and its state as far as
the pairing can see it. -/
theorem write (h : JoinInv s) {t : Tid} {a : Thread}
    (hthreads : s'.threads = Function.update s.threads t a) (hhandles : s'.handles = s.handles)
    (htarget : t ∈ s.handles → a.point.target = (s.threads t).point.target)
    (hjoiner : a.joinedBy = (s.threads t).joinedBy)
    (hdead : (s.threads t).state = .terminated → a.state = .terminated)
    (hblocked : (s.threads t).point.target ≠ none → (s.threads t).state = .blocked →
      a.state = .blocked) : JoinInv s' := by
  apply h.congr hhandles <;> rw [hthreads]
  · exact forall_update (P := fun u (th : Thread) => th.point.target = (s.threads u).point.target)
      (fun _ _ => rfl) htarget
  · exact forall_update (P := fun u (th : Thread) => th.joinedBy = (s.threads u).joinedBy)
      (fun _ _ => rfl) fun _ => hjoiner
  · exact forall_update (P := fun u (th : Thread) =>
      (s.threads u).state = .terminated → th.state = .terminated) (fun _ _ hu => hu) fun _ => hdead
  · exact forall_update (P := fun u (th : Thread) => (s.threads u).point.target ≠ none →
      (s.threads u).state = .blocked → th.state = .blocked) (fun _ _ _ hu => hu) fun _ => hblocked

/-- Writes to structs that are no threads are invisible. -/
theorem scribble (h : JoinInv s) {n : Tid} {a : Thread} (hn : n ∉ s.handles)
    (hthreads : s'.threads = Function.update s.threads n a)
    (hhandles : s'.handles = s.handles) : JoinInv s' := by
  have hsame : ∀ t ∈ s.handles, s'.threads t = s.threads t := by
    intro t ht
    have hne : t ≠ n := fun e => hn (e ▸ ht)
    rw [hthreads, Function.update_of_ne hne]
  apply h.congr hhandles
  · intro t ht
    rw [hsame t ht]
  · intro t ht
    rw [hsame t ht]
  · intro t ht
    rw [hsame t ht]
    exact id
  · intro t ht _
    rw [hsame t ht]
    exact id

/-- A thread outside `thread_join` is nobody's joiner. -/
theorem not_joiner (h : JoinInv s) {t j : Tid} (ht : t ∈ s.handles)
    (hj : (s.threads j).point.target = none) : (s.threads t).joinedBy ≠ some j := by
  intro hjoined
  have hback := (h.joiner t ht j hjoined).2
  rw [hj] at hback
  cases hback

theorem wakeHead (h : JoinInv s) (hs : SchedInv s) {q : QueueId} {t : Tid} {rest rq : List Tid}
    (hq : s.waitingQueue q = t :: rest) : JoinInv (s.wakeHead q t rest rq) := by
  obtain ⟨-, hb, hk⟩ := hs.of_waiting hq
  have htar := (Point.of_queue hk).2.1
  exact h.write rfl rfl (fun _ => rfl) rfl (by simp [hb]) (by simp [htar])

theorem parkAt (h : JoinInv s) {q : QueueId} {k : Point} (hrun : s.running.state = .running)
    (hold : s.running.point.Settled) (hk : k.queue = some q) : JoinInv (s.parkAt q k) := by
  have hr : (s.threads s.currentThread).state = .running := hrun
  exact h.write rfl rfl (fun _ => (Point.of_queue hk).2.1.trans hold.1.symm) rfl (by simp [hr])
    (by simp)

theorem joinAt (h : JoinInv s) (hcur : s.currentThread ∈ s.handles) {t : Tid} {slot : SlotRef}
    {retval : Bool} (hrun : s.running.state = .running)
    (hout : s.running.point.target = none) (ht : t ∈ s.handles)
    (hne : t ≠ s.currentThread) (hfree : (s.threads t).joinedBy = none) :
    JoinInv (s.joinAt t slot retval) := by
  have htarget : ∀ j, j ≠ s.currentThread →
      ((s.joinAt t slot retval).threads j).point.target = (s.threads j).point.target := by
    intro j hj
    by_cases hjt : j = t
    · subst j
      simp [State.joinAt, hne]
    · simp [State.joinAt, hj, hjt]
  have hjoiner : ∀ u, u ≠ t →
      ((s.joinAt t slot retval).threads u).joinedBy = (s.threads u).joinedBy := by
    intro u hu
    by_cases huc : u = s.currentThread
    · subst u
      simp [State.joinAt, State.running]
    · simp [State.joinAt, hu, huc]
  have hstate : ∀ u, u ≠ s.currentThread →
      ((s.joinAt t slot retval).threads u).state = (s.threads u).state := by
    intro u huc
    by_cases hut : u = t
    · subst u
      simp [State.joinAt, hne]
    · simp [State.joinAt, hut, huc]
  constructor
  · intro j hj t' ht'
    by_cases hjc : j = s.currentThread
    · subst j
      obtain rfl : t = t' := by simpa [State.joinAt, Point.target] using ht'
      exact ⟨ht, by simp [State.joinAt, hne]⟩
    · rw [htarget j hjc] at ht'
      obtain ⟨hmem, hback⟩ := h.target j hj t' ht'
      have htt : t' ≠ t := by
        rintro rfl
        rw [hfree] at hback
        cases hback
      exact ⟨hmem, (hjoiner t' htt).trans hback⟩
  · intro u hu j hj
    by_cases hut : u = t
    · subst u
      obtain rfl : s.currentThread = j := by simpa [State.joinAt, hne] using hj
      exact ⟨hcur, by simp [State.joinAt, Point.target]⟩
    · rw [hjoiner u hut] at hj
      obtain ⟨hmem, hback⟩ := h.joiner u hu j hj
      have hjc : j ≠ s.currentThread := by
        rintro rfl
        exact h.not_joiner hu hout hj
      exact ⟨hmem, (htarget j hjc).trans hback⟩
  · intro j hj t' ht' hlive
    by_cases hjc : j = s.currentThread
    · subst j
      simp [State.joinAt]
    · rw [htarget j hjc] at ht'
      have hold : (s.threads t').state ≠ .terminated := by
        intro hterm
        apply hlive
        by_cases htc : t' = s.currentThread
        · subst t'
          have hr : (s.threads s.currentThread).state = .running := hrun
          simp [hr] at hterm
        · rw [hstate t' htc, hterm]
      rw [hstate j hjc]
      exact h.blocked j hj t' ht' hold

theorem wakeJoiner (h : JoinInv s) {d j : Tid} {rq : List Tid} (hd : d ∈ s.handles)
    (hdead : (s.threads d).state = .terminated) (hj : (s.threads d).joinedBy = some j)
    (hblocked : (s.threads j).state = .blocked) : JoinInv (s.wakeJoiner d j rq) := by
  have htarget : ∀ u, ((s.wakeJoiner d j rq).threads u).point.target =
      (s.threads u).point.target := by
    intro u
    by_cases hu : u = j
    · subst u
      simp [State.wakeJoiner]
    · simp [State.wakeJoiner, hu]
  have hjoiner : ∀ u, ((s.wakeJoiner d j rq).threads u).joinedBy = (s.threads u).joinedBy := by
    intro u
    by_cases hu : u = j
    · subst u
      simp [State.wakeJoiner]
    · simp [State.wakeJoiner, hu]
  have hstate : ∀ u, u ≠ j → (s.wakeJoiner d j rq).threads u = s.threads u :=
    fun u hu => Function.update_of_ne hu _ _
  constructor
  · intro i hi t ht
    rw [htarget] at ht
    rw [hjoiner]
    exact h.target i hi t ht
  · intro t ht i hi
    rw [hjoiner] at hi
    rw [htarget]
    exact h.joiner t ht i hi
  · intro i hi t ht hlive
    rw [htarget] at ht
    by_cases hij : i = j
    · subst i
      -- The woken joiner's only target is the thread that has just terminated.
      obtain rfl : d = t := Option.some.inj ((h.joiner d hd j hj).2.symm.trans ht)
      have hdj : d ≠ j := by
        rintro rfl
        rw [hdead] at hblocked
        cases hblocked
      rw [hstate d hdj] at hlive
      exact absurd hdead hlive
    · rw [hstate i hij]
      apply h.blocked i hi t ht
      by_cases htj : t = j
      · subst t
        simp [hblocked]
      · rwa [hstate t htj] at hlive

theorem claim (h : JoinInv s) (hs : SchedInv s) {t : Tid} {code : Int} {stored : Option Value}
    (ht : t ∈ s.handles) (hne : t ≠ s.currentThread) (hdead : (s.threads t).state = .terminated)
    (hzombie : (s.threads t).inZombieQueue = false)
    (hpoint : s.running.point.target = some t ∨
      s.running.point = .user ∧ (s.threads t).joinedBy = none) :
    JoinInv (s.claim t code stored) := by
  have hhandles := State.claim_handles hne hzombie code stored
  have hsame : ∀ u, u ≠ t → u ≠ s.currentThread →
      (s.claim t code stored).threads u = s.threads u :=
    fun u => State.claim_threads_other hne hzombie code stored
  have hback := State.claim_threads_current hne hzombie code stored
  have hdt : (s.threads t).point.target = none := by
    rw [(hs.threads_ok t ht).dead hdead]
    rfl
  -- No other thread waits for `t`, and the caller waits for nobody else.
  have honly : ∀ j ∈ s.handles, j ≠ s.currentThread → (s.threads j).point.target ≠ some t := by
    intro j hj hjc htar
    have hjoined := (h.target j hj t htar).2
    rcases hpoint with hcur | ⟨-, hnone⟩
    · have hcur' := (h.target _ hs.current_mem t hcur).2
      exact hjc (Option.some.inj (hjoined.symm.trans hcur'))
    · rw [hnone] at hjoined
      cases hjoined
  have hcaller : ∀ u, u ≠ t → (s.threads s.currentThread).point.target ≠ some u := by
    intro u hut htar
    rcases hpoint with hcur | ⟨huser, -⟩
    · exact hut (Option.some.inj (htar.symm.trans hcur))
    · have huser' : (s.threads s.currentThread).point = .user := huser
      simp [huser', Point.target] at htar
  have herase : ∀ u, u ∈ s.handles.erase t ↔ u ≠ t ∧ u ∈ s.handles :=
    fun u => hs.handles_nodup.mem_erase_iff
  constructor
  · intro j hj u hu
    rw [hhandles, herase] at hj
    obtain ⟨hjt, hj⟩ := hj
    by_cases hjc : j = s.currentThread
    · subst j
      simp [hback, Point.target] at hu
    · rw [hsame j hjt hjc] at hu
      obtain ⟨hmem, hjoined⟩ := h.target j hj u hu
      have hut : u ≠ t := by
        rintro rfl
        exact honly j hj hjc hu
      rw [hhandles, herase]
      refine ⟨⟨hut, hmem⟩, ?_⟩
      by_cases huc : u = s.currentThread
      · subst u
        rw [hback]
        exact hjoined
      · rw [hsame u hut huc, hjoined]
  · intro u hu j hj
    rw [hhandles, herase] at hu
    obtain ⟨hut, hu⟩ := hu
    have hj' : (s.threads u).joinedBy = some j := by
      by_cases huc : u = s.currentThread
      · subst u
        rwa [hback] at hj
      · rwa [hsame u hut huc] at hj
    obtain ⟨hmem, htar⟩ := h.joiner u hu j hj'
    have hjt : j ≠ t := by
      rintro rfl
      rw [hdt] at htar
      cases htar
    have hjc : j ≠ s.currentThread := by
      rintro rfl
      exact hcaller u hut htar
    rw [hhandles, herase]
    exact ⟨⟨hjt, hmem⟩, by rw [hsame j hjt hjc, htar]⟩
  · intro j hj u hu hlive
    rw [hhandles, herase] at hj
    obtain ⟨hjt, hj⟩ := hj
    by_cases hjc : j = s.currentThread
    · subst j
      simp [hback, Point.target] at hu
    · rw [hsame j hjt hjc] at hu ⊢
      have hut : u ≠ t := by
        rintro rfl
        exact honly j hj hjc hu
      apply h.blocked j hj u hu
      by_cases huc : u = s.currentThread
      · subst u
        rwa [hback] at hlive
      · rwa [hsame u hut huc] at hlive

theorem spawn (h : JoinInv s) {n : Tid} (entry : StackEntry) (rest : List StackEntry)
    (ref : SlotRef) (rq : List Tid) (hold : s.running.point.target = none)
    (hn : n ∉ s.handles) : JoinInv (s.spawn n entry rest ref rq) := by
  have hbase : JoinInv { s.spawn n entry rest ref rq with handles := s.handles } := by
    have hback : JoinInv (s.setPoint s.currentThread .user) :=
      h.write rfl rfl (fun _ => hold.symm) rfl id fun _ => id
    exact hback.scribble hn rfl rfl
  have hnew : ((s.spawn n entry rest ref rq).threads n).point.target = none ∧
      ((s.spawn n entry rest ref rq).threads n).joinedBy = none := by
    simp [State.spawn, Thread.fresh, Point.target]
  constructor
  · intro j hj t ht
    rcases List.mem_cons.mp hj with rfl | hj
    · rw [hnew.1] at ht
      cases ht
    · obtain ⟨hmem, hback⟩ := hbase.target j hj t ht
      exact ⟨List.mem_cons_of_mem _ hmem, hback⟩
  · intro t ht j hj
    rcases List.mem_cons.mp ht with rfl | ht
    · rw [hnew.2] at hj
      cases hj
    · obtain ⟨hmem, hback⟩ := hbase.joiner t ht j hj
      exact ⟨List.mem_cons_of_mem _ hmem, hback⟩
  · intro j hj t ht hlive
    rcases List.mem_cons.mp hj with rfl | hj
    · rw [hnew.1] at ht
      cases ht
    · exact hbase.blocked j hj t ht hlive

/-- Every move keeps joiners and targets paired. -/
theorem move {i : Input} (inv : Inv s) (hm : Move i s s') : JoinInv s' := by
  have h := inv.join
  have hs := inv.sched
  cases hm with
  | errno e => exact ⟨h.target, h.joiner, h.blocked⟩
  | returned c code => exact ⟨h.target, h.joiner, h.blocked⟩
  | restate hrun => exact ⟨h.target, h.joiner, h.blocked⟩
  | sigwaitGiveUp hrun => exact ⟨h.target, h.joiner, h.blocked⟩
  | reprioritize f rq hrq => exact ⟨h.target, h.joiner, h.blocked⟩
  | semPostCount sm hq => exact ⟨h.target, h.joiner, h.blocked⟩
  | semTake sm hpos => exact ⟨h.target, h.joiner, h.blocked⟩
  | mapStack e hpool hfresh => exact ⟨h.target, h.joiner, h.blocked⟩
  | endProcess => exact ⟨h.target, h.joiner, h.blocked⟩
  | stackReclaimed e rest pool mappings hd heq =>
      rw [← heq]
      rw [stackPoolPush_eq]
      exact ⟨h.target, h.joiner, h.blocked⟩
  | toUser hrun hk => exact h.write rfl rfl (fun _ => hk.1.symm) rfl id fun _ => id
  | semPark sm hrun huser hcount =>
      exact h.parkAt hrun (by rw [huser]; exact Point.settled_user) rfl
  | yieldAt k rq hrun hold huser hrq =>
      have hr : (s.threads s.currentThread).state = .running := hrun
      refine h.write rfl rfl (fun _ => ?_) rfl (by simp [hr]) (by simp [hr])
      rcases hold with rfl | ⟨hold, c, rfl⟩
      · rfl
      · exact hold.1.symm
  | dispatch next rq hrun hrq =>
      have hready := ((hs.ready.mem_iff next).mp (hrq.mem_iff.mp (by simp))).2
      exact h.write rfl rfl (fun _ => rfl) rfl (by simp [hready]) (by simp [hready])
  | condWake c t rest rq hq hrq => exact h.wakeHead hs hq
  | semPostWake sm t rest rq hq hrq =>
      have hpost : SchedInv (s.emit (.semPosted sm s.self)) := hs.congr rfl rfl
      have hjoin : JoinInv (s.emit (.semPosted sm s.self)) := ⟨h.target, h.joiner, h.blocked⟩
      exact hjoin.wakeHead hpost hq
  | claimed t code stored head sp mp tp hp hrun ht hne hdead hzombie hpoint hstored heq =>
      rw [← heq]
      exact h.claim hs ht hne hdead hzombie hpoint
  | terminate v hrun huser =>
      have hr : (s.threads s.currentThread).state = .running := hrun
      exact h.write rfl rfl (fun _ => rfl) rfl (fun _ => rfl) (by simp [hr])
  | overflow hrun => exact h.write rfl rfl (fun _ => rfl) rfl id fun _ => id
  | stackDeferred t map base deferred ht hdead heq =>
      rw [← heq]
      unfold deferStackReclaim
      split
      · exact h
      · split
        · exact h.write rfl rfl (fun _ => rfl) rfl id fun _ => id
        · exact h
  | zombieAdd t ht hmain hdead hout => exact h.write rfl rfl (fun _ => rfl) rfl id fun _ => id
  | zombieLeft t queue heq =>
      rw [← heq]
      unfold threadZombieRemove
      split
      · exact h.write rfl rfl (fun _ => rfl) rfl id fun _ => id
      · exact h
  | wakeJoiner d j rq hd hdead hj hblocked hrq => exact h.wakeJoiner hd hdead hj hblocked
  | sigwaitAt set hrun hold hpending =>
      have hr : (s.threads s.currentThread).state = .running := hrun
      exact h.write rfl rfl (fun _ => hold.1.symm) rfl (by simp [hr]) fun _ _ => rfl
  | signalSend t sig hsig ht hno => exact h.write rfl rfl (fun _ => rfl) rfl id fun _ => id
  | signalWake t sig rq hsig ht hblocked hwait hset hrq =>
      have htar := (Point.of_sigset ((hs.threads_ok t ht).signal.mp hwait).2).2.1
      exact h.write rfl rfl (fun _ => rfl) rfl (by simp [hblocked]) (by simp [htar])
  | signalConsume set sig hrun hsig hpos => exact h.write rfl rfl (fun _ => rfl) rfl id fun _ => id
  | mainInit ref count cap index active hinit hslot =>
      exact h.write rfl rfl (fun _ => rfl) rfl id fun _ => id
  | takeStruct n rest hrun huser hpool =>
      exact h.write rfl rfl (fun _ => (congrArg Point.target huser).symm) rfl id fun _ => id
  | mallocStruct n hrun huser hmain hfresh =>
      exact h.write rfl rfl (fun _ => (congrArg Point.target huser).symm) rfl id fun _ => id
  | retry n r r' hrun hk =>
      exact h.write rfl rfl (fun _ => (congrArg Point.target hk).symm) rfl id fun _ => id
  | scribble n th hdead hmain => exact h.scribble hdead rfl rfl
  | structDropped n r pool heap hrun hk heq =>
      rw [← heq]
      rw [threadFree_eq]
      exact h.write rfl rfl (fun _ => (congrArg Point.target hk).symm) rfl id fun _ => id
  | spawned n r entry rest ref count cap index active rq hrun hk hpool hslot hrq =>
      have hheld : (s.threads s.currentThread).point.held = some n := congrArg Point.held hk
      have hspawn := h.spawn entry rest ref rq (congrArg Point.target hk)
        (inv.mem.held_fresh hs.current_mem hheld).1
      exact ⟨hspawn.target, hspawn.joiner, hspawn.blocked⟩

end JoinInv

end UserThreads
