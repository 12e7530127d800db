import UserThreads.History.Identity
import UserThreads.Transition.Chains

/-!
# Head slots

The slot of a thread is the one of the chain that it joined last. A slot has
one head, and the head leads to every thread that has the slot. A thread that
nobody waits for is therefore the head of its slot, so the first half of the
chain test in `thread_join` never fails on a live target.
-/

namespace UserThreads

open Transition

/-- `x` is inside `thread_join` on `y`. -/
def State.Joins (s : State) (x y : Tid) : Prop :=
  x ∈ s.handles ∧ (s.threads x).waitingFor = some y

def State.slotOf (s : State) (x : Tid) : Option SlotRef := (s.threads x).headJoiner

/-- The fields of a record that chains are made of. -/
def Thread.chain (th : Thread) : Option Tid × Option SlotRef := (th.waitingFor, th.headJoiner)

structure SlotInv (s : State) : Prop where
  headed : Headed s.handles s.Joins s.slotOf s.headRefs
  used : ∀ x ∈ s.handles, ∀ r, s.slotOf x = some r → r < s.slotFrontier

theorem slotInv_initial : SlotInv State.initial where
  headed := by
    intro x hx r hr
    simp [State.slotOf, State.initial, Thread.main] at hr
  used := by
    intro x hx r hr
    simp [State.slotOf, State.initial, Thread.main] at hr

section

variable {i : Input} {s s' : State} {x y : Tid}

theorem Inv.joins_target (h : Inv s) (hj : s.Joins x y) : (s.threads x).point.target = some y := by
  rw [← (h.sched.threads_ok x hj.1).waiting]
  exact hj.2

/-- A thread waits for a thread that exists and knows its joiner. -/
theorem Inv.joins_mem (h : Inv s) (hj : s.Joins x y) :
    y ∈ s.handles ∧ (s.threads y).joinedBy = some x :=
  h.join.target x hj.1 y (h.joins_target hj)

theorem Inv.not_joins (h : Inv s) (hk : (s.threads x).point.target = none) (y : Tid) :
    ¬ s.Joins x y := by
  intro hj
  rw [h.joins_target hj] at hk
  cases hk

/-- A terminated thread waits for nothing. -/
theorem Inv.not_joins_of_dead (h : Inv s) (hdead : (s.threads x).state = .terminated) (y : Tid) :
    ¬ s.Joins x y := by
  intro hj
  have htarget := h.joins_target hj
  rw [(h.sched.threads_ok x hj.1).dead hdead] at htarget
  cases htarget

/-- A link survives where neither of its ends is written. -/
theorem within_of_chain (hsub : s.handles ⊆ s'.handles) {r : SlotRef}
    (hlink : Within s.Joins s.slotOf r x y) (hx : (s'.threads x).chain = (s.threads x).chain)
    (hy : (s'.threads y).chain = (s.threads y).chain) : Within s'.Joins s'.slotOf r x y := by
  obtain ⟨hj, hxr, hyr⟩ := hlink
  exact ⟨⟨hsub hj.1, (congrArg Prod.fst hx).trans hj.2⟩, (congrArg Prod.snd hx).trans hxr,
    (congrArg Prod.snd hy).trans hyr⟩

namespace SlotInv

theorem frame (h : SlotInv s) (hinv : Inv s) (hhandles : s'.handles = s.handles)
    (hview : ∀ t ∈ s.handles, (s'.threads t).chain = (s.threads t).chain)
    (hrefs : s'.headRefs = s.headRefs) (hfrontier : s'.slotFrontier = s.slotFrontier) :
    SlotInv s' := by
  have hslot : ∀ t ∈ s.handles, s'.slotOf t = s.slotOf t := fun t ht =>
    congrArg Prod.snd (hview t ht)
  constructor
  · rw [hhandles, hrefs]
    refine h.headed.keep (List.Subset.refl _) hslot (fun _ _ _ _ => rfl) fun r u v hlink _ => ?_
    exact within_of_chain (hhandles ▸ List.Subset.refl _) hlink (hview u hlink.1.1)
      (hview v (hinv.joins_mem hlink.1).1)
  · intro t ht r hr
    rw [hhandles] at ht
    rw [hslot t ht] at hr
    rw [hfrontier]
    exact h.used t ht r hr

/-- A thread gets a slot from the unused part of the chunks. -/
theorem open_slot (h : SlotInv s) (hinv : Inv s) {n : Tid} {ref : SlotRef}
    (hlive : ∀ t ∈ s'.handles, t = n ∨ t ∈ s.handles) (hsub : s.handles ⊆ s'.handles)
    (hn : s'.slotOf n = some ref)
    (hview : ∀ t ∈ s.handles, t ≠ n → (s'.threads t).chain = (s.threads t).chain)
    (hnew : n ∈ s.handles → s.slotOf n = none)
    (hrefs : s'.headRefs = Function.update s.headRefs ref n)
    (hfree : s.slotFrontier ≤ ref) (htaken : ref < s'.slotFrontier) : SlotInv s' := by
  have hslot : ∀ t ∈ s.handles, t ≠ n → s'.slotOf t = s.slotOf t := fun t ht hne =>
    congrArg Prod.snd (hview t ht hne)
  have hmember : ∀ t ∈ s.handles, ∀ r, s.slotOf t = some r → t ≠ n := by
    rintro t ht r hr rfl
    rw [hnew ht] at hr
    cases hr
  constructor
  · rw [hrefs]
    refine h.headed.open_slot hlive hn hslot ?_ ?_
    · intro t ht hr
      exact absurd (h.used t ht ref hr) (Nat.not_lt.mpr hfree)
    · intro r u v hlink
      have hu := hlink.1.1
      have hv := (hinv.joins_mem hlink.1).1
      exact within_of_chain hsub hlink (hview u hu (hmember u hu r hlink.2.1))
        (hview v hv (hmember v hv r hlink.2.2))
  · intro t ht r hr
    by_cases hne : t = n
    · subst t
      obtain rfl := Option.some.inj (hn.symm.trans hr)
      exact htaken
    · have hold := (hlive t ht).resolve_left hne
      rw [hslot t hold hne] at hr
      exact Nat.lt_trans (Nat.lt_of_lt_of_le (h.used t hold r hr) hfree) htaken

/-- A terminated thread leaves; only the thread that joined it waited for it. -/
theorem leave (h : SlotInv s) (hinv : Inv s) {t : Tid} (hdead : (s.threads t).state = .terminated)
    (hhandles : s'.handles = s.handles.erase t)
    (hhead : ∀ u ∈ s.handles, u ≠ t → s'.slotOf u = s.slotOf u)
    (hwait : ∀ u ∈ s.handles, ∀ v, s.Joins u v → v ≠ t → (s'.threads u).waitingFor = some v)
    (hrefs : s'.headRefs = s.headRefs) (hfrontier : s'.slotFrontier = s.slotFrontier) :
    SlotInv s' := by
  have hmem : ∀ u, u ∈ s.handles.erase t ↔ u ≠ t ∧ u ∈ s.handles := fun u =>
    hinv.sched.handles_nodup.mem_erase_iff
  constructor
  · rw [hhandles, hrefs]
    refine h.headed.keep List.erase_subset ?_ (fun _ _ _ _ => rfl) ?_
    · intro u hu
      exact hhead u ((hmem u).mp hu).2 ((hmem u).mp hu).1
    · intro r u v hlink hnext
      have hut : u ≠ t := fun heq => hinv.not_joins_of_dead hdead v (heq ▸ hlink.1)
      have hvt : v ≠ t := by
        rcases hnext with hv | ⟨w, hw⟩
        · exact ((hmem v).mp hv).1
        · exact fun heq => hinv.not_joins_of_dead hdead w (heq ▸ hw)
      refine ⟨⟨?_, hwait u hlink.1.1 v hlink.1 hvt⟩, (hhead u hlink.1.1 hut).trans hlink.2.1,
        (hhead v (hinv.joins_mem hlink.1).1 hvt).trans hlink.2.2⟩
      rw [hhandles, hmem]
      exact ⟨hut, hlink.1.1⟩
  · intro u hu r hr
    rw [hhandles, hmem] at hu
    rw [hhead u hu.2 hu.1] at hr
    rw [hfrontier]
    exact h.used u hu.2 r hr

theorem move (h : SlotInv s) (hinv : Inv s) (hm : Move i s s') : SlotInv s' := by
  cases hm with
  | claimed t code stored head sp mp tp hp hrun ht hne hdead hzombie hpoint hstored heq =>
      refine h.leave hinv hdead rfl ?_ ?_ rfl rfl
      · intro u hu hut
        exact (congrArg Thread.headJoiner (Function.update_of_ne hut _ _)).trans
          (proj_update Thread.headJoiner (by rfl) u)
      · intro u hu v hj hvt
        have hut : u ≠ t := fun heq => hinv.not_joins_of_dead hdead v (heq ▸ hj)
        have huc : u ≠ s.currentThread := by
          rintro rfl
          have htarget := hinv.joins_target hj
          rcases hpoint with hk | ⟨hk, -⟩
          · exact hvt (Option.some.inj (htarget.symm.trans hk))
          · rw [← State.running, hk] at htarget
            cases htarget
        refine Eq.trans ?_ hj.2
        simp [State.claimed, hut, huc]
  | mainInit ref count cap index active hinit hslot =>
      refine h.open_slot hinv (fun t ht => Or.inr ht) (List.Subset.refl _)
        (by simp [State.slotOf]) ?_ (fun _ => hinv.main.1 hinit) rfl hslot.2.1 hslot.2.2.1
      intro t ht hne
      exact congrArg Thread.chain (Function.update_of_ne hne _ _)
  | spawned n r entry rest ref count cap index active rq hrun hk hpool hslot hrq =>
      obtain ⟨hfresh, -, -⟩ := hinv.mem.held_fresh hinv.sched.current_mem (congrArg Point.held hk)
      refine h.open_slot hinv (fun t ht => List.mem_cons.mp ht) (List.subset_cons_self _ _)
        (by simp [State.slotOf, State.spawn]) ?_ (fun hn => absurd hn hfresh) rfl hslot.2.1
        hslot.2.2.1
      intro t ht hne
      exact spawn_proj (s := s.slotGiven n ref count cap index active) Thread.chain rfl hne
  | scribble n th hdead hmain =>
      refine h.frame hinv rfl (fun t ht => ?_) rfl rfl
      have hne : t ≠ n := fun e => hdead (e ▸ ht)
      exact congrArg Thread.chain (Function.update_of_ne hne _ _)
  | reprioritize f rq hrq => exact h.frame hinv rfl (fun _ _ => rfl) rfl rfl
  | _ =>
      first
      | exact h.frame hinv rfl (fun _ _ => rfl) rfl rfl
      | exact h.frame hinv rfl (fun t _ => proj_update Thread.chain (by rfl) t) rfl rfl

theorem release (h : SlotInv s) (hinv : Inv s) {m : MutexId} (hr : Release m s s') :
    SlotInv s' := by
  cases hr with
  | handOff t rest rq hq hrq =>
      exact h.frame hinv rfl (fun t _ => proj_update Thread.chain (by rfl) t) rfl rfl
  | free hq => exact h.frame hinv rfl (fun _ _ => rfl) rfl rfl

theorem parkAt (h : SlotInv s) (hinv : Inv s) (q : QueueId) (k : Point) : SlotInv (s.parkAt q k) :=
  h.frame hinv rfl (fun t _ => proj_update Thread.chain (by rfl) t) rfl rfl

theorem acquire (h : SlotInv s) (hinv : Inv s) {m : MutexId} {k : Point} (ha : Acquire m k s s') :
    SlotInv s' := by
  cases ha with
  | take hfree => exact h.frame hinv rfl (fun _ _ => rfl) rfl rfl
  | park hrun hold hvalid hheld hready => exact h.parkAt hinv _ k
  | fail hfail => exact h

/-- A live target without a joiner is the head of its slot. -/
theorem head_eq (h : SlotInv s) (hinv : Inv s) {t : Tid} {slot : SlotRef} (ht : t ∈ s.handles)
    (hfree : (s.threads t).joinedBy = none) (hslot : s.slotOf t = some slot) :
    s.headRefs slot = t := by
  refine h.headed.head_eq ht hslot fun u hj => ?_
  have hjoiner := (hinv.joins_mem hj).2
  rw [hfree] at hjoiner
  cases hjoiner

/-- The joiner moves to the slot of its target and heads it. -/
theorem joinAt (h : SlotInv s) (hinv : Inv s) {t : Tid} {slot : SlotRef} {retval : Bool}
    (huser : s.running.point = .user) (ht : t ∈ s.handles) (hne : t ≠ s.currentThread)
    (hfree : (s.threads t).joinedBy = none) (hslot : (s.threads t).headJoiner = some slot) :
    SlotInv (s.joinAt t slot retval) := by
  have hhead := h.head_eq hinv ht hfree hslot
  have hend : ∀ y, ¬ s.Joins s.currentThread y := by
    refine hinv.not_joins ?_
    rw [← State.running, huser]
    rfl
  have hother : ∀ x, x ≠ s.currentThread →
      ((s.joinAt t slot retval).threads x).chain = (s.threads x).chain := by
    intro x hx
    refine (congrArg Thread.chain (Function.update_of_ne hx _ _)).trans ?_
    exact proj_update Thread.chain (by rfl) x
  have hown : ((s.joinAt t slot retval).threads s.currentThread).chain = (some t, some slot) := by
    simp [State.joinAt, Thread.chain]
  constructor
  · have hrefs : (s.joinAt t slot retval).headRefs =
        Function.update s.headRefs slot s.currentThread := if_pos hhead
    rw [hrefs]
    refine h.headed.attach hend hslot hhead hne (congrArg Prod.snd hown) ?_
      ⟨hinv.sched.current_mem, congrArg Prod.fst hown⟩ ?_
    · intro x hx
      exact congrArg Prod.snd (hother x hx)
    · rintro u v ⟨hu, hv⟩
      have huc : u ≠ s.currentThread := fun heq => hend v (heq ▸ ⟨hu, hv⟩)
      exact ⟨hu, (congrArg Prod.fst (hother u huc)).trans hv⟩
  · intro x hx r hr
    by_cases hxc : x = s.currentThread
    · subst x
      obtain rfl : slot = r := Option.some.inj ((congrArg Prod.snd hown).symm.trans hr)
      exact h.used t ht slot hslot
    · exact h.used x hx r ((congrArg Prod.snd (hother x hxc)).symm.trans hr)

theorem act (h : SlotInv s) (hinv : Inv s) (ha : Act i s s') : SlotInv s' := by
  cases ha with
  | lock m e hi huser ha => exact h.acquire hinv ha
  | unlock m e hi huser hvalid hheld hr => exact h.release hinv hr
  | condWait c m e hi hrun huser hready hr => exact (h.release hinv hr).parkAt (hinv.release hr) _ _
  | condGiveUp c m e hi huser hready hr ha => exact (h.release hinv hr).acquire (hinv.release hr) ha
  | relock c m e hi hk ha hb =>
      have htaken := h.acquire hinv ha
      exact hb.rule i htaken fun hm => htaken.move (hinv.acquire rfl ha) hm
  | join t slot own retval e hi hrun huser ht hne hlive hfree hslot hown hchain hready =>
      exact h.joinAt hinv huser ht hne hfree hslot
  | _ => exact h.frame hinv rfl (fun _ _ => rfl) rfl rfl

end SlotInv

end

theorem slotInv_of_reach {b : Build} {s : State} (h : RegularReach b s) : SlotInv s :=
  (Settled.reach h (fun _ _ hg => hg) settled_initial slotInv_initial
    (fun hwf _ hI _ ha => hI.act hwf.inv ha) fun hwf hI hm => hI.move hwf.inv hm).2

/-! From the first creation on every thread has a slot. -/

/-- What a record says about its slot, and about a creation in progress. -/
def Thread.started (th : Thread) : Option SlotRef × Option Tid := (th.headJoiner, th.point.held)

/-- Only the main thread may lack a slot, and only before the set-up, which
comes before every creation. -/
structure SetUp (s : State) : Prop where
  slotted : ∀ x ∈ s.handles, (s.slotOf x).isSome ∨
    x = mainThread ∧ s.schedulerInitialized = false
  others : ∀ x ∈ s.handles, x ≠ mainThread → s.schedulerInitialized = true
  creating : ∀ x ∈ s.handles, (s.threads x).point.held.isSome → s.schedulerInitialized = true
  created : ∀ id n, .created id n ∈ s.trace → s.schedulerInitialized = true

theorem setUp_initial : SetUp State.initial where
  slotted := by simp [State.initial]
  others := by simp [State.initial]
  creating := by simp [State.initial, Thread.main, Point.held]
  created := by simp [State.initial]

namespace SetUp

variable {i : Input} {s s' : State}

theorem frame (h : SetUp s) (hsub : s'.handles ⊆ s.handles)
    (hinit : s'.schedulerInitialized = s.schedulerInitialized)
    (hview : ∀ t ∈ s'.handles, (s'.threads t).started = (s.threads t).started) {l : List Event}
    (htrace : s'.trace = l ++ s.trace) (hnew : ∀ e ∈ l, ∀ id n, e ≠ .created id n) : SetUp s' where
  slotted := by
    intro x hx
    have hslot : s'.slotOf x = s.slotOf x := congrArg Prod.fst (hview x hx)
    rw [hslot, hinit]
    exact h.slotted x (hsub hx)
  others := by
    intro x hx hne
    rw [hinit]
    exact h.others x (hsub hx) hne
  creating := by
    intro x hx hheld
    have hsame : (s'.threads x).point.held = (s.threads x).point.held :=
      congrArg Prod.snd (hview x hx)
    rw [hsame] at hheld
    rw [hinit]
    exact h.creating x (hsub hx) hheld
  created := by
    intro id n hmem
    rw [htrace] at hmem
    rw [hinit]
    rcases List.mem_append.mp hmem with hmem | hmem
    · exact absurd rfl (hnew _ hmem id n)
    · exact h.created id n hmem

theorem of_slots (hinit : s.schedulerInitialized = true)
    (hslots : ∀ x ∈ s.handles, (s.slotOf x).isSome) : SetUp s :=
  ⟨fun x hx => Or.inl (hslots x hx), fun _ _ _ => hinit, fun _ _ _ => hinit, fun _ _ _ => hinit⟩

/-- After the set-up nobody lacks a slot. -/
theorem slot_isSome (h : SetUp s) (hinit : s.schedulerInitialized = true) {x : Tid}
    (hx : x ∈ s.handles) : (s.slotOf x).isSome := by
  refine (h.slotted x hx).resolve_right fun hmain => ?_
  rw [hinit] at hmain
  cases hmain.2

/-- Where there is a second thread, the set-up has been. -/
theorem slot_of_two (h : SetUp s) {x y : Tid} (hx : x ∈ s.handles) (hy : y ∈ s.handles)
    (hne : x ≠ y) : (s.slotOf x).isSome ∧ (s.slotOf y).isSome := by
  have hinit : s.schedulerInitialized = true := by
    by_cases hmain : x = mainThread
    · exact h.others y hy fun heq => hne (hmain.trans heq.symm)
    · exact h.others x hx hmain
  exact ⟨h.slot_isSome hinit hx, h.slot_isSome hinit hy⟩

/-- After the set-up only the slots matter. -/
theorem of_initialized (h : SetUp s) (hinit : s.schedulerInitialized = true)
    (hinit' : s'.schedulerInitialized = true) (hsub : s'.handles ⊆ s.handles)
    (hslot : ∀ x, s'.slotOf x = s.slotOf x) : SetUp s' := by
  refine of_slots hinit' fun x hx => ?_
  rw [hslot x]
  exact h.slot_isSome hinit (hsub hx)

/-- The running thread moves to a point outside `thread_create`. -/
theorem update_point (h : SetUp s) {a : Thread} (hhandles : s'.handles = s.handles)
    (hinit : s'.schedulerInitialized = s.schedulerInitialized)
    (hthreads : s'.threads = Function.update s.threads s.currentThread a)
    (hslot : a.headJoiner = s.running.headJoiner) (hnew : a.point.held = none)
    (hold : s.running.point.held = none) {l : List Event}
    (htrace : s'.trace = l ++ s.trace) (hl : ∀ e ∈ l, ∀ id n, e ≠ .created id n) : SetUp s' := by
  refine h.frame (hhandles ▸ List.Subset.refl _) hinit (fun t _ => ?_) htrace hl
  rw [hthreads]
  refine proj_update Thread.started ?_ t
  rw [Thread.started, hslot, hnew, ← hold]
  rfl

theorem move (h : SetUp s) (hinv : Inv s) (hm : Move i s s') : SetUp s' := by
  have hcur := hinv.sched.current_mem
  cases hm with
  | toUser hrun hk => exact h.update_point rfl rfl rfl rfl rfl hk.2 (l := []) rfl (by simp)
  | semPark sm hrun huser hcount =>
      exact h.update_point rfl rfl rfl rfl rfl (by rw [huser]; rfl) (l := [_, _]) rfl (by simp)
  | yieldAt k rq hrun hold huser hrq =>
      rcases hold with rfl | ⟨hk, c, rfl⟩
      · exact h.frame (List.Subset.refl _) rfl
          (fun t _ => proj_update Thread.started (by rfl) t) (l := [_]) rfl (by simp)
      · exact h.update_point rfl rfl rfl rfl rfl hk.2 (l := [_]) rfl (by simp)
  | claimed t code stored head sp mp tp hp hrun ht hne hdead hzombie hpoint hstored heq =>
      have hheld : s.running.point.held = none := by
        rcases hpoint with hk | ⟨hk, -⟩
        · exact (Point.of_target hk).2.2.1
        · rw [hk]
          rfl
      refine h.frame List.erase_subset rfl (fun u hu => ?_) (l := [_]) rfl (by simp)
      have hut : u ≠ t := (hinv.sched.handles_nodup.mem_erase_iff.mp hu).1
      refine (congrArg Thread.started (Function.update_of_ne hut _ _)).trans ?_
      refine proj_update Thread.started ?_ u
      exact Prod.ext rfl hheld.symm
  | sigwaitAt set hrun hold hpending =>
      exact h.update_point rfl rfl rfl rfl rfl hold.2 (l := [_]) rfl (by simp)
  | takeStruct n rest hrun huser hpool hinit =>
      exact h.of_initialized hinit hinit (List.Subset.refl _) fun x =>
        proj_update Thread.headJoiner (by rfl) x
  | mallocStruct n hrun huser hmain hfresh hinit =>
      exact h.of_initialized hinit hinit (List.Subset.refl _) fun x =>
        proj_update Thread.headJoiner (by rfl) x
  | retry n r r' hrun hk =>
      have hinit := h.creating _ hcur (by rw [← State.running, hk]; rfl)
      exact h.of_initialized hinit hinit (List.Subset.refl _) fun x =>
        proj_update Thread.headJoiner (by rfl) x
  | structDropped n r pool heap hrun hk heq =>
      have hinit := h.creating _ hcur (by rw [← State.running, hk]; rfl)
      exact h.of_initialized hinit hinit (List.Subset.refl _) fun x =>
        proj_update Thread.headJoiner (by rfl) x
  | spawned n r entry rest ref count cap index active rq hrun hk hpool hslot hrq =>
      have hinit := h.creating _ hcur (by rw [← State.running, hk]; rfl)
      refine of_slots hinit fun x hx => ?_
      by_cases hxn : x = n
      · subst x
        simp [State.slotOf, State.spawn]
      · have hsame : (((s.slotGiven n ref count cap index active).spawn n entry rest ref
            rq).threads x).headJoiner = (s.threads x).headJoiner :=
          spawn_proj Thread.headJoiner rfl hxn
        rw [State.slotOf, hsame]
        exact h.slot_isSome hinit ((List.mem_cons.mp hx).resolve_left hxn)
  | mainInit ref count cap index active hinit hslot =>
      refine of_slots rfl fun x hx => ?_
      by_cases hxm : x = mainThread
      · subst x
        simp [State.slotOf]
      · have hsame : (Function.update s.threads mainThread
            { s.threads mainThread with headJoiner := some ref } x).headJoiner = s.slotOf x :=
          congrArg Thread.headJoiner (Function.update_of_ne hxm _ _)
        rw [State.slotOf, hsame]
        exact (h.slotted x hx).resolve_right fun hmain => hxm hmain.1
  | scribble n th hdead hmain =>
      refine h.frame (List.Subset.refl _) rfl (fun t ht => ?_) (l := []) rfl (by simp)
      have hne : t ≠ n := fun e => hdead (e ▸ ht)
      exact congrArg Thread.started (Function.update_of_ne hne _ _)
  | reprioritize f rq hrq =>
      exact h.frame (List.Subset.refl _) rfl (fun _ _ => rfl) (l := []) rfl (by simp)
  | _ =>
      first
      | exact h.frame (List.Subset.refl _) rfl (fun _ _ => rfl) (l := []) rfl (by simp)
      | exact h.frame (List.Subset.refl _) rfl (fun _ _ => rfl) (l := [_]) rfl (by simp)
      | exact h.frame (List.Subset.refl _) rfl (fun _ _ => rfl) (l := [_, _]) rfl (by simp)
      | exact h.frame (List.Subset.refl _) rfl
          (fun t _ => proj_update Thread.started (by rfl) t) (l := []) rfl (by simp)
      | exact h.frame (List.Subset.refl _) rfl
          (fun t _ => proj_update Thread.started (by rfl) t) (l := [_]) rfl (by simp)
      | exact h.frame (List.Subset.refl _) rfl
          (fun t _ => proj_update Thread.started (by rfl) t) (l := [_, _]) rfl (by simp)
      | exact h.frame (List.Subset.refl _) rfl
          (fun t _ => proj_update Thread.started (by rfl) t) (l := [_, _, _]) rfl (by simp)

theorem release (h : SetUp s) {m : MutexId} (hr : Release m s s') : SetUp s' := by
  cases hr with
  | handOff t rest rq hq hrq =>
      exact h.frame (List.Subset.refl _) rfl
        (fun t _ => proj_update Thread.started (by rfl) t) (l := [_, _, _]) rfl (by simp)
  | free hq => exact h.frame (List.Subset.refl _) rfl (fun _ _ => rfl) (l := [_]) rfl (by simp)

theorem parkAt (h : SetUp s) {q : QueueId} {k : Point} (hold : s.running.point.held = none)
    (hk : k.held = none) : SetUp (s.parkAt q k) :=
  h.update_point rfl rfl rfl rfl hk hold (l := [_, _]) rfl (by simp)

theorem acquire (h : SetUp s) {m : MutexId} {k : Point} (hk : k.held = none)
    (ha : Acquire m k s s') : SetUp s' := by
  cases ha with
  | take hfree => exact h.frame (List.Subset.refl _) rfl (fun _ _ => rfl) (l := [_]) rfl (by simp)
  | park hrun hold hvalid hheld hready => exact h.parkAt hold.2 hk
  | fail hfail => exact h

/-- A joiner has a slot before and after. -/
theorem joinAt (h : SetUp s) {t : Tid} {slot : SlotRef} {retval : Bool} :
    SetUp (s.joinAt t slot retval) := by
  have hother : ∀ x, x ≠ s.currentThread →
      ((s.joinAt t slot retval).threads x).started = (s.threads x).started := by
    intro x hx
    refine (congrArg Thread.started (Function.update_of_ne hx _ _)).trans ?_
    exact proj_update Thread.started (by rfl) x
  constructor
  · intro x hx
    by_cases hxc : x = s.currentThread
    · subst x
      simp [State.slotOf, State.joinAt]
    · have hslot : (s.joinAt t slot retval).slotOf x = s.slotOf x :=
        congrArg Prod.fst (hother x hxc)
      rw [hslot]
      exact h.slotted x hx
  · exact h.others
  · intro x hx hheld
    by_cases hxc : x = s.currentThread
    · subst x
      simp [State.joinAt, Point.held] at hheld
    · have hsame : ((s.joinAt t slot retval).threads x).point.held = (s.threads x).point.held :=
        congrArg Prod.snd (hother x hxc)
      exact h.creating x hx (hsame ▸ hheld)
  · intro id n hmem
    rcases List.mem_cons.mp hmem with heq | hmem
    · cases heq
    · exact h.created id n hmem

theorem act (h : SetUp s) (hinv : Inv s) (ha : Act i s s') : SetUp s' := by
  cases ha with
  | lock m e hi huser ha => exact h.acquire rfl ha
  | unlock m e hi huser hvalid hheld hr => exact h.release hr
  | condWait c m e hi hrun huser hready hr =>
      obtain ⟨-, hsame⟩ := hinv.release_running hr hrun
      refine (h.release hr).parkAt ?_ rfl
      rw [hsame, huser]
      rfl
  | condGiveUp c m e hi huser hready hr ha => exact (h.release hr).acquire rfl ha
  | relock c m e hi hk ha hb =>
      exact hb.rule i (h.acquire rfl ha) fun hm => (h.acquire rfl ha).move (hinv.acquire rfl ha) hm
  | join t slot own retval e hi hrun huser ht hne hlive hfree hslot hown hchain hready =>
      exact h.joinAt
  | _ => exact h.frame (List.Subset.refl _) rfl (fun _ _ => rfl) (l := [_]) rfl (by simp)

end SetUp

theorem setUp_of_reach {b : Build} {s : State} (h : RegularReach b s) : SetUp s :=
  (Settled.reach h (fun _ _ hg => hg) settled_initial setUp_initial
    (fun hwf _ hI _ ha => hI.act hwf.inv ha) fun hwf hI hm => hI.move hwf.inv hm).2

end UserThreads
