import Mathlib.Algebra.GroupWithZero.Nat
import Mathlib.Algebra.Order.BigOperators.Group.List
import Mathlib.Algebra.Order.Group.Nat
import UserThreads.History.Slots
import UserThreads.Operations.Lifetimes

/-!
# The family of threads of a fork-join program

Every thread but the main thread is the child of one thread, which is older, and
waits for children only. So joins never close a cycle, and as long as the main
thread has not finished some thread can run.
-/

namespace UserThreads

open Transition

namespace Crew

variable {α ω : Type}

/-- A thread is in its own code, before it, or inside the call its code asks
for. -/
inductive Stands (x : Crew α ω) (t : Tid) : Prop
  | user (hk : (x.lib.threads t).point = .user)
  | entry (hk : (x.lib.threads t).point = .entry)
  | yielded {rest : Code α Value ω} (hk : (x.lib.threads t).point = .yielded .threadYield)
      (hcode : x.code t = .yield rest)
  | join {i : Nat} {u : Tid} {retval : Bool} {rest : Option Value × ω → Code α Value ω}
      (hk : (x.lib.threads t).point = .join u retval) (hcode : x.code t = .join i retval rest)
      (hkid : (x.kids t)[i]? = some u)

theorem Stands.congr {x x' : Crew α ω} {t : Tid} (h : x.Stands t)
    (hpoint : (x'.lib.threads t).point = (x.lib.threads t).point) (hcode : x'.code t = x.code t)
    (hkids : x'.kids t = x.kids t) : x'.Stands t := by
  cases h with
  | user hk => exact .user (hpoint.trans hk)
  | entry hk => exact .entry (hpoint.trans hk)
  | yielded hk hrest => exact .yielded (hpoint.trans hk) (hcode.trans hrest)
  | join hk hrest hkid => exact .join (hpoint.trans hk) (hcode.trans hrest) (hkids ▸ hkid)

/-- The invariant of a run: `goal` is the result that each thread works for, and
`work` bounds the steps that it has before it. -/
structure Coherent (func : α → Code α Value ω) (b : Build) (goal : Tid → Result ω)
    (work : Tid → Nat) (x : Crew α ω) : Prop where
  reach : RegularReach b x.lib
  family : Family mainThread x.lib.handles x.kids
  older : ∀ t ∈ x.lib.handles, ∀ u ∈ x.kids t, (x.lib.threads t).id < (x.lib.threads u).id
  meaning : ∀ t ∈ x.lib.handles,
    Evaluates func ((x.kids t).map goal) (x.code t) (goal t) (work t)
  stands : ∀ t ∈ x.lib.handles, x.Stands t
  dead : ∀ t ∈ x.lib.handles, (x.lib.threads t).state = .terminated → t ≠ mainThread ∧
    x.code t = .ret (goal t) ∧ (x.lib.threads t).retval = (goal t).1 ∧ x.cell t = (goal t).2
  intact : ∀ t ∈ x.lib.handles, (x.lib.threads t).stackOverflow = false
  waiting : ∀ t ∈ x.lib.handles, (x.lib.threads t).state = .blocked →
    ∀ u ∈ (x.lib.threads t).point.target, (x.lib.threads u).state ≠ .terminated

namespace Coherent

variable {func : α → Code α Value ω} {b : Build} {goal : Tid → Result ω} {work : Tid → Nat}
  {x : Crew α ω} (h : Coherent func b goal work x)
include h

theorem inv : Inv x.lib := h.reach.sound.inv

theorem nodup : x.lib.handles.Nodup := h.inv.sched.handles_nodup

/-- The running thread is alive. -/
theorem running_live (hended : x.lib.ended = false) :
    (x.lib.threads x.lib.currentThread).state ≠ .terminated := by
  have hrun := h.reach.sound.runs hended
  rw [← State.running, hrun]
  simp

/-- A thread waits for one of its children. -/
theorem kid_of_target {t u : Tid} (ht : t ∈ x.lib.handles)
    (hu : (x.lib.threads t).point.target = some u) : u ∈ x.kids t := by
  cases h.stands t ht with
  | user hk | entry hk | yielded hk hcode =>
      rw [hk] at hu
      cases hu
  | join hk hcode hkid =>
      rw [hk] at hu
      obtain rfl := Option.some.inj hu
      exact List.mem_of_getElem? hkid

theorem kid_of_joins {t u : Tid} (hj : x.lib.Joins t u) : u ∈ x.kids t :=
  h.kid_of_target hj.1 (h.inv.joins_target hj)

/-- Along joins threads get younger. -/
theorem id_le_of_joins {t u : Tid} (hpath : Relation.ReflTransGen x.lib.Joins t u) :
    (x.lib.threads t).id ≤ (x.lib.threads u).id := by
  induction hpath with
  | refl => exact Nat.le_refl _
  | tail _ hj ih => exact ih.trans (h.older _ hj.1 _ (h.kid_of_joins hj)).le

/-- Below a thread that has not finished there is one that can run. -/
theorem exists_runnable {u : Tid} (hu : u ∈ x.lib.handles)
    (hlive : (x.lib.threads u).state ≠ .terminated) :
    ∃ v ∈ x.lib.handles, ((x.lib.threads v).state = .ready ∨ (x.lib.threads v).state = .running) ∧
      (x.lib.threads u).id ≤ (x.lib.threads v).id ∧
      (v = u ∨ (x.lib.threads v).joinedBy ≠ none) := by
  have hids := h.reach.settled.ids
  induction hgap : x.lib.nextThreadId - (x.lib.threads u).id using Nat.strongRecOn
    generalizing u with
  | _ gap ih =>
      cases hstate : (x.lib.threads u).state with
      | ready => exact ⟨u, hu, Or.inl hstate, Nat.le_refl _, Or.inl rfl⟩
      | running => exact ⟨u, hu, Or.inr hstate, Nat.le_refl _, Or.inl rfl⟩
      | terminated => exact absurd hstate hlive
      | blocked =>
          have hblocking := (h.inv.sched.threads_ok u hu).blocking hstate
          cases h.stands u hu with
          | user hk | entry hk | yielded hk hcode =>
              rw [hk] at hblocking
              simp [Point.Blocking, Point.queue, Point.target, Point.sigset] at hblocking
          | @join i w retval rest hk hcode hkid =>
              have htarget : (x.lib.threads u).point.target = some w := by
                rw [hk]
                rfl
              obtain ⟨hw, hjoined⟩ := h.inv.join.target u hu w htarget
              have hlt := h.older u hu w (List.mem_of_getElem? hkid)
              have hbound := hids.bound w hw
              obtain ⟨v, hv, hruns, hle, hv'⟩ :=
                ih _ (by omega) hw (h.waiting u hu hstate w htarget) rfl
              refine ⟨v, hv, hruns, by omega, Or.inr ?_⟩
              rcases hv' with rfl | hj
              · simp [hjoined]
              · exact hj

/-- Nobody else joins a child of the running thread. -/
theorem kid_free {u : Tid} (huser : x.lib.running.point = .user)
    (hu : u ∈ x.kids x.lib.currentThread) :
    (x.lib.threads u).joinedBy = none ∧ u ≠ x.lib.currentThread := by
  have hcur := h.inv.sched.current_mem
  have hmem := h.family.kid_mem hcur hu
  constructor
  · by_contra hsome
    obtain ⟨j, hj⟩ := Option.ne_none_iff_exists'.mp hsome
    obtain ⟨hjmem, htarget⟩ := h.inv.join.joiner u hmem j hj
    obtain rfl := h.family.parent_unique h.nodup hjmem (h.kid_of_target hjmem htarget) hcur hu
    rw [← State.running, huser] at htarget
    cases htarget
  · rintro rfl
    exact Nat.lt_irrefl _ (h.older _ hcur _ hu)

/-- A join of a child that has not finished blocks, and another thread runs. -/
theorem joinBlocks {u : Tid} (huser : x.lib.running.point = .user)
    (hu : u ∈ x.kids x.lib.currentThread) (hlive : (x.lib.threads u).state ≠ .terminated) :
    JoinBlocks x.lib u ∧ x.lib.readyQueue ≠ [] := by
  have hcur := h.inv.sched.current_mem
  have hlt := h.older _ hcur u hu
  have hmem := h.family.kid_mem hcur hu
  have hmain := h.family.kid_ne_root h.nodup hcur hu
  have hinit := (setUp_of_reach h.reach).others u hmem hmain
  obtain ⟨hfree, hne⟩ := h.kid_free huser hu
  have hallow : slotsAllow x.lib u = true := by
    obtain ⟨slot, hslot⟩ := Option.isSome_iff_exists.mp
      ((setUp_of_reach h.reach).slot_isSome hinit hmem)
    obtain ⟨own, hown⟩ := Option.isSome_iff_exists.mp
      ((setUp_of_reach h.reach).slot_isSome hinit hcur)
    -- A chain from the child to the caller would make the caller the younger one.
    have hchain : ¬ (x.lib.headRefs slot = u ∧ own = slot) := by
      rintro ⟨hhead, rfl⟩
      have hpath := (slotInv_of_reach h.reach).headed _ hcur own hown
      rw [hhead] at hpath
      have hjoins : Relation.ReflTransGen x.lib.Joins u x.lib.currentThread := by
        refine Relation.ReflTransGen.mono ?_ _ _ hpath
        exact fun _ _ hw => hw.1
      have hle := h.id_le_of_joins hjoins
      omega
    rw [State.slotOf] at hslot hown
    simp only [slotsAllow, hslot, State.running, hown]
    rw [not_and_or] at hchain
    simpa using hchain
  refine ⟨⟨hfree, hne, hlive, hallow⟩, fun hq => ?_⟩
  obtain ⟨v, hv, hready | hruns, hle, -⟩ := h.exists_runnable hmem hlive
  · have hin := (h.inv.sched.ready.mem_iff v).mpr ⟨hv, hready⟩
    rw [hq] at hin
    cases hin
  · obtain rfl := h.inv.sched.running v hv hruns
    omega

/-- The exit of a thread that is not the main thread leaves one to run. -/
theorem exit_next (hmain : x.lib.currentThread ≠ mainThread) :
    x.lib.readyQueue ≠ [] ∨ x.lib.running.joinedBy ≠ none := by
  have hlive : (x.lib.threads mainThread).state ≠ .terminated := fun hdead =>
    (h.dead _ h.family.root_mem hdead).1 rfl
  obtain ⟨v, hv, hready | hruns, -, hroot | hjoined⟩ := h.exists_runnable h.family.root_mem hlive
  · exact Or.inl (List.ne_nil_of_mem ((h.inv.sched.ready.mem_iff v).mpr ⟨hv, hready⟩))
  · exact Or.inl (List.ne_nil_of_mem ((h.inv.sched.ready.mem_iff v).mpr ⟨hv, hready⟩))
  · exact absurd ((h.inv.sched.running v hv hruns).symm.trans hroot) hmain
  · obtain rfl := h.inv.sched.running v hv hruns
    exact Or.inr hjoined

end Coherent

/-- The steps that a thread has before it, with one for its entry, and one less
when it has made the call that its code asks for. -/
def remaining (x : Crew α ω) (work : Tid → Nat) (t : Tid) : Nat :=
  if (x.lib.threads t).state = .terminated then 0
  else
    match (x.lib.threads t).point with
    | .user => work t
    | .entry => work t + 1
    | _ => work t - 1

/-- The running thread in user code has all its work before it. -/
theorem remaining_user {x : Crew α ω} {t : Tid} (work : Tid → Nat)
    (hlive : (x.lib.threads t).state ≠ .terminated) (hk : (x.lib.threads t).point = .user) :
    x.remaining work t = work t := by
  simp [remaining, hlive, hk]

/-- Inside a call it has one step less. -/
theorem remaining_call {x : Crew α ω} {t : Tid} (work : Tid → Nat)
    (hlive : (x.lib.threads t).state ≠ .terminated) (huser : (x.lib.threads t).point ≠ .user)
    (hentry : (x.lib.threads t).point ≠ .entry) : x.remaining work t = work t - 1 := by
  unfold remaining
  rw [if_neg hlive]
  split
  next hk => exact absurd hk huser
  next hk => exact absurd hk hentry
  next => rfl

def total (x : Crew α ω) (work : Tid → Nat) : Nat :=
  (x.lib.handles.map (x.remaining work)).sum

namespace Coherent

variable {func : α → Code α Value ω} {b : Build} {goal : Tid → Result ω} {work : Tid → Nat}
  {x : Crew α ω} {s' : State}

/-- The rest of a thread that looks as before. -/
theorem remaining_congr {x' : Crew α ω} {work' : Tid → Nat} {t : Tid}
    (hface : (x'.lib.threads t).face = (x.lib.threads t).face)
    (hpoint : (x'.lib.threads t).point = (x.lib.threads t).point) (hwork : work' t = work t) :
    x'.remaining work' t = x.remaining work t := by
  simp only [remaining, Thread.face_dead hface, hpoint, hwork]

/-- A thread that is dead afterwards was dead before, and is not the running one. -/
theorem dead_of_shows {k : Point} (hrun : x.lib.running.state = .running)
    (hshows : Shows x.lib.currentThread k x.lib s') {t : Tid} (ht : t ∈ x.lib.handles)
    (hdead : (s'.threads t).state = .terminated) :
    t ≠ x.lib.currentThread ∧ (x.lib.threads t).state = .terminated := by
  have hdead' := (Thread.face_dead (hshows.face t ht)).mp hdead
  refine ⟨?_, hdead'⟩
  rintro rfl
  have hstate : (x.lib.threads x.lib.currentThread).state = .running := hrun
  rw [hstate] at hdead'
  cases hdead'

variable (h : Coherent func b goal work x) (hreach : RegularReach b s')
include h

/-- The other threads still wait for threads that are alive. -/
theorem waiting_of_shows {k : Point} (hshows : Shows x.lib.currentThread k x.lib s') {t : Tid}
    (ht : t ∈ x.lib.handles) (htc : t ≠ x.lib.currentThread)
    (hblocked : (s'.threads t).state = .blocked) :
    ∀ u ∈ (s'.threads t).point.target, (s'.threads u).state ≠ .terminated := by
  intro u hu hdead
  rw [hshows.point t ht htc] at hu
  have hmem := (h.inv.join.target t ht u hu).1
  exact h.waiting t ht (hshows.blocked t ht htc hblocked) u hu
    ((Thread.face_dead (hshows.face u hmem)).mp hdead)

include hreach

/-- The running thread goes on to `code` or stays in its call, and nothing else
happens. -/
theorem goOn {k : Point} {code : Code α Value ω} {n : Nat}
    (hrun : x.lib.running.state = .running)
    (hshows : Shows x.lib.currentThread k x.lib s') (hhandles : s'.handles = x.lib.handles)
    (hmeaning : Evaluates func ((x.kids x.lib.currentThread).map goal) code
      (goal x.lib.currentThread) n)
    (hstands : Stands { x with
      lib := s', code := Function.update x.code x.lib.currentThread code } x.lib.currentThread)
    (hwait : ∀ u ∈ k.target, u ∈ x.lib.handles ∧ (x.lib.threads u).state ≠ .terminated) :
    Coherent func b goal (Function.update work x.lib.currentThread n) { x with
      lib := s', code := Function.update x.code x.lib.currentThread code } := by
  refine ⟨hreach, ?_, ?_, ?_, ?_, ?_, ?_, ?_⟩ <;> dsimp only <;> rw [hhandles]
  · exact h.family
  · intro t ht u hu
    rw [Thread.face_id (hshows.face t ht),
      Thread.face_id (hshows.face u (h.family.kid_mem ht hu))]
    exact h.older t ht u hu
  · intro t ht
    by_cases htc : t = x.lib.currentThread
    · subst htc
      rw [Function.update_self, Function.update_self]
      exact hmeaning
    · rw [Function.update_of_ne htc, Function.update_of_ne htc]
      exact h.meaning t ht
  · intro t ht
    by_cases htc : t = x.lib.currentThread
    · subst htc
      exact hstands
    · exact (h.stands t ht).congr (hshows.point t ht htc) (Function.update_of_ne htc _ _) rfl
  · intro t ht hdead
    obtain ⟨htc, hdead'⟩ := dead_of_shows hrun hshows ht hdead
    rw [Function.update_of_ne htc, Thread.face_retval (hshows.face t ht)]
    exact h.dead t ht hdead'
  · intro t ht
    rw [Thread.face_stackOverflow (hshows.face t ht)]
    exact h.intact t ht
  · intro t ht hblocked u hu
    by_cases htc : t = x.lib.currentThread
    · subst htc
      rw [hshows.own] at hu
      obtain ⟨hmem, hlive⟩ := hwait u hu
      exact fun hdead => hlive ((Thread.face_dead (hshows.face u hmem)).mp hdead)
    · exact h.waiting_of_shows hshows ht htc hblocked u hu

omit h hreach in
/-- The rest of the running thread gets less, and no other one changes. -/
theorem total_lt {x' : Crew α ω} {work' : Tid → Nat} (hcur : x.lib.currentThread ∈ x.lib.handles)
    (hhandles : x'.lib.handles = x.lib.handles)
    (hother : ∀ t ∈ x.lib.handles, t ≠ x.lib.currentThread →
      x'.remaining work' t = x.remaining work t)
    (hless : x'.remaining work' x.lib.currentThread < x.remaining work x.lib.currentThread) :
    x'.total work' < x.total work := by
  unfold total
  rw [hhandles]
  refine List.sum_lt_sum _ _ (fun t ht => ?_) ⟨_, hcur, hless⟩
  by_cases htc : t = x.lib.currentThread
  · subst htc
    exact hless.le
  · exact (hother t ht htc).le

/-- A child is created. -/
theorem adopt [Inhabited ω] {c : Call} {n : Tid} {a : α} {rest : Code α Value ω} {w : Result ω}
    {m k : Nat} (hrun : x.lib.running.state = .running) (hn : n ∉ x.lib.handles)
    (hcreated : Created n c x.lib s') (hcall : Evaluates func [] (func a) w m)
    (hrest : Evaluates func ((x.kids x.lib.currentThread).map goal ++ [w]) rest
      (goal x.lib.currentThread) k) :
    Coherent func b (Function.update goal n w)
      (Function.update (Function.update work x.lib.currentThread k) n m)
      (Crew.adopt func { x with lib := s' } x.lib.currentThread n a rest) := by
  have hcur := h.inv.sched.current_mem
  have hne : ∀ t ∈ x.lib.handles, t ≠ n := fun t ht heq => hn (heq ▸ ht)
  have hshows := hcreated.shows
  have hlive : (s'.threads n).state ≠ .terminated := by
    have hface := congrArg (·.2.2.2) hcreated.face
    simpa [Thread.face] using hface
  have hgoal : ∀ t ∈ x.lib.handles, (x.kids t).map (Function.update goal n w) =
      (x.kids t).map goal := fun t ht =>
    List.map_congr_left fun u hu => Function.update_of_ne (hne u (h.family.kid_mem ht hu)) _ _
  have hold : ∀ {P : Tid → Prop}, P n → (∀ t ∈ x.lib.handles, P t) → ∀ t ∈ s'.handles, P t := by
    intro P hnew hall t ht
    rw [hcreated.handles] at ht
    rcases List.mem_cons.mp ht with rfl | ht
    · exact hnew
    · exact hall t ht
  constructor
  · exact hreach
  · exact hcreated.handles ▸ h.family.adopt h.nodup hcur hn
  · refine hold ?_ fun t ht u hu => ?_
    · simp [Crew.adopt]
    · have hkid : u ∈ x.kids t ∨ u = n ∧ t = x.lib.currentThread := by
        by_cases htc : t = x.lib.currentThread
        · subst htc
          simpa [Crew.adopt, hne _ ht] using hu
        · exact Or.inl (by simpa [Crew.adopt, hne t ht, htc] using hu)
      have hid := Thread.face_id (hshows.face t ht)
      rcases hkid with hkid | ⟨rfl, -⟩
      · have hid' := Thread.face_id (hshows.face u (h.family.kid_mem ht hkid))
        exact hid ▸ hid' ▸ h.older t ht u hkid
      · have hnew : (s'.threads u).id = x.lib.nextThreadId := congrArg Prod.fst hcreated.face
        exact hid ▸ hnew ▸ h.reach.settled.ids.bound t ht
  · refine hold ?_ fun t ht => ?_
    · simpa [Crew.adopt] using hcall
    · by_cases htc : t = x.lib.currentThread
      · subst htc
        have hkids := hgoal _ ht
        simpa [Crew.adopt, hne _ ht, hkids] using hrest
      · have hkids := hgoal t ht
        simpa [Crew.adopt, hne t ht, htc, hkids] using h.meaning t ht
  · refine hold (.entry hcreated.entry) fun t ht => ?_
    by_cases htc : t = x.lib.currentThread
    · subst htc
      exact .user hshows.own
    · refine (h.stands t ht).congr (hshows.point t ht htc) ?_ ?_
      · simp [Crew.adopt, hne t ht, htc]
      · simp [Crew.adopt, hne t ht, htc]
  · refine hold (fun hdead => absurd hdead hlive) fun t ht hdead => ?_
    obtain ⟨htc, hdead'⟩ := dead_of_shows hrun hshows ht hdead
    have hretval := Thread.face_retval (hshows.face t ht)
    simpa [Crew.adopt, hne t ht, htc, hretval] using h.dead t ht hdead'
  · refine hold (congrArg (·.2.2.1) hcreated.face) fun t ht => ?_
    exact (Thread.face_stackOverflow (hshows.face t ht)).trans (h.intact t ht)
  · refine hold (fun hblocked => absurd hblocked hcreated.ready) fun t ht hblocked u hu => ?_
    by_cases htc : t = x.lib.currentThread
    · subst htc
      rw [Crew.adopt, hshows.own] at hu
      cases hu
    · exact h.waiting_of_shows hshows ht htc hblocked u hu

omit hreach in
/-- The work of a child was part of that of its parent. -/
theorem adopt_total_lt [Inhabited ω] {c : Call} {n : Tid} {a : α} {rest : Code α Value ω}
    {m k : Nat} (hlive : (x.lib.threads x.lib.currentThread).state ≠ .terminated)
    (huser : x.lib.running.point = .user) (hn : n ∉ x.lib.handles)
    (hcreated : Created n c x.lib s') (hwork : work x.lib.currentThread = m + k + 2) :
    (Crew.adopt func { x with lib := s' } x.lib.currentThread n a rest).total
      (Function.update (Function.update work x.lib.currentThread k) n m) < x.total work := by
  have hcur := h.inv.sched.current_mem
  have hne : ∀ t ∈ x.lib.handles, t ≠ n := fun t ht heq => hn (heq ▸ ht)
  have hshows := hcreated.shows
  generalize hy : Crew.adopt func { x with lib := s' } x.lib.currentThread n a rest = y
  have hlib : y.lib = s' := by
    rw [← hy]
    rfl
  let work' := Function.update (Function.update work x.lib.currentThread k) n m
  have hchild : y.remaining work' n = m + 1 := by
    have hface := congrArg (·.2.2.2) hcreated.face
    simp only [Thread.face, decide_eq_false_iff_not] at hface
    simp [remaining, hlib, hface, hcreated.entry, work']
  have hparent : y.remaining work' x.lib.currentThread = k := by
    rw [remaining_user work' (by rw [hlib]; exact hshows.live hcur hlive)
      (by rw [hlib]; exact hshows.own)]
    simp [work', hne _ hcur]
  have hold := remaining_user work hlive huser
  have hrest : (x.lib.handles.erase x.lib.currentThread).map (y.remaining work') =
      (x.lib.handles.erase x.lib.currentThread).map (x.remaining work) := by
    refine List.map_congr_left fun t ht => ?_
    obtain ⟨htc, ht⟩ := h.nodup.mem_erase_iff.mp ht
    refine remaining_congr (by rw [hlib]; exact hshows.face t ht)
      (by rw [hlib]; exact hshows.point t ht htc) ?_
    simp [work', hne t ht, htc]
  have hsum := List.sum_map_erase (y.remaining work') hcur
  have hsum' := List.sum_map_erase (x.remaining work) hcur
  change y.total work' < _
  unfold total
  rw [hlib, hcreated.handles, List.map_cons, List.sum_cons, ← hsum, ← hsum', hrest, hchild, hparent,
    hold, hwork]
  omega

/-- A child that has finished is joined. -/
theorem receive {c : Call} {i k : Nat} {u : Tid} {retval : Bool}
    {rest : Option Value × ω → Code α Value ω}
    (hrun : x.lib.running.state = .running)
    (hkid : (x.kids x.lib.currentThread)[i]? = some u)
    (hdead : (x.lib.threads u).state = .terminated) (hjoined : Joined u retval c x.lib s')
    (hrest : Evaluates func (((x.kids x.lib.currentThread).map goal).eraseIdx i)
      (rest (known retval (goal u))) (goal x.lib.currentThread) k) :
    Coherent func b goal (Function.update work x.lib.currentThread k)
      (Crew.receive { x with lib := s' } x.lib.currentThread i u (storedRetval x.lib u retval)
        rest) := by
  have hcur := h.inv.sched.current_mem
  have hu := h.family.kid_mem hcur (List.mem_of_getElem? hkid)
  obtain ⟨hmain, hcode, hretval, hcell⟩ := h.dead u hu hdead
  have hvalue : (storedRetval x.lib u retval, x.cell u) = known retval (goal u) := by
    rw [storedRetval, known, hretval, hcell]
  have hleaf : x.kids u = [] := by
    have hmeaning := h.meaning u hu
    rw [hcode] at hmeaning
    exact List.map_eq_nil_iff.mp hmeaning.ret_inv.1
  have hshows := hjoined.shows
  have hold : ∀ {P : Tid → Prop}, (∀ t ∈ x.lib.handles, t ≠ u → P t) → ∀ t ∈ s'.handles, P t := by
    intro P hall t ht
    rw [hjoined.handles, h.nodup.mem_erase_iff] at ht
    exact hall t ht.2 ht.1
  have hkids : ∀ t, Function.update x.kids x.lib.currentThread
      ((x.kids x.lib.currentThread).eraseIdx i) t ⊆ x.kids t := by
    intro t
    by_cases htc : t = x.lib.currentThread
    · subst htc
      rw [Function.update_self]
      exact List.eraseIdx_subset
    · rw [Function.update_of_ne htc]
      exact List.Subset.refl _
  constructor
  · exact hreach
  · exact hjoined.handles ▸ h.family.leave h.nodup hcur hkid hleaf
  · refine hold fun t ht _ v hv => ?_
    have hv := hkids t hv
    have hid := Thread.face_id (hshows.face t ht)
    have hid' := Thread.face_id (hshows.face v (h.family.kid_mem ht hv))
    exact hid ▸ hid' ▸ h.older t ht v hv
  · refine hold fun t ht _ => ?_
    by_cases htc : t = x.lib.currentThread
    · subst htc
      rw [← hvalue] at hrest
      simpa [Crew.receive, List.eraseIdx_map] using hrest
    · simpa [Crew.receive, htc] using h.meaning t ht
  · refine hold fun t ht _ => ?_
    by_cases htc : t = x.lib.currentThread
    · subst htc
      exact .user hshows.own
    · refine (h.stands t ht).congr (hshows.point t ht htc) ?_ ?_
      · simp [Crew.receive, htc]
      · simp [Crew.receive, htc]
  · refine hold fun t ht _ hdead => ?_
    obtain ⟨htc, hdead'⟩ := dead_of_shows hrun hshows ht hdead
    have hretval := Thread.face_retval (hshows.face t ht)
    simpa [Crew.receive, htc, hretval] using h.dead t ht hdead'
  · refine hold fun t ht _ => ?_
    exact (Thread.face_stackOverflow (hshows.face t ht)).trans (h.intact t ht)
  · refine hold fun t ht _ hblocked v hv => ?_
    by_cases htc : t = x.lib.currentThread
    · subst htc
      rw [Crew.receive, hshows.own] at hv
      cases hv
    · exact h.waiting_of_shows hshows ht htc hblocked v hv

omit hreach in
theorem receive_total_lt {c : Call} {i k : Nat} {u : Tid} {retval : Bool} {stored : Option Value}
    {rest : Option Value × ω → Code α Value ω}
    (hlive : (x.lib.threads x.lib.currentThread).state ≠ .terminated)
    (hu : u ∈ x.lib.handles) (hdead : (x.lib.threads u).state = .terminated)
    (hjoined : Joined u retval c x.lib s') (hless : k < x.remaining work x.lib.currentThread) :
    (Crew.receive { x with lib := s' } x.lib.currentThread i u stored rest).total
      (Function.update work x.lib.currentThread k) < x.total work := by
  have hshows := hjoined.shows
  have hne : x.lib.currentThread ≠ u := by
    rintro heq
    exact hlive (heq ▸ hdead)
  have hcur : x.lib.currentThread ∈ x.lib.handles.erase u :=
    (List.mem_erase_of_ne hne).mpr h.inv.sched.current_mem
  have hgone : x.remaining work u = 0 := if_pos hdead
  have hsum := List.sum_map_erase (x.remaining work) hu
  have hlt : ((x.lib.handles.erase u).map
      ((Crew.receive { x with lib := s' } x.lib.currentThread i u stored rest).remaining
        (Function.update work x.lib.currentThread k))).sum <
      ((x.lib.handles.erase u).map (x.remaining work)).sum := by
    have hown : (Crew.receive { x with lib := s' } x.lib.currentThread i u stored rest).remaining
        (Function.update work x.lib.currentThread k) x.lib.currentThread = k := by
      rw [remaining_user _ (hshows.live h.inv.sched.current_mem hlive) hshows.own,
        Function.update_self]
    refine List.sum_lt_sum _ _ (fun t ht => ?_) ⟨_, hcur, hown.trans_lt hless⟩
    by_cases htc : t = x.lib.currentThread
    · subst htc
      exact (hown.trans_lt hless).le
    · have ht := List.mem_of_mem_erase ht
      refine le_of_eq (remaining_congr (hshows.face t ht) (hshows.point t ht htc) ?_)
      exact Function.update_of_ne htc _ _
  rw [hgone] at hsum
  unfold total
  rw [show (Crew.receive { x with lib := s' } x.lib.currentThread i u stored rest).lib.handles =
    x.lib.handles.erase u from hjoined.handles]
  omega

/-- A thread has returned from its function. -/
theorem leave {v : Result ω} (hmain : x.lib.currentThread ≠ mainThread)
    (hcode : x.code x.lib.currentThread = .ret v) (hleft : Left v.1 x.lib s') :
    Coherent func b goal work { x with
      lib := s', cell := Function.update x.cell x.lib.currentThread v.2 } := by
  have hcur := h.inv.sched.current_mem
  have hgoal : goal x.lib.currentThread = v := by
    have hmeaning := h.meaning _ hcur
    rw [hcode] at hmeaning
    exact hmeaning.ret_inv.2.1
  have hface : ∀ t ∈ x.lib.handles, (s'.threads t).id = (x.lib.threads t).id ∧
      (s'.threads t).stackOverflow = (x.lib.threads t).stackOverflow := by
    intro t ht
    by_cases htc : t = x.lib.currentThread
    · subst htc
      exact ⟨congrArg Prod.fst hleft.own, congrArg (·.2.2.1) hleft.own⟩
    · have hsame := hleft.face t ht htc
      exact ⟨Thread.face_id hsame, Thread.face_stackOverflow hsame⟩
  refine ⟨hreach, ?_, ?_, ?_, ?_, ?_, ?_, ?_⟩ <;> dsimp only <;> rw [hleft.handles]
  · exact h.family
  · intro t ht u hu
    rw [(hface t ht).1, (hface u (h.family.kid_mem ht hu)).1]
    exact h.older t ht u hu
  · exact h.meaning
  · exact fun t ht => (h.stands t ht).congr (hleft.point t) rfl rfl
  · intro t ht hdead
    by_cases htc : t = x.lib.currentThread
    · subst htc
      have hretval : (s'.threads x.lib.currentThread).retval = v.1 := congrArg (·.2.1) hleft.own
      rw [Function.update_self, hgoal, hretval]
      exact ⟨hmain, hcode, rfl, rfl⟩
    · have hsame := hleft.face t ht htc
      rw [Function.update_of_ne htc, Thread.face_retval hsame]
      exact h.dead t ht ((Thread.face_dead hsame).mp hdead)
  · intro t ht
    rw [(hface t ht).2]
    exact h.intact t ht
  · intro t ht hblocked u hu hdead
    obtain ⟨hblocked', hjoiner⟩ := hleft.blocked t hblocked
    rw [hleft.point t] at hu
    obtain ⟨hmem, hjoined⟩ := h.inv.join.target t ht u hu
    -- The joiner of the thread that leaves has been woken.
    have huc : u ≠ x.lib.currentThread := by
      rintro rfl
      exact hjoiner hjoined
    exact h.waiting t ht hblocked' u hu
      ((Thread.face_dead (hleft.face u hmem huc)).mp hdead)

end Coherent

end Crew

end UserThreads
