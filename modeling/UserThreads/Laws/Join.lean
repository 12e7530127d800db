import UserThreads.History.Identity
import UserThreads.Laws.Memory
import UserThreads.Transition.History

/-!
# What a join returns

A join that returns has found its target terminated, and hands out the value
with which the target exited. The history knows each exit, so the law can be
read off it: a `joined` entry comes after the `exited` entry of the same id.
-/

namespace UserThreads

open Transition

/-- What an entry says about the exit of the thread `id`. -/
def exitVerdict (id : Nat) : Event → Option (Option Value)
  | .exited id' v => if id' = id then some (some v) else none
  | _ => none

/-- The value with which the history lets a thread exit. -/
def exitValue (id : Nat) : List Event → Option Value := latest (exitVerdict id) none

/-- The exit value that a record shows. -/
def Thread.outcome (th : Thread) : Option Value :=
  if th.state = .terminated then some th.retval else none

/-- A thread exits once, and is joined after that, for the value it left. -/
def ExitEntry (past : List Event) : Event → Prop
  | .exited id _ => exitValue id past = none
  | .joined id _ stored => ∃ v, exitValue id past = some v ∧ ∀ x ∈ stored, x = v
  | _ => True

/-- What the invariant below reads of a record. -/
def Thread.exitView (th : Thread) : Nat × Option Value × Option Addr :=
  (th.id, th.outcome, th.stackMap)

theorem Thread.of_exitView {th th' : Thread} (h : th'.exitView = th.exitView) :
    th'.id = th.id ∧ th'.outcome = th.outcome ∧ th'.stackMap = th.stackMap := by
  simpa [Thread.exitView] using h

/-- A live thread has a stack, the main thread apart. -/
def Thread.Stacked (t : Tid) (th : Thread) : Prop :=
  t ≠ mainThread → th.outcome = none → th.stackMap ≠ none

/-- The records show the exits of the history, and a thread that has not
exited is still there. -/
structure ExitInv (s : State) : Prop where
  values : ∀ t ∈ s.handles, (s.threads t).outcome = exitValue (s.threads t).id s.trace
  entries : Throughout ExitEntry s.trace
  alive : ∀ id t, .created id t ∈ s.trace → exitValue id s.trace = none →
    t ∈ s.handles ∧ (s.threads t).id = id ∧ t ≠ mainThread
  stacked : ∀ t ∈ s.handles, (s.threads t).Stacked t

theorem exitInv_initial : ExitInv State.initial where
  values := fun _ _ => rfl
  entries := trivial
  alive := by simp [State.initial]
  stacked := by
    intro t ht hmain
    exact absurd (by simpa [State.initial] using ht) hmain

/-- The entry says nothing about creations, exits and joins. -/
def Event.Aside : Event → Prop
  | .created _ _ => False
  | .exited _ _ => False
  | .joined _ _ _ => False
  | _ => True

theorem Event.Aside.verdict {e : Event} (h : e.Aside) (id : Nat) : exitVerdict id e = none := by
  cases e <;> first | rfl | exact h.elim

theorem Event.Aside.entry {e : Event} (h : e.Aside) (past : List Event) : ExitEntry past e := by
  cases e <;> trivial

theorem exitValue_aside {id : Nat} {l hist : List Event} (h : ∀ e ∈ l, e.Aside) :
    exitValue id (l ++ hist) = exitValue id hist :=
  latest_append_none fun e he => (h e he).verdict id

theorem mem_aside {id : Nat} {t : Tid} {l hist : List Event} (h : ∀ e ∈ l, e.Aside)
    (hmem : .created id t ∈ l ++ hist) : .created id t ∈ hist := by
  rcases List.mem_append.mp hmem with hmem | hmem
  · exact (h _ hmem).elim
  · exact hmem

/-- The history has no exit of a thread that is still to come. -/
theorem exitVerdict_future {e : Event} {n : Nat} (h : ∀ id ∈ e.subject, id < n) :
    exitVerdict n e = none := by
  cases e with
  | exited id v =>
      have hlt : id < n := h id rfl
      exact if_neg (by omega)
  | _ => rfl

namespace ExitInv

variable {i : Input} {s s' : State}

/-- No thread is created, exits or is claimed. -/
theorem aside (h : ExitInv s) (hhandles : s'.handles = s.handles)
    (hid : ∀ t ∈ s.handles, (s'.threads t).id = (s.threads t).id)
    (hout : ∀ t ∈ s.handles, (s'.threads t).outcome = (s.threads t).outcome)
    (hstack : ∀ t ∈ s.handles, (s'.threads t).Stacked t)
    {l : List Event} (htrace : s'.trace = l ++ s.trace) (hnew : ∀ e ∈ l, e.Aside) :
    ExitInv s' where
  values := by
    rw [htrace, hhandles]
    exact Mirrors.silent (k := Thread.id) h.values (List.Subset.refl _) hid hout
      fun id e he => (hnew e he).verdict id
  entries := by
    rw [htrace]
    exact h.entries.append fun past e he => (hnew e he).entry past
  alive := by
    intro id t hmem hnone
    rw [htrace] at hmem hnone
    rw [exitValue_aside hnew] at hnone
    obtain ⟨ht, hid', hmain⟩ := h.alive id t (mem_aside hnew hmem) hnone
    exact ⟨hhandles ▸ ht, (hid t ht).trans hid', hmain⟩
  stacked := hhandles ▸ hstack

/-- Records are written, in nothing that concerns exits and stacks. -/
theorem write (h : ExitInv s) (hhandles : s'.handles = s.handles)
    (hsame : ∀ t ∈ s.handles, (s'.threads t).exitView = (s.threads t).exitView)
    {l : List Event} (htrace : s'.trace = l ++ s.trace) (hnew : ∀ e ∈ l, e.Aside) :
    ExitInv s' := by
  refine h.aside hhandles (fun t ht => (Thread.of_exitView (hsame t ht)).1)
    (fun t ht => (Thread.of_exitView (hsame t ht)).2.1) (fun t ht hmain hnone => ?_) htrace hnew
  obtain ⟨-, hout, hstack⟩ := Thread.of_exitView (hsame t ht)
  rw [hstack]
  exact h.stacked t ht hmain (hout ▸ hnone)

/-- One record changes its state, and is not terminated before or after. -/
theorem restate (h : ExitInv s) (hhandles : s'.handles = s.handles) {t : Tid} {a : Thread}
    (hthreads : s'.threads = Function.update s.threads t a)
    (hid : a.id = (s.threads t).id) (hlive : (s.threads t).state ≠ .terminated)
    (hlive' : a.state ≠ .terminated) (hstack : a.stackMap = (s.threads t).stackMap)
    {l : List Event} (htrace : s'.trace = l ++ s.trace) (hnew : ∀ e ∈ l, e.Aside) :
    ExitInv s' := by
  refine h.write hhandles (fun u _ => ?_) htrace hnew
  rw [hthreads]
  refine proj_update Thread.exitView ?_ u
  simp [Thread.exitView, Thread.outcome, hlive, hlive', hid, hstack]

theorem wakeHead (h : ExitInv s) (hinv : Inv s) {q : QueueId} {t : Tid} {rest : List Tid}
    (hq : s.waitingQueue q = t :: rest) (rq : List Tid) {l : List Event}
    (hnew : ∀ e ∈ l, e.Aside) :
    ExitInv ({ s with trace := l ++ s.trace }.wakeHead q t rest rq) := by
  obtain ⟨-, hblocked, -⟩ := hinv.sched.of_waiting hq
  refine h.restate (l := _ :: _ :: l) rfl rfl rfl (by rw [hblocked]; simp) (by simp) rfl rfl ?_
  simpa [Event.Aside] using hnew

theorem parkAt (h : ExitInv s) (hrun : s.running.state = .running) (q : QueueId) (k : Point) :
    ExitInv (s.parkAt q k) := by
  have hlive : (s.threads s.currentThread).state ≠ .terminated := by
    rw [← State.running, hrun]
    simp
  exact h.restate (l := [_, _]) rfl rfl rfl hlive (by simp) rfl rfl (by simp [Event.Aside])

theorem terminate (h : ExitInv s) (hwf : WellFormed s) (hrun : s.running.state = .running)
    (v : Value) : ExitInv (s.terminate v) := by
  have hcur := hwf.inv.sched.current_mem
  have hnone : exitValue s.self s.trace = none := by
    rw [State.self, ← h.values _ hcur]
    exact if_neg (by rw [← State.running, hrun]; simp)
  constructor
  · refine Mirrors.set (k := Thread.id) (e := .exited s.self v) h.values
      (fun u hu => hwf.ids.inj u hu _ hcur) rfl ?_ ?_
    · simp [exitVerdict, Thread.outcome, State.self]
    · intro id hne
      simp [exitVerdict, State.self, Ne.symm hne]
  · exact ⟨trivial, hnone, h.entries⟩
  · intro id t hmem hnone'
    have hold : .created id t ∈ s.trace := by simpa [State.terminate] using hmem
    by_cases hself : s.self = id
    · simp [State.terminate, exitValue, latest, exitVerdict, hself] at hnone'
    · have hnone'' : exitValue id s.trace = none := by
        simpa [State.terminate, exitValue, latest, exitVerdict, hself] using hnone'
      obtain ⟨ht, hid, hmain⟩ := h.alive id t hold hnone''
      exact ⟨ht, (proj_update Thread.id (by rfl) t).trans hid, hmain⟩
  · refine forall_update (P := Thread.Stacked) h.stacked fun _ _ hout => ?_
    simp [Thread.outcome] at hout

theorem claimed (h : ExitInv s) {t : Tid} (ht : t ∈ s.handles)
    (hdead : (s.threads t).state = .terminated) {code : Int} {stored : Option Value}
    (hstored : ∀ v ∈ stored, v = (s.threads t).retval)
    (hhandles : s'.handles = s.handles.erase t)
    (hsame : ∀ u, (s'.threads u).exitView = (s.threads u).exitView)
    (htrace : s'.trace = .joined (s.threads t).id code stored :: s.trace) : ExitInv s' := by
  have hvalue : exitValue (s.threads t).id s.trace = some (s.threads t).retval := by
    rw [← h.values t ht]
    exact if_pos hdead
  constructor
  · rw [htrace, hhandles]
    exact Mirrors.silent (k := Thread.id) (l := [_]) h.values List.erase_subset
      (fun u _ => (Thread.of_exitView (hsame u)).1)
      (fun u _ => (Thread.of_exitView (hsame u)).2.1) (by simp [exitVerdict])
  · rw [htrace]
    exact ⟨⟨_, hvalue, hstored⟩, h.entries⟩
  · intro id u hmem hnone
    rw [htrace] at hmem hnone
    obtain ⟨hu, hid, hmain⟩ := h.alive id u (by simpa using hmem) hnone
    have hut : u ≠ t := by
      rintro rfl
      rw [← hid] at hnone
      exact absurd (hnone.symm.trans hvalue) (by simp)
    refine ⟨?_, (Thread.of_exitView (hsame u)).1.trans hid, hmain⟩
    rw [hhandles]
    exact (List.mem_erase_of_ne hut).mpr hu
  · intro u hu hmain hout
    rw [hhandles] at hu
    obtain ⟨-, hout', hstack⟩ := Thread.of_exitView (hsame u)
    rw [hstack]
    exact h.stacked u (List.mem_of_mem_erase hu) hmain (hout' ▸ hout)

theorem spawned (h : ExitInv s) (hids : IdInv s) {n : Tid} (hmain : n ≠ mainThread)
    (hhandles : s'.handles = n :: s.handles)
    (hsame : ∀ t ∈ s.handles, (s'.threads t).exitView = (s.threads t).exitView)
    (hid : (s'.threads n).id = s.nextThreadId) (hstate : (s'.threads n).outcome = none)
    (hstack : (s'.threads n).stackMap ≠ none)
    (htrace : s'.trace = .created s.nextThreadId n :: s.trace) : ExitInv s' where
  values := by
    rw [htrace, hhandles]
    refine Mirrors.cons (k := Thread.id) (l := [.created s.nextThreadId n]) h.values
      (fun t ht => (Thread.of_exitView (hsame t ht)).1)
      (fun t ht => (Thread.of_exitView (hsame t ht)).2.1) (by simp [exitVerdict]) ?_
    rw [hid, hstate]
    refine (latest_silent fun e he => ?_).symm
    rcases List.mem_cons.mp he with rfl | he
    · rfl
    · exact exitVerdict_future (hids.past e he)
  entries := by
    rw [htrace]
    exact ⟨trivial, h.entries⟩
  alive := by
    intro id t hmem hnone
    rw [htrace] at hmem hnone
    rw [hhandles]
    rcases List.mem_cons.mp hmem with heq | hmem
    · cases heq
      exact ⟨List.mem_cons_self, hid, hmain⟩
    · obtain ⟨ht, hidt, hmain'⟩ := h.alive id t hmem hnone
      exact ⟨List.mem_cons_of_mem n ht, (Thread.of_exitView (hsame t ht)).1.trans hidt, hmain'⟩
  stacked := by
    rw [hhandles]
    intro t ht hmain' hout
    rcases List.mem_cons.mp ht with rfl | ht
    · exact hstack
    · obtain ⟨-, hout', hstack'⟩ := Thread.of_exitView (hsame t ht)
      rw [hstack']
      exact h.stacked t ht hmain' (hout' ▸ hout)

theorem move (h : ExitInv s) (hwf : WellFormed s) (hm : Move i s s') : ExitInv s' := by
  have hinv := hwf.inv
  have hnot : ∀ {t : Tid} {st : ThreadState}, (s.threads t).state = st → st ≠ .terminated →
      (s.threads t).state ≠ .terminated := fun heq hne => heq ▸ hne
  cases hm with
  | semPark sm hrun huser hcount => exact h.parkAt hrun _ _
  | yieldAt k rq hrun hold huser hrq =>
      exact h.restate (l := [_]) rfl rfl rfl (hnot hrun (by simp)) (by simp) rfl rfl
        (by simp [Event.Aside])
  | dispatch next rq hrun hrq =>
      obtain ⟨-, hready⟩ := (hinv.sched.ready.mem_iff next).mp (hrq.mem_iff.mp List.mem_cons_self)
      exact h.restate (l := [_]) rfl rfl rfl (hnot hready (by simp)) (by simp) rfl rfl
        (by simp [Event.Aside])
  | condWake c t rest rq hq hrq => exact h.wakeHead hinv hq rq (l := []) (by simp)
  | semPostWake sm t rest rq hq hrq =>
      exact h.wakeHead hinv hq rq (l := [.semPosted sm s.self]) (by simp [Event.Aside])
  | terminate v hrun huser => exact h.terminate hwf hrun v
  | wakeJoiner d j rq hd hdead hj hblocked hrq =>
      exact h.restate (l := [_]) rfl rfl rfl (hnot hblocked (by simp)) (by simp) rfl rfl
        (by simp [Event.Aside])
  | sigwaitAt set hrun hold hpending =>
      exact h.restate (l := [_]) rfl rfl rfl (hnot hrun (by simp)) (by simp) rfl rfl
        (by simp [Event.Aside])
  | signalWake t sig rq hsig ht hblocked hwait hset hrq =>
      exact h.restate (l := [_, _]) rfl rfl rfl (hnot hblocked (by simp)) (by simp) rfl rfl
        (by simp [Event.Aside])
  | claimed t code stored head sp mp tp hp hrun ht hne hdead hzombie hpoint hstored heq =>
      exact h.claimed ht hdead hstored rfl
        (fun u => claimed_proj Thread.exitView hne (by rfl) (by rfl) u) rfl
  | stackDeferred t map base deferred ht hdead heq =>
      refine h.aside rfl (fun u _ => proj_update Thread.id (by rfl) u)
        (fun u _ => proj_update Thread.outcome (by rfl) u) ?_ (l := []) rfl (by simp)
      refine forall_update (P := Thread.Stacked) h.stacked fun _ _ hout => ?_
      simp [Thread.outcome, hdead] at hout
  | spawned n r entry rest ref count cap index active rq hrun hk hpool hslot hrq =>
      obtain ⟨hfresh, hmain, -⟩ :=
        hinv.mem.held_fresh hinv.sched.current_mem (congrArg Point.held hk)
      refine h.spawned hwf.ids hmain rfl (fun t ht => ?_) ?_ ?_ ?_ rfl
      · have hne : t ≠ n := fun e => hfresh (e ▸ ht)
        exact spawn_proj (s := s.slotGiven n ref count cap index active) Thread.exitView rfl hne
      · simp [State.spawn, State.slotGiven]
      · simp [State.spawn, State.slotGiven, Thread.fresh, Thread.outcome]
      · simp [State.spawn, State.slotGiven, Thread.fresh]
  | scribble n th hdead hmain =>
      refine h.write rfl (fun t ht => ?_) (l := []) rfl (by simp)
      have hne : t ≠ n := fun e => hdead (e ▸ ht)
      exact congrArg Thread.exitView (Function.update_of_ne hne _ _)
  | _ =>
      first
      | exact h.write rfl (fun _ _ => rfl) (l := []) rfl (by simp)
      | exact h.write rfl (fun _ _ => rfl) (l := [_]) rfl (by simp [Event.Aside])
      | exact h.write rfl (fun _ _ => rfl) (l := [_, _]) rfl (by simp [Event.Aside])
      | exact h.write rfl (fun t _ => proj_update Thread.exitView (by rfl) t) (l := []) rfl
          (by simp)
      | exact h.write rfl (fun t _ => proj_update Thread.exitView (by rfl) t) (l := [_]) rfl
          (by simp [Event.Aside])

theorem release (h : ExitInv s) (hinv : Inv s) {m : MutexId} (hr : Release m s s') :
    ExitInv s' := by
  cases hr with
  | handOff t rest rq hq hrq =>
      exact h.wakeHead hinv hq rq (l := [.mutexReleased m s.self]) (by simp [Event.Aside])
  | free hq => exact h.write rfl (fun _ _ => rfl) (l := [_]) rfl (by simp [Event.Aside])

theorem acquire (h : ExitInv s) {m : MutexId} {k : Point} (ha : Acquire m k s s') :
    ExitInv s' := by
  cases ha with
  | take hfree => exact h.write rfl (fun _ _ => rfl) (l := [_]) rfl (by simp [Event.Aside])
  | park hrun hold hvalid hheld hready => exact h.parkAt hrun _ k
  | fail hfail => exact h

theorem act (h : ExitInv s) (hwf : WellFormed s) (ha : Act i s s') : ExitInv s' := by
  cases ha with
  | lock m e hi huser ha => exact h.acquire ha
  | unlock m e hi huser hvalid hheld hr => exact h.release hwf.inv hr
  | condWait c m e hi hrun huser hready hr =>
      obtain ⟨-, hsame⟩ := hwf.inv.release_running hr hrun
      exact (h.release hwf.inv hr).parkAt (by rw [hsame, hrun]) _ _
  | condGiveUp c m e hi huser hready hr ha => exact (h.release hwf.inv hr).acquire ha
  | relock c m e hi hk ha hb =>
      exact hb.rule i (h.acquire ha) fun hm => (h.acquire ha).move (hwf.acquire rfl ha) hm
  | join t slot own retval e hi hrun huser ht hne hlive hfree hslot hown hchain hready =>
      have hrun' : (s.threads s.currentThread).state = .running := hrun
      refine h.write rfl (fun u _ => ?_) (l := [_]) rfl (by simp [Event.Aside])
      refine joinAt_proj Thread.exitView hne (by rfl) ?_ u
      simp [Thread.exitView, Thread.outcome, State.running, hrun']
  | _ => exact h.write rfl (fun _ _ => rfl) (l := [_]) rfl (by simp [Event.Aside])

end ExitInv

/-- `thread_join` on `t` returns 0 and leaves the state `s'`: at once, or
after the switch. -/
def JoinReturns (s : State) (t : Tid) (retval : Bool) (s' : State) : Prop :=
  s.ended = false ∧
    (s.running.point = .user ∧ t ∈ s.handles ∧ threadJoin s (some t) retval = (s', some 0) ∨
      s.running.point = .join t retval ∧ joinResume s t retval = (s', some 0))

/-- A `joined` entry comes after the exit of the same thread, and hands out
the value of that exit. -/
def JoinedEntry (past : List Event) : Event → Prop
  | .joined id _ stored => ∃ v, .exited id v ∈ past ∧ ∀ x ∈ stored, x = v
  | _ => True

/-- A return of 0 is for a thread that has exited, with the value it left; a
joiner goes on only when its target has terminated; and what a thread uses is
not recycled before it has exited. -/
structure JoinLaw (s : State) : Prop where
  exits_once : ∀ id v v', .exited id v ∈ s.trace → .exited id v' ∈ s.trace → v = v'
  history : Throughout JoinedEntry s.trace
  returns : ∀ t retval s', JoinReturns s t retval s' →
    ∃ v, (s.threads t).state = .terminated ∧ .exited (s.threads t).id v ∈ s.trace ∧
      s'.trace.head? = some (.joined (s.threads t).id 0 (if retval then some v else none))
  resumed : ∀ j ∈ s.handles, ∀ t retval, (s.threads j).point = .join t retval →
    (s.threads j).state ≠ .blocked → t ∈ s.handles ∧ (s.threads t).state = .terminated
  in_use : ∀ id t, .created id t ∈ s.trace → (∀ v, .exited id v ∉ s.trace) →
    t ∉ s.threadPool ∧ ∃ a ∈ s.mappings, (s.threads t).stackMap = some a ∧
      (∀ e ∈ s.stackPool, e.map ≠ a) ∧ ∀ e ∈ s.deferredStacks, e.map ≠ a

/-- A join that goes on to block does not return 0 by itself. -/
theorem joinBlock_ne_zero {s : State} {t : Tid} {slot : SlotRef} {retval : Bool} :
    (joinBlock s t slot retval).2 ≠ some 0 := by
  simp only [joinBlock]
  split
  · simp [edeadlk]
  · simp

/-- The immediate path is the only one that returns 0 without a switch. -/
theorem threadJoin_zero {s s' : State} {t : Tid} {retval : Bool}
    (h : threadJoin s (some t) retval = (s', some 0)) :
    (s.threads t).state = .terminated ∧ s' = (joinTerminated s t retval).1 := by
  simp only [threadJoin] at h
  split at h
  next => simp at h
  next =>
    split at h
    next => simp [edeadlk] at h
    next =>
      split at h
      next hdead => exact ⟨hdead, (congrArg Prod.fst h).symm⟩
      next =>
        exfalso
        split at h
        next slot own _ _ =>
          split at h
          next => simp [edeadlk] at h
          next => exact joinBlock_ne_zero (congrArg Prod.snd h)
        next => simp at h

theorem exitValue_mem {id : Nat} {v : Value} {hist : List Event}
    (h : exitValue id hist = some v) : .exited id v ∈ hist := by
  have hne : latest (exitVerdict id) none hist ≠ none := by
    rw [← exitValue, h]
    simp
  obtain ⟨e, he, hv⟩ := exists_of_latest_ne hne
  rw [← exitValue, h] at hv
  cases e with
  | exited id' v' =>
      obtain ⟨rfl, rfl⟩ : id' = id ∧ v' = v := by simpa [exitVerdict] using hv
      exact he
  | _ => cases hv

theorem exitValue_none {id : Nat} {hist : List Event} (h : exitValue id hist = none) (v : Value) :
    .exited id v ∉ hist := by
  intro hmem
  have hd : ∀ e, exitVerdict id e ≠ some none := by
    intro e he
    cases e <;> simp [exitVerdict] at he
  have := silent_of_latest_eq hd h _ hmem
  simp [exitVerdict] at this

/-- As a thread exits once, any of its exits is the one the history shows. -/
theorem exitValue_of_mem {id : Nat} {v : Value} {hist : List Event}
    (h : Throughout ExitEntry hist) (hmem : .exited id v ∈ hist) : exitValue id hist = some v := by
  induction hist with
  | nil => cases hmem
  | cons e past ih =>
      rcases List.mem_cons.mp hmem with rfl | hmem
      · simp [exitValue, latest, exitVerdict]
      · have hpast := ih h.2 hmem
        have hnone : exitVerdict id e = none := by
          cases e with
          | exited id' v' =>
              refine if_neg fun heq => ?_
              have hfirst : exitValue id' past = none := h.1
              rw [heq, hpast] at hfirst
              cases hfirst
          | _ => rfl
        exact (latest_cons_none hnone).trans hpast

theorem ExitInv.exited_of_dead {s : State} (h : ExitInv s) {t : Tid} (ht : t ∈ s.handles)
    (hdead : (s.threads t).state = .terminated) :
    .exited (s.threads t).id (s.threads t).retval ∈ s.trace :=
  exitValue_mem ((h.values t ht).symm.trans (if_pos hdead))

/-- What the blocking path records when it returns 0. -/
theorem joinResume_zero {s s' : State} {t : Tid} {retval : Bool}
    (h : joinResume s t retval = (s', some 0)) :
    s'.trace.head? = some (.joined (s.threads t).id 0
      (if retval then some (s.threads t).retval else none)) := by
  simp only [joinResume] at h
  split at h
  next => simp at h
  next =>
    obtain rfl := (Prod.mk.inj h).1
    by_cases ht : t = s.currentThread
    · subst t
      simp [storedRetval, State.setState, State.emit, State.modifyThread]
    · simp [storedRetval, State.setState, State.emit, State.modifyThread, ht]

theorem ExitInv.joinLaw {s : State} (h : ExitInv s) (hinv : Inv s)
    (hrun : s.ended = false → s.running.state = .running) : JoinLaw s := by
  have hresumed : ∀ j ∈ s.handles, ∀ t retval, (s.threads j).point = .join t retval →
      (s.threads j).state ≠ .blocked → t ∈ s.handles ∧ (s.threads t).state = .terminated := by
    intro j hj t retval hk hne
    have htarget : (s.threads j).point.target = some t := by rw [hk]; rfl
    refine ⟨(hinv.join.target j hj t htarget).1, ?_⟩
    by_contra hlive
    exact hne (hinv.join.blocked j hj t htarget hlive)
  constructor
  · intro id v v' hv hv'
    have heq := (exitValue_of_mem h.entries hv).symm.trans (exitValue_of_mem h.entries hv')
    exact Option.some.inj heq
  · refine h.entries.mono fun past e he => ?_
    cases e with
    | joined id code stored =>
        obtain ⟨v, hv, hstored⟩ := he
        exact ⟨v, exitValue_mem hv, hstored⟩
    | _ => trivial
  · rintro t retval s' ⟨hlive, hreturn⟩
    refine ⟨(s.threads t).retval, ?_⟩
    rcases hreturn with ⟨-, ht, hjoin⟩ | ⟨hk, hjoin⟩
    · obtain ⟨hdead, rfl⟩ := threadJoin_zero hjoin
      exact ⟨hdead, h.exited_of_dead ht hdead, rfl⟩
    · obtain ⟨ht, hdead⟩ := hresumed _ hinv.sched.current_mem t retval hk
        (by rw [← State.running, hrun hlive]; simp)
      exact ⟨hdead, h.exited_of_dead ht hdead, joinResume_zero hjoin⟩
  · exact hresumed
  · intro id t hcreated hexit
    have hnone : exitValue id s.trace = none := by
      by_contra hsome
      obtain ⟨v, hv⟩ := Option.ne_none_iff_exists'.mp hsome
      exact hexit v (exitValue_mem hv)
    obtain ⟨ht, rfl, hmain⟩ := h.alive id t hcreated hnone
    obtain ⟨a, ha⟩ := Option.ne_none_iff_exists'.mp
      (h.stacked t ht hmain ((h.values t ht).trans hnone))
    have hlaw := hinv.ownershipLaw
    refine ⟨fun hpool => (hlaw.pool_unused t hpool).1 ht, a, ?_, ha, fun e he heq => ?_,
      fun e he heq => ?_⟩
    · have howned : a ∈ s.ownedStacks := List.mem_filterMap.mpr ⟨t, ht, ha⟩
      exact hinv.mem.mapped.mem_iff.mpr (by simp [howned])
    · exact hlaw.free_unused e (Or.inl he) t ht (heq ▸ ha)
    · exact hlaw.free_unused e (Or.inr he) t ht (heq ▸ ha)

theorem exitInv_of_reach {b : Build} {s : State} (h : RegularReach b s) : ExitInv s :=
  (Settled.reach h (fun _ _ hg => hg) settled_initial exitInv_initial
    (fun hwf _ hI _ ha => hI.act hwf ha) fun hwf hI hm => hI.move hwf hm).2

/-- In every state of a regular run joins return what their targets left. -/
theorem joinLaw_of_reach {b : Build} {s : State} (h : RegularReach b s) : JoinLaw s :=
  (exitInv_of_reach h).joinLaw h.sound.inv h.sound.runs

/-- A run in which a join has blocked and returned the value of its target,
while another thread is alive. -/
theorem joinLaw_of_reach_script : ∃ s, RegularReach .fifo s ∧
    .joined 1 0 (some 7) ∈ s.trace ∧ .created 2 2 ∈ s.trace ∧ JoinLaw s := by
  obtain ⟨s, hreach, hjoined, hcreated⟩ := exists_reach_of_run (step .fifo) Regular State.initial
    [.create 1, .create 2, .plain (.threadJoin (some 1) true), .go, .plain (.threadExit 7), .go,
      .plain .threadYield, .go]
    (fun s => .joined 1 0 (some 7) ∈ s.trace ∧ .created 2 2 ∈ s.trace) (by decide +kernel)
  exact ⟨s, hreach, hjoined, hcreated, joinLaw_of_reach hreach⟩

/-- A join that found no other thread ready has left its mark on thread 1.
When thread 1 exits later, it wakes the main thread out of its join on thread
2, which is then taken for terminated. -/
theorem not_joinLaw_of_reach :
    ¬ ∀ b s, Reach (step b) ValidHandle State.initial s → JoinLaw s := by
  intro hall
  obtain ⟨s, hreach, hjoined, hnone⟩ := exists_reach_of_run (step .fifo) ValidHandle State.initial
    [.plain (.threadSemInit (some 0) 0), .create 1, .plain .threadYield, .go,
      .plain (.threadSemWait (some 0)), .go, .plain (.threadJoin (some 1) true),
      .plain (.threadSemPost (some 0)), .create 2,
      .plain (.threadJoin (some 2) true), .go, .plain (.threadExit 7), .go,
      .plain .threadYield, .go]
    (fun s => .joined 2 0 (some 0) ∈ s.trace ∧ exitValue 2 s.trace = none) (by decide +kernel)
  obtain ⟨past, hsuffix, v, hv, -⟩ := (hall .fifo s hreach).history.of_mem hjoined
  exact exitValue_none hnone v (hsuffix.subset (List.mem_cons_of_mem _ hv))

end UserThreads
