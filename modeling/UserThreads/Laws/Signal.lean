import UserThreads.History.Identity
import UserThreads.Transition.History

/-!
# Signals between threads

The pending set of a thread is what has been sent to it and not been consumed.
A thread that waits for signals is out of every queue and has none of them
pending, and a wait that returns consumes the lowest pending signal it asked
for.
-/

namespace UserThreads

open Transition

/-- The number of the bit of a signal. -/
def signalIndex (sig : Int) : Nat := (sig - 1).toNat

/-- What an entry says about the signal `sig` of the thread `id`. -/
def pendingVerdict (sig : Int) (id : Nat) : Event → Option Bool
  | .signalSent id' sig' => if id' = id ∧ sig' = sig then some true else none
  | .signalConsumed id' _ sig' => if id' = id ∧ sig' = sig then some false else none
  | _ => none

/-- The signal was sent to the thread after the thread consumed it last. -/
def sentSince (sig : Int) (id : Nat) (hist : List Event) : Bool :=
  latest (pendingVerdict sig id) false hist

/-- The signal is in the pending set of the record. -/
def Thread.hasPending (sig : Int) (th : Thread) : Bool :=
  th.pendingSignals.getLsbD (signalIndex sig)

section Bits

theorem getLsbD_threadSignalBit {sig sig' : Int} (h : 1 ≤ sig ∧ sig ≤ 32)
    (h' : 1 ≤ sig' ∧ sig' ≤ 32) :
    (threadSignalBit sig').getLsbD (signalIndex sig) = decide (sig' = sig) := by
  rw [threadSignalBit, ← BitVec.twoPow_eq, BitVec.getLsbD_twoPow]
  have hlt : (sig' - 1).toNat < 32 := by omega
  simp only [hlt, decide_true, Bool.true_and, signalIndex]
  congr 1
  simp only [eq_iff_iff]
  omega

/-- A set meets the bit of a signal when the signal is in it. -/
theorem and_threadSignalBit_ne_zero {set : BitVec 32} {sig : Int} (h : 1 ≤ sig ∧ sig ≤ 32) :
    set &&& threadSignalBit sig ≠ 0 ↔ set.getLsbD (signalIndex sig) = true := by
  have hlt : (sig - 1).toNat < 32 := by omega
  have hpow : BitVec.twoPow 32 (sig - 1).toNat ≠ 0 := by
    intro hzero
    have hbit := congrArg (·.getLsbD (sig - 1).toNat) hzero
    simp [BitVec.getLsbD_twoPow] at hbit
    omega
  rw [threadSignalBit, ← BitVec.twoPow_eq, BitVec.and_twoPow, signalIndex]
  cases hbit : set.getLsbD (sig - 1).toNat with
  | false => simp
  | true => simpa only [if_true, iff_true] using hpow

theorem getLsbD_or_threadSignalBit (set : BitVec 32) {sig sig' : Int} (h : 1 ≤ sig ∧ sig ≤ 32)
    (h' : 1 ≤ sig' ∧ sig' ≤ 32) : (set ||| threadSignalBit sig').getLsbD (signalIndex sig) =
      if sig' = sig then true else set.getLsbD (signalIndex sig) := by
  rw [BitVec.getLsbD_or, getLsbD_threadSignalBit h h']
  by_cases heq : sig' = sig <;> simp [heq]

theorem getLsbD_clear_threadSignalBit (set : BitVec 32) {sig sig' : Int} (h : 1 ≤ sig ∧ sig ≤ 32)
    (h' : 1 ≤ sig' ∧ sig' ≤ 32) : (set &&& ~~~threadSignalBit sig').getLsbD (signalIndex sig) =
      if sig' = sig then false else set.getLsbD (signalIndex sig) := by
  have hlt : signalIndex sig < 32 := by
    rw [signalIndex]
    omega
  rw [BitVec.getLsbD_and, BitVec.getLsbD_not, getLsbD_threadSignalBit h h']
  by_cases heq : sig' = sig <;> simp [heq, hlt]

/-- The loop stops at the lowest signal of the set. -/
theorem threadSignalPickOne_spec {set : BitVec 32} (h : 0 ≤ threadSignalPickOne set) :
    (1 ≤ threadSignalPickOne set ∧ threadSignalPickOne set ≤ 32) ∧
      set.getLsbD (signalIndex (threadSignalPickOne set)) = true ∧
      ∀ n, 1 ≤ n → n < threadSignalPickOne set → set.getLsbD (signalIndex n) = false := by
  cases hfind : (List.range' 1 32).find? fun n : Nat => decide (set &&& threadSignalBit n ≠ 0) with
  | none =>
      rw [threadSignalPickOne, hfind] at h
      cases h
  | some k =>
      have hpick : threadSignalPickOne set = k := by rw [threadSignalPickOne, hfind]
      obtain ⟨hbit, hmem, hlower⟩ := List.find?_range'_eq_some.mp hfind
      rw [List.mem_range'_1] at hmem
      have hrange : (1 : Int) ≤ k ∧ (k : Int) ≤ 32 := by omega
      rw [hpick]
      refine ⟨hrange, (and_threadSignalBit_ne_zero hrange).mp (by simpa using hbit), ?_⟩
      intro n hn hlt
      have hno := hlower n.toNat (by omega) (by omega)
      rw [Int.toNat_of_nonneg (by omega)] at hno
      rw [← Bool.not_eq_true, ← and_threadSignalBit_ne_zero (by omega)]
      simpa using hno

end Bits

/-- The pending bit of one signal agrees with the history, in every record. -/
abbrev PendingAgrees (sig : Int) (s : State) : Prop :=
  Mirrors s.handles s.threads Thread.id (Thread.hasPending sig) (pendingVerdict sig) false s.trace

namespace PendingAgrees

variable {i : Input} {s s' : State} {sig : Int}

/-- Nothing is said about signals, and no pending set changes. -/
theorem silent (h : PendingAgrees sig s) (hsub : s'.handles ⊆ s.handles)
    (hsame : ∀ t ∈ s.handles, (s'.threads t).id = (s.threads t).id ∧
      (s'.threads t).pendingSignals = (s.threads t).pendingSignals)
    {l : List Event} (htrace : s'.trace = l ++ s.trace)
    (hnew : ∀ e ∈ l, ∀ id, pendingVerdict sig id e = none) : PendingAgrees sig s' := by
  rw [PendingAgrees, htrace]
  refine Mirrors.silent (k := Thread.id) h hsub (fun t ht => (hsame t ht).1) ?_
    fun id e he => hnew e he id
  intro t ht
  rw [Thread.hasPending, (hsame t ht).2, Thread.hasPending]

/-- A signal is sent to `t`, or consumed by it. -/
theorem change (h : PendingAgrees sig s) {t : Tid} {a : Thread} {e : Event} {sent : Bool}
    {other : Int} (hinj : ∀ u ∈ s.handles, (s.threads u).id = (s.threads t).id → u = t)
    (hid : a.id = (s.threads t).id)
    (hbit : a.hasPending sig = if other = sig then sent else (s.threads t).hasPending sig)
    (hverdict : ∀ id, pendingVerdict sig id e =
      if (s.threads t).id = id ∧ other = sig then some sent else none) :
    Mirrors s.handles (Function.update s.threads t a) Thread.id (Thread.hasPending sig)
      (pendingVerdict sig) false (e :: s.trace) := by
  by_cases hsig : other = sig
  · refine Mirrors.set (k := Thread.id) h hinj hid ?_ ?_
    · rw [hverdict, hbit, if_pos ⟨rfl, hsig⟩, if_pos hsig]
    · intro id hne
      rw [hverdict, if_neg fun hc => hne hc.1.symm]
  · refine Mirrors.silent (k := Thread.id) (l := [e]) h (List.Subset.refl _)
      (fun u _ => proj_update Thread.id hid u)
      (fun u _ => proj_update (Thread.hasPending sig) ?_ u) ?_
    · rw [hbit, if_neg hsig]
    · intro id e' he'
      obtain rfl := List.mem_singleton.mp he'
      rw [hverdict, if_neg fun hc => hsig hc.2]

theorem move (h : PendingAgrees sig s) (hsig : 1 ≤ sig ∧ sig ≤ 32) (hwf : WellFormed s)
    (hm : Move i s s') : PendingAgrees sig s' := by
  have hcur := hwf.inv.sched.current_mem
  have hinj : ∀ t ∈ s.handles, ∀ u ∈ s.handles, (s.threads u).id = (s.threads t).id → u = t :=
    fun t ht u hu => hwf.ids.inj u hu t ht
  have hid : ∀ t ∈ s.handles, (s'.threads t).id = (s.threads t).id :=
    fun t ht => hm.id_eq hwf.inv ht
  cases hm with
  | signalSend t other hother ht hno =>
      exact h.change (hinj t ht) rfl (getLsbD_or_threadSignalBit _ hsig hother) fun id => rfl
  | signalWake t other rq hother ht hblocked hwait hset hrq =>
      have hsent := h.change (a := { s.threads t with
          pendingSignals := (s.threads t).pendingSignals ||| threadSignalBit other
          waitingForSignal := false
          waitedSignals := 0
          state := .ready
          inReadyQueue := true }) (e := .signalSent (s.threads t).id other) (hinj t ht) rfl
        (getLsbD_or_threadSignalBit _ hsig hother) fun id => rfl
      exact Mirrors.silent (k := Thread.id) (l := [_]) hsent (List.Subset.refl _) (fun _ _ => rfl)
        (fun _ _ => rfl) (by simp [pendingVerdict])
  | signalConsume set other hrun hother hpos =>
      obtain ⟨hrange, -, -⟩ := threadSignalPickOne_spec (hother ▸ hpos)
      exact h.change (hinj _ hcur) rfl (getLsbD_clear_threadSignalBit _ hsig (hother ▸ hrange))
        fun id => rfl
  | spawned n r entry rest ref count cap index active rq hrun hk hpool hslot hrq =>
      obtain ⟨hfresh, -, -⟩ := hwf.inv.mem.held_fresh hcur (congrArg Point.held hk)
      refine Mirrors.cons (k := Thread.id) (l := [.created s.nextThreadId n]) h hid ?_
        (by simp [pendingVerdict]) ?_
      · intro t ht
        have hne : t ≠ n := fun e => hfresh (e ▸ ht)
        exact spawn_proj (s := s.slotGiven n ref count cap index active) (Thread.hasPending sig)
          rfl hne
      · have hpast : ∀ e ∈ s.trace, pendingVerdict sig s.nextThreadId e = none := by
          intro e he
          have hbound := hwf.ids.past e he
          cases e <;> simp [pendingVerdict, Event.subject] at hbound ⊢ <;> omega
        simp [State.spawn, State.slotGiven, Thread.hasPending, Thread.fresh, latest, pendingVerdict]
        rw [latest_silent hpast]
  | claimed t code stored head sp mp tp hp hrun ht hne hdead hzombie hpoint hstored heq =>
      exact h.silent List.erase_subset
        (fun u hu => ⟨hid u hu, claimed_proj Thread.pendingSignals hne (by rfl) (by rfl) u⟩)
        (l := [_]) rfl (by simp [pendingVerdict])
  | scribble n th hdead hmain =>
      refine h.silent (List.Subset.refl _) (fun t ht => ⟨hid t ht, ?_⟩) (l := []) rfl (by simp)
      have hne : t ≠ n := fun e => hdead (e ▸ ht)
      exact congrArg Thread.pendingSignals (Function.update_of_ne hne _ _)
  | reprioritize f rq hrq =>
      exact h.silent (List.Subset.refl _) (fun _ _ => ⟨rfl, rfl⟩) (l := []) rfl (by simp)
  | _ =>
      first
      | exact h.silent (List.Subset.refl _) (fun t ht => ⟨hid t ht, rfl⟩) (l := []) rfl (by simp)
      | exact h.silent (List.Subset.refl _) (fun t ht => ⟨hid t ht, rfl⟩) (l := [_]) rfl
          (by simp [pendingVerdict])
      | exact h.silent (List.Subset.refl _)
          (fun t ht => ⟨hid t ht, proj_update Thread.pendingSignals (by rfl) t⟩) (l := []) rfl
          (by simp)
      | exact h.silent (List.Subset.refl _)
          (fun t ht => ⟨hid t ht, proj_update Thread.pendingSignals (by rfl) t⟩) (l := [_]) rfl
          (by simp [pendingVerdict])
      | exact h.silent (List.Subset.refl _) (fun t ht => ⟨hid t ht, rfl⟩) (l := [_, _]) rfl
          (by simp [pendingVerdict])
      | exact h.silent (List.Subset.refl _)
          (fun t ht => ⟨hid t ht, proj_update Thread.pendingSignals (by rfl) t⟩) (l := [_, _]) rfl
          (by simp [pendingVerdict])
      | exact h.silent (List.Subset.refl _)
          (fun t ht => ⟨hid t ht, proj_update Thread.pendingSignals (by rfl) t⟩)
          (l := [_, _, _]) rfl (by simp [pendingVerdict])

theorem release (h : PendingAgrees sig s) {m : MutexId} (hr : Release m s s') :
    PendingAgrees sig s' := by
  cases hr with
  | handOff t rest rq hq hrq =>
      exact h.silent (List.Subset.refl _) (fun u _ => ⟨proj_update Thread.id (by rfl) u,
        proj_update Thread.pendingSignals (by rfl) u⟩) (l := [_, _, _]) rfl
        (by simp [pendingVerdict])
  | free hq =>
      exact h.silent (List.Subset.refl _) (fun _ _ => ⟨rfl, rfl⟩) (l := [_]) rfl
        (by simp [pendingVerdict])

theorem parkAt (h : PendingAgrees sig s) (q : QueueId) (k : Point) :
    PendingAgrees sig (s.parkAt q k) :=
  h.silent (List.Subset.refl _) (fun u _ => ⟨proj_update Thread.id (by rfl) u,
    proj_update Thread.pendingSignals (by rfl) u⟩) (l := [_, _]) rfl (by simp [pendingVerdict])

theorem acquire (h : PendingAgrees sig s) {m : MutexId} {k : Point} (ha : Acquire m k s s') :
    PendingAgrees sig s' := by
  cases ha with
  | take hfree =>
      exact h.silent (List.Subset.refl _) (fun _ _ => ⟨rfl, rfl⟩) (l := [_]) rfl
        (by simp [pendingVerdict])
  | park hrun hold hvalid hheld hready => exact h.parkAt _ k
  | fail hfail => exact h

theorem act (h : PendingAgrees sig s) (hsig : 1 ≤ sig ∧ sig ≤ 32) (hwf : WellFormed s)
    (ha : Act i s s') : PendingAgrees sig s' := by
  cases ha with
  | lock m e hi huser ha => exact h.acquire ha
  | unlock m e hi huser hvalid hheld hr => exact h.release hr
  | condWait c m e hi hrun huser hready hr => exact (h.release hr).parkAt _ _
  | condGiveUp c m e hi huser hready hr ha => exact (h.release hr).acquire ha
  | relock c m e hi hk ha hb =>
      exact hb.rule i (h.acquire ha) fun hm => (h.acquire ha).move hsig (hwf.acquire rfl ha) hm
  | join t slot own retval e hi hrun huser ht hne hlive hfree hslot hown hchain hready =>
      exact h.silent (List.Subset.refl _)
        (fun u _ => ⟨joinAt_proj Thread.id hne (by rfl) (by rfl) u,
        joinAt_proj Thread.pendingSignals hne (by rfl) (by rfl) u⟩) (l := [_]) rfl
        (by simp [pendingVerdict])
  | _ =>
      exact h.silent (List.Subset.refl _) (fun _ _ => ⟨rfl, rfl⟩) (l := [_]) rfl
        (by simp [pendingVerdict])

end PendingAgrees

theorem pendingAgrees_of_reach {b : Build} {s : State} (h : RegularReach b s) {sig : Int}
    (hsig : 1 ≤ sig ∧ sig ≤ 32) : PendingAgrees sig s := by
  refine (Settled.reach h (fun _ _ hg => hg) settled_initial ?_
    (fun hwf _ hI _ ha => hI.act hsig hwf ha) fun hwf hI hm => hI.move hsig hwf hm).2
  intro t ht
  simp [State.initial, Thread.main, Thread.hasPending, latest]

/-- The running thread is back in user code, and the wait for `set` that it
was in returned 0. -/
def SigwaitReturns (s : State) (i : Input) (set : BitVec 32) (s' : State) : Prop :=
  ∃ ptr, ((∃ e, i = .call (.threadSigwait set ptr) e) ∨
      (∃ e, i = .resume e) ∧ s.running.point = .sigwait set) ∧
    s'.trace.head? = some (.returned s.self (.threadSigwait set ptr) 0)

/-- The signal `sig` is in `set` and pending for the running thread. -/
def Deliverable (s : State) (set : BitVec 32) (sig : Int) : Prop :=
  set.getLsbD (signalIndex sig) = true ∧ s.running.hasPending sig = true

/-- The step consumes the lowest deliverable signal, and nothing else. -/
structure ConsumesLowest (s : State) (set : BitVec 32) (s' : State) (sig : Int) : Prop where
  range : 1 ≤ sig ∧ sig ≤ 32
  stored : .signalConsumed s.self set sig ∈ s'.trace.tail.head?
  deliverable : Deliverable s set sig
  lowest : ∀ n, 1 ≤ n → n < sig → ¬ Deliverable s set n
  clears : ∀ n, 1 ≤ n ∧ n ≤ 32 → (s'.threads s.currentThread).hasPending n =
    if sig = n then false else s.running.hasPending n
  others : ∀ t, t ≠ s.currentThread → s'.threads t = s.threads t

/-- What signals do in a state between operations, and in the step after it. -/
structure SignalLaw (b : Build) (s : State) : Prop where
  pending : ∀ t ∈ s.handles, ∀ sig, 1 ≤ sig ∧ sig ≤ 32 →
    (s.threads t).hasPending sig = sentSince sig (s.threads t).id s.trace
  waiting_iff : ∀ t ∈ s.handles, (s.threads t).waitingForSignal = true ↔
    (s.threads t).state = .blocked ∧ ∃ set, (s.threads t).point = .sigwait set
  waiting : ∀ t ∈ s.handles, ∀ set, (s.threads t).state = .blocked →
    (s.threads t).point = .sigwait set →
      (s.threads t).waitedSignals = set ∧ (s.threads t).pendingSignals &&& set = 0 ∧
        t ∉ s.readyQueue ∧ t ∉ s.zombieQueue ∧ ∀ q, t ∉ s.waitingQueue q
  returns : ∀ i set s', step b s i = some s' → SigwaitReturns s i set s' →
    ∃ sig, ConsumesLowest s set s' sig

section Returns

variable {s : State} {set : BitVec 32}

/-- A turn of the loop that returns 0 has consumed what it picked. -/
theorem sigwaitLoop_zero (h : Inv s) {s₁ : State} (hs : sigwaitLoop s set = (s₁, some 0)) :
    ∃ sig, sig = threadSignalPickOne (s.running.pendingSignals &&& set) ∧ 0 ≤ sig ∧
      s₁ = (s.modifyThread s.currentThread fun th =>
        { th with pendingSignals := th.pendingSignals &&& ~~~threadSignalBit sig }).emit
          (.signalConsumed s.self set sig) := by
  unfold sigwaitLoop at hs
  simp only [h.available set] at hs
  split at hs
  next hsome =>
    split at hs
    next => cases hs
    next hpos =>
      cases hs
      exact ⟨_, rfl, Int.not_lt.mp hpos, rfl⟩
  next hnone =>
    split at hs
    next => cases hs
    next => cases hs

/-- A turn that switches away has not returned. -/
theorem sigwaitLoop_none {s₁ : State} (hs : sigwaitLoop s set = (s₁, none)) (id : Nat) (c : Call)
    (code : Int) : s₁.trace.head? ≠ some (.returned id c code) := by
  unfold sigwaitLoop at hs
  simp only at hs
  split at hs
  next =>
    split at hs
    next => cases hs
    next => cases hs
  next =>
    split at hs
    next => cases hs
    next =>
      cases hs
      simp [swapThread, State.setState, State.emit, State.modifyThread, State.setPoint]

/-- What a turn that returns 0 has done when its caller is back in user code. -/
theorem consumesLowest_of_finish (h : Inv s) {c c' : Call} {id : Nat}
    (hhead : (finish c (sigwaitLoop s set)).trace.head? = some (.returned id c' 0)) :
    ∃ sig, ConsumesLowest s set (finish c (sigwaitLoop s set)) sig := by
  rcases hloop : sigwaitLoop s set with ⟨s₁, code⟩
  rw [hloop] at hhead
  cases code with
  | none => exact absurd hhead (sigwaitLoop_none hloop id c' 0)
  | some code =>
      obtain rfl : code = 0 := by
        simp [finish, State.setPoint, State.modifyThread, State.emit] at hhead
        exact hhead.2.2
      obtain ⟨sig, hsig, hpos, rfl⟩ := sigwaitLoop_zero h hloop
      obtain ⟨hrange, hbit, hlower⟩ := threadSignalPickOne_spec (hsig ▸ hpos)
      simp only [← hsig, BitVec.getLsbD_and, Bool.and_eq_true, Bool.and_eq_false_iff]
        at hrange hbit hlower
      refine ⟨sig, hrange, ?_, ⟨hbit.2, hbit.1⟩, ?_, ?_, ?_⟩
      · simp [finish, State.setPoint, State.modifyThread, State.emit]
      · rintro n hn hlt ⟨hset, hpending⟩
        rcases hlower n hn hlt with hno | hno
        · rw [Thread.hasPending, hno] at hpending
          cases hpending
        · rw [hno] at hset
          cases hset
      · intro n hn
        have hclear := getLsbD_clear_threadSignalBit s.running.pendingSignals hn hrange
        simpa [finish, State.setPoint, State.modifyThread, State.emit, State.running,
          Thread.hasPending] using hclear
      · intro t hne
        simp [finish, State.setPoint, State.modifyThread, State.emit, hne]

theorem signalLaw_returns {b : Build} (h : Inv s) {i : Input} {s' : State}
    (hs : step b s i = some s') (hret : SigwaitReturns s i set s') :
    ∃ sig, ConsumesLowest s set s' sig := by
  obtain ⟨ptr, ⟨e, rfl⟩ | ⟨⟨e, rfl⟩, hk⟩, hhead⟩ := hret
  · obtain ⟨-, rfl⟩ := step_call hs
    simp only [enter, threadSigwait] at hhead ⊢
    split at hhead
    next hbad => simp [finish, State.setPoint, State.modifyThread, State.emit] at hhead
    next hgood =>
      rw [if_neg hgood]
      exact consumesLowest_of_finish h hhead
  · have hcont := step_resume hs
    rw [hk] at hcont
    obtain rfl := Option.some.inj hcont
    exact consumesLowest_of_finish h hhead

end Returns

/-- The signal is sent to the thread `id` by this entry. -/
def Event.sends (id : Nat) (sig : Int) : Event → Bool
  | .signalSent id' sig' => id' = id ∧ sig' = sig
  | _ => false

theorem signalWake_sends (p : Policy) (s : State) (t : Tid) (sig : Int) :
    ∃ event, (signalWake p s t sig).trace = event :: s.trace ∧
      ∀ id' sig', event.sends id' sig' = false := by
  refine ⟨.stateSet (s.threads t).id (s.threads t).state .ready (s.threads t).point
    (some (.signalSend sig)), ?_, fun _ _ => rfl⟩
  rw [signalWake, threadSchedulerEnqueue_trace]
  simp [State.setState, State.emit, State.modifyThread]

/-- A call that returns 0 has recorded one signal, for its target. One that returns -1
has recorded none. -/
theorem threadSignalSend_recorded {b : Build} {s s' : State} {handle : Option Tid} {sig : Int}
    {e : Env} (hs : step b s (.call (.threadSignalSend handle sig) e) = some s') :
    ∃ id code new, s'.trace = .returned id (.threadSignalSend handle sig) code ::
        (new ++ s.trace) ∧
      ∀ id' sig', new.countP (Event.sends id' sig') =
        if code = 0 ∧ handle.map (fun t => (s.threads t).id) = some id' ∧ sig = sig'
        then 1 else 0 := by
  obtain ⟨-, rfl⟩ := step_call hs
  cases handle with
  | none => exact ⟨_, -1, [], rfl, fun _ _ => rfl⟩
  | some t =>
      have hsent : ∀ id' sig', [Event.signalSent (s.threads t).id sig].countP
          (Event.sends id' sig') = if (0 : Int) = 0 ∧
            (some t).map (fun t => (s.threads t).id) = some id' ∧ sig = sig' then 1 else 0 := by
        intro id' sig'
        by_cases hid : (s.threads t).id = id' <;> by_cases hsig : sig = sig' <;>
          simp [Event.sends, hid, hsig]
      let r : State := (s.modifyThread t fun th =>
        { th with pendingSignals := th.pendingSignals ||| threadSignalBit sig }).emit
          (.signalSent (s.threads t).id sig)
      simp only [enter, threadSignalSend]
      split
      · exact ⟨_, -1, [], rfl, fun _ _ => rfl⟩
      · split
        · obtain ⟨event, htrace, hevent⟩ := signalWake_sends b.policy r t sig
          refine ⟨(signalWake b.policy r t sig).self, 0,
            [event, .signalSent (s.threads t).id sig], congrArg _ htrace, fun id' sig' => ?_⟩
          rw [List.countP_cons_of_neg (by simp [hevent])]
          exact hsent id' sig'
        · exact ⟨_, 0, [.signalSent (s.threads t).id sig], rfl, hsent⟩

theorem Point.sigset_isSome {k : Point} : k.sigset.isSome ↔ ∃ set, k = .sigwait set := by
  cases k <;> simp [Point.sigset]

/-- In every state of a regular run the pending sets are what was sent and not
consumed, the waiting threads miss no signal, and a wait returns the lowest
signal it can. -/
theorem signalLaw_of_reach {b : Build} {s : State} (h : RegularReach b s) : SignalLaw b s where
  pending := fun t ht sig hsig => pendingAgrees_of_reach h hsig t ht
  waiting_iff := by
    intro t ht
    rw [(h.sound.inv.sched.threads_ok t ht).signal]
    exact and_congr_right fun _ => Point.sigset_isSome
  waiting := by
    intro t ht set hblocked hpoint
    have hsched := h.sound.inv.sched
    have hok := hsched.threads_ok t ht
    have hset : (s.threads t).point.sigset = some set := by rw [hpoint]; rfl
    have hwait := hok.signal.mpr ⟨hblocked, by rw [hset]; rfl⟩
    obtain ⟨hwaited, hnone⟩ := hok.waited set hset hwait
    refine ⟨hwaited, hnone, ?_, ?_, ?_⟩
    · intro hmem
      have hready := ((hsched.ready.mem_iff t).mp hmem).2
      rw [hblocked] at hready
      cases hready
    · intro hmem
      have hdead := hok.zombie ((hsched.zombie.mem_iff t).mp hmem).2
      rw [hblocked] at hdead
      cases hdead
    · intro q hmem
      have hqueue := (hsched.of_mem_waiting hmem).2.2
      rw [hpoint] at hqueue
      cases hqueue
  returns := fun i set s' hs hret => signalLaw_returns h.sound.inv hs hret

/-- A run in which a thread is woken out of its wait, and finds two signals. -/
theorem signalLaw_of_reach_script : ∃ s, RegularReach .fifo s ∧
    .signalConsumed 1 6 2 ∈ s.trace ∧ (s.threads 1).pendingSignals = 4 ∧ SignalLaw .fifo s := by
  obtain ⟨s, hreach, hmem, hpending⟩ := exists_reach_of_run (step .fifo) Regular State.initial
    [.create 1, .plain .threadYield, .go, .plain (.threadSigwait 6 true), .go,
      .plain (.threadSignalSend (some 1) 3), .plain (.threadSignalSend (some 1) 2),
      .plain .threadYield, .go]
    (fun s => .signalConsumed 1 6 2 ∈ s.trace ∧ (s.threads 1).pendingSignals = 4)
    (by decide +kernel)
  exact ⟨s, hreach, hmem, hpending, signalLaw_of_reach hreach⟩

end UserThreads
