import UserThreads.Model.Step
import Mathlib.Data.List.Perm.Basic
import Mathlib.Logic.Relation

/-!
# What a stretch of library code can do

Every operation is a sequence of a few moves: a thread leaves the processor,
another is dispatched, a waiter is woken, a unit changes hands, memory is
recycled. A move forgets the order of the ready queue: it fixes the queue only
up to permutation, so picking the next thread before or after a wake-up is the
same pair of moves.

## Implementation notes

A move is what one invariant lemma is proved about. The decomposition of each
operation into moves is proved once, in `Operations`, and every invariant of
the development is then a property of single moves. The operations on mutexes
and the blocking join are kept apart as acts, which start a stretch: what they
do depends on promises about the state in which the call is made.
-/

namespace UserThreads

/-- The thread a point inside `thread_join` waits for. -/
def Point.target : Point → Option Tid
  | .join t _ => some t
  | _ => none

/-- The struct held by a thread inside `thread_create`. -/
def Point.held : Point → Option Tid
  | .create newth _ => some newth
  | _ => none

/-- The points from which a call returns with nothing left to give back. -/
def Point.Settled (k : Point) : Prop := k.target = none ∧ k.held = none

namespace State

/-- The record of the running thread. -/
def running (s : State) : Thread := s.threads s.currentThread

/-- The head `t` of the wait queue `q` becomes ready. -/
def wakeHead (s : State) (q : QueueId) (t : Tid) (rest rq : List Tid) : State :=
  { s with
    threads := Function.update s.threads t
      { s.threads t with state := .ready, inReadyQueue := true }
    waitingQueue := Function.update s.waitingQueue q rest
    readyQueue := rq
    trace := .stateSet (s.threads t).id (s.threads t).state .ready (s.threads t).point
        (some q.waker) :: .woken q (s.threads t).id :: s.trace }

/-- The running thread parks in `q`, to resume at `k`. -/
def parkAt (s : State) (q : QueueId) (k : Point) : State :=
  { s with
    threads := Function.update s.threads s.currentThread
      { s.running with state := .blocked, point := k }
    waitingQueue := Function.update s.waitingQueue q (s.waitingQueue q ++ [s.currentThread])
    trace := .parked q s.self ::
      .stateSet s.self s.running.state .blocked s.running.point none :: s.trace }

/-- The running thread goes back to the ready queue, to resume at `k`. -/
def yieldAt (s : State) (k : Point) (rq : List Tid) : State :=
  { s with
    threads := Function.update s.threads s.currentThread
      { s.running with state := .ready, inReadyQueue := true, point := k }
    readyQueue := rq
    trace := .stateSet s.self s.running.state .ready s.running.point none :: s.trace }

/-- A ready thread gets the processor. -/
def dispatch (s : State) (next : Tid) (rq : List Tid) : State :=
  { s with
    threads := Function.update s.threads next
      { s.threads next with state := .running, inReadyQueue := false }
    currentThread := next
    readyQueue := rq
    trace := .stateSet (s.threads next).id (s.threads next).state .running
      (s.threads next).point none :: s.trace }

/-- The running thread terminates with `retval`. -/
def terminate (s : State) (retval : Value) : State :=
  { s with
    threads := Function.update s.threads s.currentThread
      { s.running with retval := retval, state := .terminated }
    trace := .stateSet s.self s.running.state .terminated s.running.point none ::
      .exited s.self retval :: s.trace }

/-- The joiner `j` of the terminated thread `d` becomes ready. -/
def wakeJoiner (s : State) (d j : Tid) (rq : List Tid) : State :=
  { s with
    threads := Function.update s.threads j
      { s.threads j with state := .ready, inReadyQueue := true }
    readyQueue := rq
    trace := .stateSet (s.threads j).id (s.threads j).state .ready (s.threads j).point
        (some (.threadExit d)) :: s.trace }

/-- The running thread blocks in `thread_join` on `t`, whose slot is `slot`. -/
def joinAt (s : State) (t : Tid) (slot : SlotRef) (retval : Bool) : State :=
  { s with
    threads := Function.update
      (Function.update s.threads t { s.threads t with joinedBy := some s.currentThread })
      s.currentThread
      { s.running with
        headJoiner := some slot
        state := .blocked
        waitingFor := some t
        point := .join t retval }
    headRefs := if s.headRefs slot = t then
        Function.update s.headRefs slot s.currentThread
      else s.headRefs
    trace := .stateSet s.self s.running.state .blocked s.running.point none :: s.trace }

/-- The running thread blocks in `thread_sigwait` on `set`. -/
def sigwaitAt (s : State) (set : BitVec 32) : State :=
  { s with
    threads := Function.update s.threads s.currentThread
      { s.running with
        waitingForSignal := true
        waitedSignals := set
        state := .blocked
        point := .sigwait set }
    trace := .stateSet s.self s.running.state .blocked s.running.point none :: s.trace }

/-- The running thread takes the terminated target out of the library. -/
def claim (s : State) (t : Tid) (code : Int) (stored : Option Value) : State :=
  ((claimTarget s t).modifyThread s.currentThread fun th =>
    { th with waitingFor := none, point := .user }).emit (.joined (s.threads t).id code stored)

theorem claim_main (s : State) (code : Int) (stored : Option Value) :
    s.claim mainThread code stored =
      { s with
        threads := Function.update s.threads s.currentThread
          { s.running with waitingFor := none, point := .user }
        handles := s.handles.erase mainThread
        trace := .joined (s.threads mainThread).id code stored :: s.trace } := by
  simp [claim, claimTarget_main, modifyThread, emit, running]

theorem claim_eq {s : State} {t : Tid} (hmain : t ≠ mainThread) (hne : t ≠ s.currentThread)
    (hzombie : (s.threads t).inZombieQueue = false) (code : Int) (stored : Option Value) :
    s.claim t code stored =
      { claimTarget s t with
        threads := Function.update
          (Function.update s.threads s.currentThread
            { s.running with waitingFor := none, point := .user }) t
          { s.threads t with headJoiner := none }
        trace := .joined (s.threads t).id code stored :: s.trace } := by
  rw [Function.update_comm hne.symm]
  simp [claim, claimTarget_eq hmain hzombie, modifyThread, emit, running, Ne.symm hne]

/-- What a claim amounts to: two records are written, and memory is recycled. -/
def claimed (s : State) (t : Tid) (code : Int) (stored : Option Value) (head : Option SlotRef)
    (stackPool : List StackEntry) (mappings : List Addr) (threadPool heap : List Tid) : State :=
  { s with
    threads := Function.update
      (Function.update s.threads s.currentThread
        { s.running with waitingFor := none, point := .user }) t
      { s.threads t with headJoiner := head }
    stackPool := stackPool
    mappings := mappings
    threadPool := threadPool
    heap := heap
    handles := s.handles.erase t
    trace := .joined (s.threads t).id code stored :: s.trace }

/-- The stack of `t` has been taken from its record, or not. -/
def stackDeferred (s : State) (t : Tid) (map : Option Addr) (base : Addr)
    (deferred : List StackEntry) : State :=
  { s with
    threads := Function.update s.threads t { s.threads t with stackMap := map, stackBase := base }
    deferredStacks := deferred }

/-- `t` is not in the zombie queue any more. -/
def zombieLeft (s : State) (t : Tid) (queue : List Tid) : State :=
  { s with
    threads := Function.update s.threads t { s.threads t with inZombieQueue := false }
    zombieQueue := queue }

/-- A stack has left the deferred array. -/
def stackReclaimed (s : State) (rest pool : List StackEntry) (mappings : List Addr) : State :=
  { s with deferredStacks := rest, stackPool := pool, mappings := mappings }

/-- The running thread has given up the struct it held. -/
def structDropped (s : State) (pool heap : List Tid) : State :=
  { s with
    threads := Function.update s.threads s.currentThread { s.running with point := .user }
    threadPool := pool
    heap := heap }

/-- The slot `ref` has been handed to `owner`. -/
def slotGiven (s : State) (owner : Tid) (ref : SlotRef) (count cap index : Nat)
    (active : Option Nat) : State :=
  { s with
    headRefs := Function.update s.headRefs ref owner
    headRefChunksCount := count
    headRefChunksCap := cap
    headRefActiveChunk := active
    headRefActiveIndex := index }

section Claim

variable {s : State} {t : Tid} (hne : t ≠ s.currentThread)
  (hzombie : (s.threads t).inZombieQueue = false) (code : Int) (stored : Option Value)
include hne hzombie

theorem claim_frame : ∃ head stackPool mappings threadPool heap, s.claim t code stored =
    s.claimed t code stored head stackPool mappings threadPool heap := by
  by_cases hmain : t = mainThread
  · subst t
    refine ⟨(s.threads mainThread).headJoiner, s.stackPool, s.mappings, s.threadPool, s.heap, ?_⟩
    rw [claim_main, claimed, Function.update_comm hne.symm, Function.update_eq_self]
  · rw [claim_eq hmain hne hzombie, claimTarget_eq hmain hzombie]
    exact ⟨none, _, _, _, _, rfl⟩

theorem claim_handles : (s.claim t code stored).handles = s.handles.erase t := by
  by_cases hmain : t = mainThread
  · subst t
    simp [claim_main]
  · simp [claim_eq hmain hne hzombie, claimTarget_eq hmain hzombie]

theorem claim_threads_other {u : Tid} (hut : u ≠ t) (huc : u ≠ s.currentThread) :
    (s.claim t code stored).threads u = s.threads u := by
  by_cases hmain : t = mainThread
  · subst t
    simp [claim_main, huc]
  · simp [claim_eq hmain hne hzombie, hut, huc]

theorem claim_threads_current : (s.claim t code stored).threads s.currentThread =
    { s.running with waitingFor := none, point := .user } := by
  by_cases hmain : t = mainThread
  · subst t
    simp [claim_main]
  · simp [claim_eq hmain hne hzombie, Ne.symm hne]

end Claim

/-- A new thread in the struct `n`, on the stack `entry`, with the slot `ref`. -/
def spawn (s : State) (n : Tid) (entry : StackEntry) (rest : List StackEntry)
    (ref : SlotRef) (rq : List Tid) : State :=
  { s with
    threads := Function.update
      (Function.update s.threads s.currentThread { s.running with point := .user }) n
      { (s.threads n).fresh entry with
        inReadyQueue := true
        headJoiner := some ref
        point := .entry
        id := s.nextThreadId }
    nextThreadId := s.nextThreadId + 1
    stackPool := rest
    readyQueue := rq
    handles := n :: s.handles
    trace := .created s.nextThreadId n :: s.trace }

/-- The first slot number not handed out yet. -/
def slotFrontier (s : State) : Nat :=
  match s.headRefActiveChunk with
  | none => s.headRefChunksCount * headRefChunkSize
  | some chunk => chunk * headRefChunkSize + s.headRefActiveIndex

/-- The active chunk has been allocated, and its index is within it. -/
def SlotsOk (s : State) : Prop :=
  ∀ chunk, s.headRefActiveChunk = some chunk →
    chunk < s.headRefChunksCount ∧ s.headRefActiveIndex ≤ headRefChunkSize

end State

/-- The slot `ref` is taken from the unused part of the chunks for `owner`. -/
def SlotTaken (s s' : State) (owner : Tid) (ref : SlotRef) : Prop :=
  (∃ count cap index active, s' = s.slotGiven owner ref count cap index active) ∧
    s.slotFrontier ≤ ref ∧ ref < s'.slotFrontier ∧ s'.SlotsOk

/-- One move within the stretch started by the input `i`. -/
inductive Move (i : Input) : State → State → Prop
  | errno {s : State} (e : Option Errno) : Move i s { s with errno := e }
  | returned {s : State} (c : Call) (code : Int) : Move i s (s.emit (.returned s.self c code))
  | toUser {s : State} (hrun : s.running.state = .running) (hk : s.running.point.Settled) :
      Move i s (s.setPoint s.currentThread .user)
  | reprioritize {s : State} (f : Tid → Int) (rq : List Tid) (hrq : rq.Perm s.readyQueue) :
      Move i s { s with
        threads := fun t => { s.threads t with priority := f t }
        readyQueue := rq }
  | restate {s : State} (hrun : s.running.state = .running) :
      Move i s (s.emit (.stateSet s.self .running .running s.running.point none))
  | semPark {s : State} (sm : SemId) (hrun : s.running.state = .running)
      (huser : s.running.point = .user) (hcount : s.count sm ≤ 0) :
      Move i s (s.parkAt (.sem sm) (.semWait sm))
  | yieldAt {s : State} (k : Point) (rq : List Tid) (hrun : s.running.state = .running)
      (hold : k = s.running.point ∨ s.running.point.Settled ∧ ∃ c, k = .yielded c)
      (huser : k ≠ .user) (hrq : rq.Perm (s.currentThread :: s.readyQueue)) :
      Move i s (s.yieldAt k rq)
  | dispatch {s : State} (next : Tid) (rq : List Tid) (hrun : s.running.state ≠ .running)
      (hrq : (next :: rq).Perm s.readyQueue) : Move i s (s.dispatch next rq)
  | condWake {s : State} (c : CondId) (t : Tid) (rest rq : List Tid)
      (hq : s.waitingQueue (.cond c) = t :: rest) (hrq : rq.Perm (t :: s.readyQueue)) :
      Move i s (s.wakeHead (.cond c) t rest rq)
  | semPostWake {s : State} (sm : SemId) (t : Tid) (rest rq : List Tid)
      (hq : s.waitingQueue (.sem sm) = t :: rest) (hrq : rq.Perm (t :: s.readyQueue)) :
      Move i s ((s.emit (.semPosted sm s.self)).wakeHead (.sem sm) t rest rq)
  | semPostCount {s : State} (sm : SemId) (hq : s.waitingQueue (.sem sm) = []) :
      Move i s ((s.emit (.semPosted sm s.self)).setCount sm (s.count sm + 1))
  | semTake {s : State} (sm : SemId) (hpos : s.count sm > 0) :
      Move i s ((s.setCount sm (s.count sm - 1)).emit (.semTaken sm s.self))
  | claimed {s : State} (t : Tid) (code : Int) (stored : Option Value) (head : Option SlotRef)
      (stackPool : List StackEntry) (mappings : List Addr) (threadPool heap : List Tid)
      (hrun : s.running.state = .running) (ht : t ∈ s.handles) (hne : t ≠ s.currentThread)
      (hdead : (s.threads t).state = .terminated) (hzombie : (s.threads t).inZombieQueue = false)
      (hpoint : s.running.point.target = some t ∨
        s.running.point = .user ∧ (s.threads t).joinedBy = none)
      (hstored : ∀ v ∈ stored, v = (s.threads t).retval)
      (heq : s.claim t code stored =
        s.claimed t code stored head stackPool mappings threadPool heap) :
      Move i s (s.claimed t code stored head stackPool mappings threadPool heap)
  | terminate {s : State} (v : Value) (hrun : s.running.state = .running)
      (huser : s.running.point = .user) : Move i s (s.terminate v)
  | overflow {s : State} (hrun : s.running.state = .running) :
      Move i s (s.modifyThread s.currentThread fun th => { th with stackOverflow := true })
  | stackDeferred {s : State} (t : Tid) (map : Option Addr) (base : Addr)
      (deferred : List StackEntry) (ht : t ∈ s.handles)
      (hdead : (s.threads t).state = .terminated)
      (heq : deferStackReclaim s t = s.stackDeferred t map base deferred) :
      Move i s (s.stackDeferred t map base deferred)
  | zombieAdd {s : State} (t : Tid) (ht : t ∈ s.handles) (hmain : t ≠ mainThread)
      (hdead : (s.threads t).state = .terminated) (hout : (s.threads t).inZombieQueue = false) :
      Move i s (threadZombieAdd s t)
  | zombieLeft {s : State} (t : Tid) (queue : List Tid)
      (heq : threadZombieRemove s t = s.zombieLeft t queue) : Move i s (s.zombieLeft t queue)
  | wakeJoiner {s : State} (d j : Tid) (rq : List Tid) (hd : d ∈ s.handles)
      (hdead : (s.threads d).state = .terminated) (hj : (s.threads d).joinedBy = some j)
      (hblocked : (s.threads j).state = .blocked) (hrq : rq.Perm (j :: s.readyQueue)) :
      Move i s (s.wakeJoiner d j rq)
  | sigwaitAt {s : State} (set : BitVec 32) (hrun : s.running.state = .running)
      (hold : s.running.point.Settled) (hpending : s.running.pendingSignals &&& set = 0) :
      Move i s (s.sigwaitAt set)
  | sigwaitGiveUp {s : State} (hrun : s.running.state = .running) :
      Move i s ((s.emit (.stateSet s.self .running .blocked s.running.point none)).emit
        (.stateSet s.self .blocked .running s.running.point none))
  | signalSend {s : State} (t : Tid) (sig : Int) (hsig : 1 ≤ sig ∧ sig ≤ 32)
      (ht : t ∈ s.handles)
      (hno : ¬ ((s.threads t).state = .blocked ∧ (s.threads t).waitingForSignal = true ∧
        (s.threads t).waitedSignals &&& threadSignalBit sig ≠ 0)) :
      Move i s ((s.modifyThread t fun th =>
        { th with pendingSignals := th.pendingSignals ||| threadSignalBit sig }).emit
          (.signalSent (s.threads t).id sig))
  | signalWake {s : State} (t : Tid) (sig : Int) (rq : List Tid) (hsig : 1 ≤ sig ∧ sig ≤ 32)
      (ht : t ∈ s.handles)
      (hblocked : (s.threads t).state = .blocked) (hwait : (s.threads t).waitingForSignal = true)
      (hset : (s.threads t).waitedSignals &&& threadSignalBit sig ≠ 0)
      (hrq : rq.Perm (t :: s.readyQueue)) :
      Move i s { s with
        threads := Function.update s.threads t
          { s.threads t with
            pendingSignals := (s.threads t).pendingSignals ||| threadSignalBit sig
            waitingForSignal := false
            waitedSignals := 0
            state := .ready
            inReadyQueue := true }
        readyQueue := rq
        trace := .stateSet (s.threads t).id (s.threads t).state .ready (s.threads t).point
          (some (.signalSend sig)) :: .signalSent (s.threads t).id sig :: s.trace }
  | signalConsume {s : State} (set : BitVec 32) (sig : Int) (hrun : s.running.state = .running)
      (hsig : sig = threadSignalPickOne (s.running.pendingSignals &&& set))
      (hpos : 0 ≤ sig) :
      Move i s ((s.modifyThread s.currentThread fun th =>
        { th with pendingSignals := th.pendingSignals &&& ~~~threadSignalBit sig }).emit
          (.signalConsumed s.self set sig))
  | mainInit {s : State} (ref : SlotRef) (count cap index : Nat) (active : Option Nat)
      (hinit : s.schedulerInitialized = false)
      (hslot : SlotTaken s (s.slotGiven mainThread ref count cap index active) mainThread ref) :
      Move i s { s.slotGiven mainThread ref count cap index active with
        threads := Function.update s.threads mainThread
          { s.threads mainThread with headJoiner := some ref }
        schedulerInitialized := true }
  | takeStruct {s : State} (n : Tid) (rest : List Tid) (hrun : s.running.state = .running)
      (huser : s.running.point = .user) (hpool : s.threadPool = n :: rest)
      (hinit : s.schedulerInitialized = true) :
      Move i s ({ s with threadPool := rest }.setPoint s.currentThread (.create n 0))
  | mallocStruct {s : State} (n : Tid) (hrun : s.running.state = .running)
      (huser : s.running.point = .user) (hmain : n ≠ mainThread) (hfresh : n ∉ s.heap)
      (hinit : s.schedulerInitialized = true) :
      Move i s ({ s with heap := n :: s.heap }.setPoint s.currentThread (.create n 0))
  | retry {s : State} (n : Tid) (r r' : Nat) (hrun : s.running.state = .running)
      (hk : s.running.point = .create n r) :
      Move i s (s.setPoint s.currentThread (.create n r'))
  | scribble {s : State} (n : Tid) (th : Thread) (hdead : n ∉ s.handles)
      (hmain : n ≠ mainThread) :
      Move i s { s with threads := Function.update s.threads n th }
  | structDropped {s : State} (n : Tid) (r : Nat) (pool heap : List Tid)
      (hrun : s.running.state = .running) (hk : s.running.point = .create n r)
      (heq : threadFree (s.setPoint s.currentThread .user) n = s.structDropped pool heap) :
      Move i s (s.structDropped pool heap)
  | stackReclaimed {s : State} (e : StackEntry) (rest pool : List StackEntry)
      (mappings : List Addr) (hd : s.deferredStacks = e :: rest)
      (heq : stackPoolPush { s with deferredStacks := rest } e =
        s.stackReclaimed rest pool mappings) :
      Move i s (s.stackReclaimed rest pool mappings)
  | mapStack {s : State} (e : StackEntry) (hpool : s.stackPool = [])
      (hfresh : e.map ∉ s.mappings) :
      Move i s { s with mappings := e.map :: s.mappings, stackPool := [e] }
  | spawned {s : State} (n : Tid) (r : Nat) (entry : StackEntry) (rest : List StackEntry)
      (ref : SlotRef) (count cap index : Nat) (active : Option Nat) (rq : List Tid)
      (hrun : s.running.state = .running)
      (hk : s.running.point = .create n r) (hpool : s.stackPool = entry :: rest)
      (hslot : SlotTaken s (s.slotGiven n ref count cap index active) n ref)
      (hrq : rq.Perm (n :: s.readyQueue)) :
      Move i s ((s.slotGiven n ref count cap index active).spawn n entry rest ref rq)
  | endProcess {s : State} : Move i s { s with ended := true }

namespace Move

variable {i : Input} {s s' : State}

theorem claim (t : Tid) (code : Int) (stored : Option Value) (hrun : s.running.state = .running)
    (ht : t ∈ s.handles) (hne : t ≠ s.currentThread) (hdead : (s.threads t).state = .terminated)
    (hzombie : (s.threads t).inZombieQueue = false)
    (hpoint : s.running.point.target = some t ∨
      s.running.point = .user ∧ (s.threads t).joinedBy = none)
    (hstored : ∀ v ∈ stored, v = (s.threads t).retval) : Move i s (s.claim t code stored) := by
  obtain ⟨head, stackPool, mappings, threadPool, heap, heq⟩ :=
    State.claim_frame hne hzombie code stored
  rw [heq]
  exact .claimed t code stored head stackPool mappings threadPool heap hrun ht hne hdead hzombie
    hpoint hstored heq

theorem deferStack (t : Tid) (ht : t ∈ s.handles) (hdead : (s.threads t).state = .terminated) :
    Move i s (deferStackReclaim s t) := by
  obtain ⟨map, base, deferred, heq⟩ := deferStackReclaim_frame s t
  rw [heq]
  exact .stackDeferred t map base deferred ht hdead heq

theorem zombieRemove (t : Tid) : Move i s (threadZombieRemove s t) := by
  obtain ⟨queue, heq⟩ := threadZombieRemove_frame s t
  rw [heq]
  exact .zombieLeft t queue heq

theorem dropStruct (n : Tid) (r : Nat) (hrun : s.running.state = .running)
    (hk : s.running.point = .create n r) :
    Move i s (threadFree (s.setPoint s.currentThread .user) n) := by
  have heq := threadFree_eq (s.setPoint s.currentThread .user) n
  rw [heq]
  exact .structDropped n r _ _ hrun hk heq

theorem reclaim (e : StackEntry) (rest : List StackEntry) (hd : s.deferredStacks = e :: rest) :
    Move i s (stackPoolPush { s with deferredStacks := rest } e) := by
  have heq := stackPoolPush_eq { s with deferredStacks := rest } e
  rw [heq]
  exact .stackReclaimed e rest _ _ hd heq

theorem initMain (ref : SlotRef) (hinit : s.schedulerInitialized = false)
    (hslot : SlotTaken s s' mainThread ref) :
    Move i s { s'.modifyThread mainThread fun th => { th with headJoiner := some ref } with
      schedulerInitialized := true } := by
  obtain ⟨count, cap, index, active, rfl⟩ := hslot.1
  exact .mainInit ref count cap index active hinit hslot

theorem spawn (n : Tid) (r : Nat) (entry : StackEntry) (rest : List StackEntry) (ref : SlotRef)
    (rq : List Tid) (hrun : s.running.state = .running) (hk : s.running.point = .create n r)
    (hpool : s.stackPool = entry :: rest) (hslot : SlotTaken s s' n ref)
    (hrq : rq.Perm (n :: s.readyQueue)) : Move i s (s'.spawn n entry rest ref rq) := by
  obtain ⟨count, cap, index, active, rfl⟩ := hslot.1
  exact .spawned n r entry rest ref count cap index active rq hrun hk hpool hslot hrq

end Move

/-- The release of a mutex: the first waiter owns it next, or it is free. -/
inductive Release (m : MutexId) : State → State → Prop
  | handOff {s : State} (t : Tid) (rest rq : List Tid)
      (hq : s.waitingQueue (.mutex m) = t :: rest) (hrq : rq.Perm (t :: s.readyQueue)) :
      Release m s ((s.emit (.mutexReleased m s.self)).wakeHead (.mutex m) t rest rq)
  | free {s : State} (hq : s.waitingQueue (.mutex m) = []) :
      Release m s ((s.emit (.mutexReleased m s.self)).setLocked m 0)

/-- The attempt to take a mutex: it succeeds at once, parks at `k`, or fails. -/
inductive Acquire (m : MutexId) (k : Point) : State → State → Prop
  | take {s : State} (hfree : s.locked m = 0) :
      Acquire m k s ((s.setLocked m 1).emit (.mutexTaken m s.self))
  | park {s : State} (hrun : s.running.state = .running) (hold : s.running.point.Settled)
      (hvalid : s.locked m ≠ -1) (hheld : s.locked m ≠ 0) (hready : s.readyQueue ≠ []) :
      Acquire m k s (s.parkAt (.mutex m) k)
  | fail {s : State} (hfail : s.locked m = -1 ∨ s.locked m ≠ 0 ∧ s.readyQueue = []) :
      Acquire m k s s

/-- The end of a wait: the thread goes back to user code, unless it has left
the processor. -/
inductive Back : State → State → Prop
  | user {s : State} (hrun : s.running.state = .running) (hk : s.running.point.Settled) :
      Back s (s.setPoint s.currentThread .user)
  | switched {s : State} (hrun : s.running.state ≠ .running) : Back s s

/-- What a stretch does first when a contract of its caller is involved: the
set-up of objects, the operations on mutexes, the wait on a condition, and the
blocking join. -/
inductive Act (i : Input) : State → State → Prop
  | lock {s s' : State} (m : MutexId) (e : Env)
      (hi : i = .call (.threadMutexLock (some m)) e) (huser : s.running.point = .user)
      (h : Acquire m (.mutexLock m) s s') : Act i s s'
  | unlock {s s' : State} (m : MutexId) (e : Env)
      (hi : i = .call (.threadMutexUnlock (some m)) e) (huser : s.running.point = .user)
      (hvalid : s.locked m ≠ -1) (hheld : s.locked m ≠ 0) (h : Release m s s') : Act i s s'
  | mutexInit {s : State} (m : MutexId) (e : Env) (hi : i = .call (.threadMutexInit (some m)) e) :
      Act i s (((s.setLocked m 0).initQueue (.mutex m)).emit (.mutexSet m 0))
  | mutexDestroy {s : State} (m : MutexId) (e : Env)
      (hi : i = .call (.threadMutexDestroy (some m)) e) (hq : s.waitingQueue (.mutex m) = []) :
      Act i s ((s.setLocked m (-1)).emit (.mutexSet m (-1)))
  | semInit {s : State} (sm : SemId) (v : Int) (e : Env)
      (hi : i = .call (.threadSemInit (some sm) v) e) (hv : 0 ≤ v) :
      Act i s (((s.setCount sm v).initQueue (.sem sm)).emit (.semSet sm v))
  | semDestroy {s : State} (sm : SemId) (e : Env)
      (hi : i = .call (.threadSemDestroy (some sm)) e) (hq : s.waitingQueue (.sem sm) = []) :
      Act i s ((s.setCount sm 0).emit (.semSet sm 0))
  | condInit {s : State} (c : CondId) (e : Env) (hi : i = .call (.threadCondInit (some c)) e) :
      Act i s ((s.initQueue (.cond c)).emit (.condSet c))
  | condWait {s s' : State} (c : CondId) (m : MutexId) (e : Env)
      (hi : i = .call (.threadCondWait (some c) (some m)) e)
      (hrun : s.running.state = .running) (huser : s.running.point = .user)
      (hready : s.readyQueue ≠ []) (h : Release m s s') :
      Act i s (s'.parkAt (.cond c) (.condWait c m))
  | condGiveUp {s s₁ s' : State} (c : CondId) (m : MutexId) (e : Env)
      (hi : i = .call (.threadCondWait (some c) (some m)) e) (huser : s.running.point = .user)
      (hready : s.readyQueue = []) (h : Release m s s₁)
      (h' : Acquire m (.condRelock c m (-1)) s₁ s') : Act i s s'
  | relock {s s₁ s' : State} (c : CondId) (m : MutexId) (e : Env) (hi : i = .resume e)
      (hk : s.running.point = .condWait c m) (h : Acquire m (.condRelock c m 0) s s₁)
      (hback : Back s₁ s') : Act i s s'
  | join {s : State} (t : Tid) (slot own : SlotRef) (retval : Bool) (e : Env)
      (hi : i = .call (.threadJoin (some t) retval) e)
      (hrun : s.running.state = .running) (huser : s.running.point = .user)
      (ht : t ∈ s.handles) (hne : t ≠ s.currentThread)
      (hlive : (s.threads t).state ≠ .terminated) (hfree : (s.threads t).joinedBy = none)
      (hslot : (s.threads t).headJoiner = some slot) (hown : s.running.headJoiner = some own)
      (hchain : ¬ (s.headRefs slot = t ∧ own = slot)) (hready : s.readyQueue ≠ []) :
      Act i s (s.joinAt t slot retval)

/-- What holds before the end of a wait and survives a move holds after it. -/
theorem Back.rule {s s' : State} {I : State → Prop} (hb : Back s s') (i : Input) (hI : I s)
    (hmove : Move i s s' → I s') : I s' := by
  cases hb with
  | user hrun hk => exact hmove (.toUser hrun hk)
  | switched hrun => exact hI

/-- Any number of moves. -/
abbrev Moves (i : Input) : State → State → Prop := Relation.ReflTransGen (Move i)

/-- A whole stretch: an act if the call asks for one, then moves. -/
def Stretch (i : Input) (s s' : State) : Prop :=
  Moves i s s' ∨ ∃ s₁, Act i s s₁ ∧ Moves i s₁ s'

end UserThreads
