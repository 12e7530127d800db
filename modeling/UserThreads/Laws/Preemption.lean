import UserThreads.Operations.Interleaving

/-!
# Critical sections under preemption

What a timer signal can come between. `thread_create` works on the pools, one
branch of `thread_yield` on the ready queue, and the check of `thread_join` looks
for another joiner, while the signal is not blocked. Everything else that other
threads rely on is done inside critical sections.
-/

namespace UserThreads

open Transition

/-- The thread that a piece of `thread_join` asks for, before it blocks. -/
def Piece.asks : Piece → Option Tid
  | .joinCheck t _ => t
  | .join t _ => some t
  | _ => none

/-- The queues in which a struct stands by its one pair of links. -/
inductive Link where
  | ready
  | zombie
  | wait (q : QueueId)

def State.linked (s : State) : Link → List Tid
  | .ready => s.readyQueue
  | .zombie => s.zombieQueue
  | .wait q => s.waitingQueue q

/-- A thread is linked once, as the pair of links in its struct requires. -/
structure SingleLink (s : State) : Prop where
  nodup : ∀ k, (s.linked k).Nodup
  unique : ∀ k k' t, t ∈ s.linked k → t ∈ s.linked k' → k = k'

/-- The state and the point of a linked thread say in which queue it is. -/
theorem SchedInv.singleLink {s : State} (h : SchedInv s) : SingleLink s := by
  have hready : ∀ t ∈ s.readyQueue, (s.threads t).state = .ready :=
    fun t ht => ((h.ready.mem_iff t).mp ht).2
  have hzombie : ∀ t ∈ s.zombieQueue, (s.threads t).state = .terminated := by
    intro t ht
    obtain ⟨hmem, hin⟩ := (h.zombie.mem_iff t).mp ht
    exact (h.threads_ok t hmem).zombie hin
  have hwait : ∀ q, ∀ t ∈ s.waitingQueue q,
      (s.threads t).state = .blocked ∧ (s.threads t).point.queue = some q :=
    fun q t ht => (((h.wait q).mem_iff t).mp (List.mem_append_left _ ht)).2
  refine ⟨fun k => ?_, fun k k' t hk hk' => ?_⟩
  · cases k with
    | ready => exact h.ready.nodup
    | zombie => exact h.zombie.nodup
    | wait q => exact (List.nodup_append.mp (h.wait q).nodup).1
  · cases k with
    | ready =>
        have hstate := hready t hk
        cases k' with
        | ready => rfl
        | zombie => simp [hzombie t hk'] at hstate
        | wait q => simp [(hwait q t hk').1] at hstate
    | zombie =>
        have hstate := hzombie t hk
        cases k' with
        | ready => simp [hready t hk'] at hstate
        | zombie => rfl
        | wait q => simp [(hwait q t hk').1] at hstate
    | wait q =>
        obtain ⟨hstate, hqueue⟩ := hwait q t hk
        cases k' with
        | ready => simp [hready t hk'] at hstate
        | zombie => simp [hzombie t hk'] at hstate
        | wait q' =>
            rw [(hwait q' t hk').2] at hqueue
            rw [Option.some.inj hqueue]

namespace Preemptive

/-- Every run of the preemptive build. One that is not calm may link a thread in two
queues at once, which lists do not show: what is said of queues is said of calm runs. -/
abbrev AnyReach (b : Build) : Preemptive → Prop := Reach (step b) (fun _ _ => True) initial

/-- The running thread is inside `thread_create`, before its critical section. -/
def creating (x : Preemptive) : Bool := x.nextPiece.any Piece.inCreate

theorem creating_piece {x : Preemptive} {p : Piece} {rest : List Stmt}
    (hcode : x.running = .piece p :: rest) : x.creating = p.inCreate := by
  unfold creating
  rw [nextPiece_eq hcode]
  rfl

/-- Whatever changes more than points and the history is a piece of library
code, and the mask is as the piece has it. -/
theorem piece_of_change {b : Build} {x x' : Preemptive} {i : Stimulus} {α : Type*} (π : State → α)
    (hpoint : ∀ s t k, π (s.setPoint t k) = π s) (hemit : ∀ s e, π (s.emit e) = π s)
    (h : MaskInv x) (hs : x.step b i = some x') (hchange : π x'.lib ≠ π x.lib) :
    ∃ e p rest, x.running = .piece p :: rest ∧ x'.lib = (p.perform b x.lib e).1 ∧
      x.blocked = p.masked ∧ p.Proper := by
  obtain ⟨-, ha⟩ := advance_of_step hs
  cases ha with
  | piece e p rest hfresh hcode =>
      have hmask := h.running
      rw [hcode] at hmask
      exact ⟨e, p, rest, hcode, rfl, hmask.1, hmask.2.1⟩
  | call c hcode => exact absurd rfl hchange
  | tick hmask hinit => exact absurd rfl hchange
  | block e rest hcode => exact absurd rfl hchange
  | unblock e rest hcode => exact absurd rfl hchange
  | sigreturn e k rest hcode => exact absurd (hpoint _ _ _) hchange
  | ret e c code rest hcode => exact absurd ((hpoint _ _ _).trans (hemit _ _)) hchange

/-- In every run, a step that changes the recycling state has the signal blocked
exactly if it is not one of `thread_create` before its critical section. -/
theorem blocked_iff_of_reach {b : Build} {x x' : Preemptive} {i : Stimulus} (h : AnyReach b x)
    (hs : x.step b i = some x') (hchange : x'.lib.recycling ≠ x.lib.recycling) :
    x.blocked = true ↔ x.creating = false := by
  obtain ⟨e, p, rest, hcode, hlib, hblocked, hproper⟩ := piece_of_change State.recycling
    (fun _ _ _ => rfl) (fun _ _ => rfl) (maskInv_of_reach h) hs hchange
  rw [hlib] at hchange
  rw [creating_piece hcode, hblocked]
  cases hmasked : p.masked with
  | true =>
      have hout : p.inCreate = false := by
        cases p with
        | createPublish newth => rfl
        | _ => first | rfl | cases hmasked
      simp [hout]
  | false =>
      have hsame := (Piece.perform_unmasked (b := b) (s := x.lib) (e := e) hproper hmasked).2.1
      have hin : p.inCreate = true := by
        by_contra hout
        exact hchange (hsame (Bool.of_not_eq_true hout))
      simp [hin]

/-! Scripted stimuli, for runs that are executed. -/

/-- A creation, up to its return, for which `malloc` returns `n` and `mmap` a
mapping of its own. -/
def creation (n : Tid) : List Stimulus :=
  [.call (.threadCreate true true), .go .plain, .go { Env.plain with thread := some n },
    .go .plain,
    .go { Env.plain with
      stack := { map := some (n * 65536), mprotect := true, valgrindId := n } },
    .go .plain, .go .plain, .go .plain, .go .plain, .go .plain]

/-- `n` statements that need no memory. -/
def statements (n : Nat) : List Stimulus := List.replicate n (.go .plain)

/-- Thread 1 is created, it exits, and the main thread joins it. -/
def joinedOnce : List Stimulus :=
  creation 1 ++ .call (.threadJoin (some 1) true) :: statements 5 ++
    .call (.threadExit 7) :: statements 6

/-- The end of the join gives the struct back with the signal blocked. -/
theorem blocked_iff_of_reach_join : ∃ x x' : Preemptive, AnyReach .fifo x ∧
    x.step .fifo (.go .plain) = some x' ∧ x'.lib.recycling ≠ x.lib.recycling ∧
    (x.blocked = true ↔ x.creating = false) ∧ x.creating = false := by
  obtain ⟨x, hreach, x', hs, hpool, hcreating⟩ := exists_reach_of_run (step .fifo)
    (fun _ _ => True) initial (joinedOnce.take 21)
    (fun x => ∃ x' ∈ x.step .fifo (.go .plain), x'.lib.threadPool ≠ x.lib.threadPool ∧
      x.creating = false) (by decide +kernel)
  have hchange : x'.lib.recycling ≠ x.lib.recycling := fun heq => hpool (congrArg Prod.fst heq)
  exact ⟨x, x', hreach, hs, hchange, blocked_iff_of_reach hreach hs hchange, hcreating⟩

/-- The next creation pops the struct of thread 1 with the timer armed and the
signal unblocked. -/
theorem not_blocked_of_reach :
    ¬ ∀ (b : Build) (x x' : Preemptive) (i : Stimulus), AnyReach b x →
      x.lib.schedulerInitialized = true → x.step b i = some x' →
      x'.lib.recycling ≠ x.lib.recycling → x.blocked = true := by
  intro hall
  obtain ⟨x, hreach, x', hs, hpool, hinit, hblocked⟩ := exists_reach_of_run (step .fifo)
    (fun _ _ => True) initial
    (joinedOnce ++ .call (.threadCreate true true) :: statements 1)
    (fun x => ∃ x' ∈ x.step .fifo (.go .plain), x'.lib.threadPool ≠ x.lib.threadPool ∧
      x.lib.schedulerInitialized = true ∧ x.blocked = false) (by decide +kernel)
  have hmasked := hall .fifo x x' (.go .plain) hreach hinit hs
    fun heq => hpool (congrArg Prod.fst heq)
  rw [hblocked] at hmasked
  cases hmasked

/-! The ready queue. -/

/-- While the signal is not blocked every ready thread is in the queue, and no
step that changes the queue starts so. -/
structure QueueLaw (b : Build) (x : Preemptive) : Prop where
  queued : x.blocked = false → ∀ t ∈ x.lib.handles, (x.lib.threads t).state = .ready →
    t ∈ x.lib.readyQueue ∧ (x.lib.threads t).inReadyQueue = true
  masked : ∀ i x', x.step b i = some x' → x'.lib.readyQueue ≠ x.lib.readyQueue → x.blocked = true

/-- The next piece is no yield that picks a thread and keeps its caller running. -/
def NeverKeeps (b : Build) (x : Preemptive) : Stimulus → Prop
  | .go _ => ∀ p ∈ x.nextPiece, p.yields = true → (keptRunning b.policy x.lib).isNone
  | _ => True

instance (b : Build) (x : Preemptive) (i : Stimulus) : Decidable (x.NeverKeeps b i) :=
  match i with
  | .call _ => .isTrue trivial
  | .tick => .isTrue trivial
  | .go _ => inferInstanceAs (Decidable (∀ p ∈ x.nextPiece, p.yields = true → _))

/-- The steps of a calm run in which no yield keeps its caller running. -/
def Orderly (b : Build) (x : Preemptive) (i : Stimulus) : Prop := x.Calm i ∧ x.NeverKeeps b i

instance (b : Build) (x : Preemptive) (i : Stimulus) : Decidable (x.Orderly b i) :=
  inferInstanceAs (Decidable (_ ∧ _))

theorem NeverKeeps.keepsOnly {b : Build} {x : Preemptive} {i : Stimulus} (h : x.NeverKeeps b i) :
    x.KeepsOnly b False i := by
  cases i with
  | call c => trivial
  | tick => trivial
  | go e => exact fun p hp hyields hkept => hkept (Option.isNone_iff_eq_none.mp (h p hp hyields))

/-- In every orderly run the queue is in order at every preemption point. -/
theorem queueLaw_of_reach {b : Build} {x : Preemptive}
    (h : Reach (step b) (Orderly b) initial x) : QueueLaw b x := by
  have hsteady : Steady b False x := .of_reach (fun _ _ hg => ⟨hg.1, hg.2.keepsOnly⟩) h
  refine ⟨fun _ t ht hready => ?_, fun i x' hs hchange => ?_⟩
  · obtain ⟨s₀, hsettles⟩ := hsteady.running.settles
    obtain ⟨hqueue, hthreads⟩ := hsettles.queue id
    have ht₀ : t ∈ s₀.handles := hsettles.handles ▸ ht
    rw [← hthreads t ht] at hready ⊢
    rw [← hqueue]
    exact ⟨(hsettles.inv.sched.ready.mem_iff t).mpr ⟨ht₀, hready⟩,
      (hsettles.inv.sched.threads_ok t ht₀).flag.mpr hready⟩
  · obtain ⟨e, p, rest, hcode, hlib, hblocked, hproper⟩ := piece_of_change State.readyQueue
      (fun _ _ _ => rfl) (fun _ _ => rfl) (maskInv_of_reach h) hs hchange
    rw [hlib] at hchange
    rw [hblocked]
    by_contra hmasked
    refine hchange ((Piece.perform_unmasked hproper (Bool.of_not_eq_true hmasked)).2.2 ?_)
    -- The queue is changed outside critical sections by one piece only.
    rintro next rfl
    have hstanding := hsteady.running
    rw [hcode] at hstanding
    cases hstanding with
    | plain inv code => exact code.1.elim
    | kept hkeeps inv code => exact hkeeps

/-- A timer signal interrupts the main thread, and thread 1 runs with the main
thread in the queue. -/
theorem queueLaw_of_reach_tick : ∃ x, Reach (step .fifo) (Orderly .fifo) initial x ∧
    QueueLaw .fifo x ∧ x.blocked = false ∧ (x.lib.threads mainThread).state = .ready := by
  obtain ⟨x, hreach, hblocked, hready⟩ := exists_reach_of_run (step .fifo) (Orderly .fifo) initial
    (creation 1 ++ .tick :: statements 3)
    (fun x => x.blocked = false ∧ (x.lib.threads mainThread).state = .ready) (by decide +kernel)
  exact ⟨x, hreach, queueLaw_of_reach hreach, hblocked, hready⟩

/-- The main thread has a higher priority than thread 1 and yields: thread 1 has
been picked, the signal is unblocked, and thread 1 is not yet back in the queue. -/
theorem not_queueLaw_of_reach : ¬ ∀ (b : Build) (x : Preemptive), AnyReach b x → QueueLaw b x := by
  intro hall
  obtain ⟨x, hreach, hblocked, hmem, hready, hqueue⟩ := exists_reach_of_run
    (step { Build.fifo with policy := .prio }) (fun _ _ => True) initial
    (creation 1 ++ .call (.threadSetPriority (some mainThread) 50) :: statements 4 ++
      .call .threadYield :: statements 3)
    (fun x => x.blocked = false ∧ 1 ∈ x.lib.handles ∧ (x.lib.threads 1).state = .ready ∧
      1 ∉ x.lib.readyQueue) (by decide +kernel)
  exact hqueue ((hall _ x hreach).queued hblocked 1 hmem hready).1

/-- In every calm run a thread is linked once. -/
theorem singleLink_of_reach {b : Build} {x : Preemptive}
    (h : Reach (step b) Calm initial x) : SingleLink x.lib := by
  have hsteady : Steady b True x :=
    .of_reach (fun _ i hg => ⟨hg, by cases i <;> simp [KeepsOnly]⟩) h
  obtain ⟨s₀, hsettles⟩ := hsteady.running.settles
  have hlink := hsettles.inv.sched.singleLink
  have hsub : ∀ k, (x.lib.linked k).Sublist (s₀.linked k) := by
    intro k
    cases k with
    | ready => exact hsettles.ready
    | zombie =>
        have heq : s₀.linked .zombie = x.lib.linked .zombie := hsettles.zombies
        rw [heq]
    | wait q =>
        have heq : s₀.linked (.wait q) = x.lib.linked (.wait q) := congrFun hsettles.waiting q
        rw [heq]
  exact ⟨fun k => (hlink.nodup k).sublist (hsub k),
    fun k k' t hk hk' => hlink.unique k k' t ((hsub k).subset hk) ((hsub k').subset hk')⟩

/-! Joining. -/

/-- The thread `j` is inside `thread_join` on `t`: blocked, or woken and not yet
back. -/
def InJoin (s : State) (t j : Tid) : Prop :=
  j ∈ s.handles ∧ (s.threads j).point.target = some t

/-- Whoever is inside `thread_join` on a thread is its registered joiner, so
there is one at most. -/
structure SingleJoiner (s : State) : Prop where
  registered : ∀ t j, InJoin s t j → t ∈ s.handles ∧ (s.threads t).joinedBy = some j
  unique : ∀ t j j', InJoin s t j → InJoin s t j' → j = j'

/-- The running thread's join of `t` has returned -1 with `EINVAL`. -/
def JoinRefused (x x' : Preemptive) (t : Tid) : Prop :=
  ∃ retval, x'.lib = finish (.threadJoin (some t) retval) (x.lib.setErrno .einval, some (-1))

theorem Settles.singleJoiner {keeps : Prop} {s s₀ : State} (h : Settles keeps s s₀) :
    SingleJoiner s := by
  have hregistered : ∀ t j, InJoin s t j → t ∈ s.handles ∧ (s.threads t).joinedBy = some j := by
    rintro t j ⟨hj, htarget⟩
    rw [← h.points j hj] at htarget
    obtain ⟨ht, hjoined⟩ := h.inv.join.target j (h.handles ▸ hj) t htarget
    have ht' : t ∈ s.handles := h.handles ▸ ht
    rw [h.joinedBy t ht'] at hjoined
    exact ⟨ht', hjoined⟩
  refine ⟨hregistered, fun t j j' hj hj' => ?_⟩
  have hfirst := (hregistered t j hj).2
  rw [(hregistered t j' hj').2] at hfirst
  exact (Option.some.inj hfirst).symm

/-- In every calm run a thread has one joiner at most, the registered one, and
whoever else asks for it is refused. -/
theorem singleJoiner_of_reach {b : Build} {x : Preemptive} (h : Reach (step b) Calm initial x) :
    SingleJoiner x.lib ∧ ∀ e x' t j, InJoin x.lib t j → x.nextPiece.bind Piece.asks = some t →
      x.Calm (.go e) → x.step b (.go e) = some x' → JoinRefused x x' t := by
  have hsteady : Steady b True x :=
    .of_reach (fun _ i hg => ⟨hg, by cases i <;> simp [KeepsOnly]⟩) h
  obtain ⟨s₀, hsettles⟩ := hsteady.running.settles
  have hsingle := Settles.singleJoiner hsettles
  refine ⟨hsingle, fun e x' t j hj hasks hg hs => ?_⟩
  have hjoined : (x.lib.threads t).joinedBy ≠ none := by
    rw [(hsingle.registered t j hj).2]
    simp
  obtain ⟨p, hp, hpt⟩ := Option.bind_eq_some_iff.mp hasks
  obtain ⟨rest, hcode⟩ := running_of_nextPiece hp
  have hx' : x' = x.runPiece b p e rest := by
    obtain ⟨-, ha⟩ := advance_of_step hs
    cases ha with
    | piece _ p' rest' hfresh hcode' =>
        rw [hcode] at hcode'
        cases hcode'
        rfl
    | block _ rest' hcode' | unblock _ rest' hcode' | sigreturn _ k rest' hcode'
    | ret _ c code rest' hcode' =>
        rw [hcode] at hcode'
        cases hcode'
  subst hx'
  cases p with
  | joinCheck t' retval =>
      obtain rfl : t' = some t := hpt
      refine ⟨retval, ?_⟩
      simp only [runPiece, Piece.perform, if_pos hjoined]
      rfl
  | join t' retval =>
      obtain rfl : t' = t := Option.some.inj hpt
      exact absurd ((hg _ hp).2 t' rfl).1 hjoined
  | _ => cases hpt

/-- The main thread is blocked in its join of thread 1, and thread 2 asks for
thread 1 as well. -/
theorem singleJoiner_of_reach_second : ∃ x x' : Preemptive, Reach (step .fifo) Calm initial x ∧
    SingleJoiner x.lib ∧ InJoin x.lib 1 mainThread ∧ x.step .fifo (.go .plain) = some x' ∧
    JoinRefused x x' 1 := by
  obtain ⟨x, hreach, hmem, htarget, hasks, hg, hsome⟩ := exists_reach_of_run (step .fifo) Calm
    initial
    (creation 1 ++ creation 2 ++ .call (.threadJoin (some 1) true) :: statements 5 ++
      .call .threadYield :: statements 4 ++ [.call (.threadJoin (some 1) true)])
    (fun x => mainThread ∈ x.lib.handles ∧ (x.lib.threads mainThread).point.target = some 1 ∧
      x.nextPiece.bind Piece.asks = some 1 ∧ x.Calm (.go .plain) ∧
      (x.step .fifo (.go .plain)).isSome = true) (by decide +kernel)
  obtain ⟨x', hs⟩ := Option.isSome_iff_exists.mp hsome
  obtain ⟨hsingle, hrefused⟩ := singleJoiner_of_reach hreach
  exact ⟨x, x', hreach, hsingle, ⟨hmem, htarget⟩, hs,
    hrefused .plain x' 1 mainThread ⟨hmem, htarget⟩ hasks hg hs⟩

/-- The main thread is interrupted between the check of its join of thread 1 and
the critical section. Thread 2 joins thread 1 meanwhile and blocks, and then the
main thread takes its place. -/
theorem not_singleJoiner_of_reach :
    ¬ ∀ (b : Build) (x : Preemptive), AnyReach b x → ∀ t j, InJoin x.lib t j →
      (x.lib.threads j).state = .blocked → (x.lib.threads t).joinedBy = some j := by
  intro hall
  obtain ⟨x, hreach, hmem, htarget, hblocked, hjoined⟩ := exists_reach_of_run (step .fifo)
    (fun _ _ => True) initial
    (creation 1 ++ creation 2 ++ .call (.threadJoin (some 1) true) :: statements 1 ++
      .tick :: statements 4 ++ .call .threadYield :: statements 4 ++
      .call (.threadJoin (some 1) true) :: statements 7)
    (fun x => 2 ∈ x.lib.handles ∧ (x.lib.threads 2).point.target = some 1 ∧
      (x.lib.threads 2).state = .blocked ∧ (x.lib.threads 1).joinedBy = some mainThread)
    (by decide +kernel)
  have hregistered := hall .fifo x hreach 1 2 ⟨hmem, htarget⟩ hblocked
  rw [hjoined] at hregistered
  cases hregistered

end Preemptive

end UserThreads
