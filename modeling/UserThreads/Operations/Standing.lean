import UserThreads.Operations.Outline

/-!
# Where threads stand between the pieces

Every thread stands at a point that fits the code it has still to execute. The
running thread may owe the invariant something: the thread that `thread_yield` has
picked and not yet put back, or the memory that `thread_create` holds outside
critical sections.

## Implementation notes

A timer signal that arrives while something is owed hands an inconsistent state
to other threads, and `Calm` excludes it.
-/

namespace UserThreads

open Transition

/-- The point at which the thread `u` has to stand for a piece. -/
def Piece.Fits (u : Tid) (k : Point) : Piece → Prop
  | .start => k = .entry
  | .yield k' | .yieldTo _ k' | .setPriority _ _ k' =>
      (k' = k ∨ k.Settled ∧ ∃ c, k' = .yielded c) ∧ k' ≠ .user
  | .createReclaim n => k = .create n 0
  | .createStack n r | .createRetry n r => k = .create n r
  | .join t _ => k = .user ∧ t ≠ u
  | .joinClaim t retval => k = .join t retval
  | .condRelock _ _ _ | .sigwait _ => k.Settled
  | .requeue _ | .createAlloc | .createFill _ _ | .createSlot _ _ | .createPublish _ => False
  | _ => k = .user

/-- The points at which a piece that starts at `k` can leave its thread, once
everything it asks for has been done. -/
def Piece.Ends (k : Point) : Piece → Point → Prop
  | .yield k' | .yieldTo _ k' | .setPriority _ _ k' => fun q => q = k ∨ q = k'
  | _ => fun q => q = .user

/-- The code fits the point at which the thread `u` stands. -/
def CodeOk (u : Tid) : Point → List Stmt → Prop
  | k, [] => k = .user
  | k, .block :: rest => CodeOk u k rest
  | k, .unblock :: rest => CodeOk u k rest
  | k, .sigreturn k' :: rest => (k = k' ∨ k = k'.suspended) ∧ CodeOk u k' rest
  | k, .ret _ _ :: rest => k.Settled ∧ CodeOk u .user rest
  | k, .piece p :: rest => p.Fits u k ∧ ∀ q, p.Ends k q → CodeOk u q rest
  | _, .dead :: _ => True

section

variable {u : Tid} {rest : List Stmt}

/-- A piece that ends in user code. -/
theorem CodeOk.last {k : Point} {p : Piece} (hfits : p.Fits u k)
    (hends : ∀ q, p.Ends k q → q = .user) (hrest : CodeOk u .user rest) :
    CodeOk u k (.piece p :: rest) := by
  refine ⟨hfits, fun q hq => ?_⟩
  rw [hends q hq]
  exact hrest

theorem codeOk_threadEntry (u : Tid) : CodeOk u .entry threadEntry :=
  CodeOk.last (k := .entry) rfl (fun _ hq => hq) rfl

/-- A call that yields stands at its own point afterwards, or where it was. -/
theorem codeOk_yieldCall {p : Piece} {c : Call}
    (hfits : (Point.user.Settled ∧ ∃ c', Point.yielded c = .yielded c') → p.Fits u .user)
    (hends : ∀ q, p.Ends .user q → q = .user ∨ q = .yielded c) :
    CodeOk u .user [.block, .piece p, .ret c 0] := by
  refine ⟨hfits ⟨Point.settled_user, c, rfl⟩, fun q hq => ?_⟩
  rcases hends q hq with rfl | rfl
  · exact ⟨Point.settled_user, rfl⟩
  · exact ⟨⟨rfl, rfl⟩, rfl⟩

/-- The code of a call fits a thread in user code. -/
theorem Call.code_codeOk (u : Tid) (c : Call) : CodeOk u .user c.code := by
  have hyielded : Point.yielded c ≠ .user := by simp
  cases c.form with
  | yield h =>
      rw [h]
      exact codeOk_yieldCall (fun hold => ⟨Or.inr hold, hyielded⟩) fun _ hq => hq
  | yieldTo t h =>
      rw [h]
      exact codeOk_yieldCall (fun hold => ⟨Or.inr hold, hyielded⟩) fun _ hq => hq
  | setPriority t prio h =>
      rw [h]
      exact codeOk_yieldCall (fun hold => ⟨Or.inr hold, hyielded⟩) fun _ hq => hq
  | sigwait set h =>
      rw [h]
      exact CodeOk.last (k := .user) Point.settled_user (fun _ hq => hq) rfl
  | critical h hcritical =>
      rw [h]
      exact CodeOk.last (k := .user) rfl (fun _ hq => hq) rfl
  | setUp q v htakes h =>
      rw [h]
      exact CodeOk.last (k := .user) rfl (fun _ hq => hq)
        (CodeOk.last rfl (fun _ hq => hq) ⟨Point.settled_user, rfl⟩)
  | _ =>
      rename_i h
      rw [h]
      exact CodeOk.last (k := .user) rfl (fun _ hq => hq) rfl

/-- The handler may interrupt whatever code fits. -/
theorem codeOk_preemptionHandler {k : Point} (h : CodeOk u k rest) :
    CodeOk u k (preemptionHandler k ++ rest) := by
  have hyield : (Piece.yield k.suspended).Fits u k := by
    cases k with
    | user => exact ⟨Or.inr ⟨Point.settled_user, _, rfl⟩, by simp [Point.suspended]⟩
    | _ => exact ⟨Or.inl rfl, by simp [Point.suspended]⟩
  exact ⟨hyield, fun q hq => ⟨hq, h⟩⟩

end

/-! What a calm run asks of its steps. -/

/-- The piece puts a thread back into the ready queue, after the end of the
critical section that took it out. -/
def Piece.requeues : Piece → Bool
  | .requeue _ => true
  | _ => false

/-- The piece is the critical section of `thread_yield`. -/
def Piece.yields : Piece → Bool
  | .yield _ => true
  | _ => false

/-- A timer signal would find the library in the middle of an update: inside
`thread_create` before its critical section, or in `thread_yield` after one. -/
def exposed : List Stmt → Bool
  | .piece p :: _ => p.inCreate || p.requeues
  | .block :: .piece p :: _ => p.started.isSome
  | _ => false

/-- The thread argument of a piece. -/
def Piece.handle : Piece → Option Tid
  | .yieldTo t _ | .setPriority t _ _ | .join t _ => some t
  | .critical (.threadSignalSend t _) => t
  | _ => none

/-- The thread that a piece starts to join. -/
def Piece.joins : Piece → Option Tid
  | .join t _ => some t
  | _ => none

/-- A thread argument is the handle of a thread that has not been joined. A join
still finds no other joiner, and does not give up after it has registered
itself. -/
def Piece.Promised (s : State) (p : Piece) : Prop :=
  (∀ t ∈ p.handle, t ∈ s.handles) ∧
    ∀ t ∈ p.joins, (s.threads t).joinedBy = none ∧ ¬ (JoinBlocks s t ∧ s.readyQueue = [])

instance (s : State) (p : Piece) : Decidable (p.Promised s) :=
  inferInstanceAs (Decidable (_ ∧ _))

namespace Preemptive

/-- The steps of a calm run: the callers keep their promises, and no timer
signal arrives in the middle of an update. -/
def Calm (x : Preemptive) : Stimulus → Prop
  | .call _ => True
  | .tick => exposed x.running = false
  | .go _ => ∀ p ∈ x.nextPiece, p.Promised x.lib

instance (x : Preemptive) (i : Stimulus) : Decidable (x.Calm i) :=
  match i with
  | .call _ => .isTrue trivial
  | .tick => inferInstanceAs (Decidable (_ = _))
  | .go _ => inferInstanceAs (Decidable (∀ p ∈ x.nextPiece, p.Promised x.lib))

/-- No yield keeps its caller running, unless `keeps`. -/
def KeepsOnly (b : Build) (keeps : Prop) (x : Preemptive) : Stimulus → Prop
  | .go _ => ∀ p ∈ x.nextPiece, p.yields = true → keptRunning b.policy x.lib ≠ none → keeps
  | _ => True

end Preemptive

/-! The invariant. -/

/-- The running thread holds the struct `n` and the stack `entry`, and the
invariant holds when it gives the stack back. -/
structure HoldsStack (s : State) (n : Tid) (entry : StackEntry) : Prop where
  inv : Inv { s with stackPool := entry :: s.stackPool }
  point : ∃ r, s.running.point = .create n r

/-- The struct `n` has been filled and has got a head slot. -/
def Prepared (s : State) (n : Tid) : Prop :=
  ∃ (s₁ s₂ : State) (entry : StackEntry) (e : SlotEnv) (ref : SlotRef), HoldsStack s₁ n entry ∧
    threadHeadRefAlloc (s₁.modifyThread n fun th => th.fresh entry) n e = (s₂, some ref) ∧
    s = s₂.modifyThread n fun th => { th with headJoiner := some ref }

/-- Where the running thread stands in its code, and what it owes the invariant
there. `keeps` says whether `thread_yield` may have kept its caller running. -/
inductive Standing (b : Build) (keeps : Prop) (s : State) : List Stmt → Prop
  | plain {l : List Stmt} (inv : Inv s) (code : CodeOk s.currentThread s.running.point l) :
      Standing b keeps s l
  | keptMasked {next : Tid} {rest : List Stmt} (hkeeps : keeps)
      (inv : Inv (threadSchedulerEnqueue b.policy s next))
      (code : CodeOk s.currentThread s.running.point rest) :
      Standing b keeps s (.unblock :: .piece (.requeue next) :: rest)
  | kept {next : Tid} {rest : List Stmt} (hkeeps : keeps)
      (inv : Inv (threadSchedulerEnqueue b.policy s next))
      (code : CodeOk s.currentThread s.running.point rest) :
      Standing b keeps s (.piece (.requeue next) :: rest)
  | alloc {rest : List Stmt} (inv : Inv s) (init : s.schedulerInitialized = true)
      (user : s.running.point = .user) (code : CodeOk s.currentThread .user rest) :
      Standing b keeps s (.piece .createAlloc :: rest)
  | fill {n : Tid} {entry : StackEntry} {rest : List Stmt} (holds : HoldsStack s n entry)
      (code : CodeOk s.currentThread .user rest) :
      Standing b keeps s (.piece (.createFill n entry) :: rest)
  | slot {s₁ : State} {n : Tid} {entry : StackEntry} {rest : List Stmt}
      (holds : HoldsStack s₁ n entry) (filled : s = s₁.modifyThread n fun th => th.fresh entry)
      (code : CodeOk s.currentThread .user rest) :
      Standing b keeps s (.piece (.createSlot n entry) :: rest)
  | publishMask {n : Tid} {rest : List Stmt} (prepared : Prepared s n)
      (code : CodeOk s.currentThread .user rest) :
      Standing b keeps s (.block :: .piece (.createPublish n) :: rest)
  | publish {n : Tid} {rest : List Stmt} (prepared : Prepared s n)
      (code : CodeOk s.currentThread .user rest) :
      Standing b keeps s (.piece (.createPublish n) :: rest)

/-- What holds between the steps of a calm run. -/
structure Steady (b : Build) (keeps : Prop) (x : Preemptive) : Prop where
  runs : x.lib.ended = true ∨ x.lib.running.state = .running
  running : Standing b keeps x.lib x.running
  others : ∀ t ∈ x.lib.handles, t ≠ x.lib.currentThread → CodeOk t (x.lib.points t) (x.code t)

theorem steady_initial (b : Build) (keeps : Prop) : Steady b keeps .initial where
  runs := Or.inr rfl
  running := .plain inv_initial rfl
  others := by
    intro t ht hne
    exact absurd (List.mem_singleton.mp ht) hne

/-- What a piece does to the invariant: the other threads stay where they are,
and the thread that executed it stands where its code expects it. -/
structure Outcome (b : Build) (keeps : Prop) (s : State) (p : Piece) (rest : List Stmt)
    (r : State × List Stmt) : Prop where
  others : ∀ t ∈ r.1.handles, t ≠ s.currentThread → p.started ≠ some t →
    t ∈ s.handles ∧ r.1.points t = s.points t
  started : ∀ n, p.started = some n → r.1.points n = .entry
  own : (Inv r.1 ∧ CodeOk s.currentThread (r.1.points s.currentThread) (r.2 ++ rest)) ∨
    (r.1.currentThread = s.currentThread ∧ Standing b keeps r.1 (r.2 ++ rest))
  runs : r.1.ended = true ∨ r.1.running.state = .running

section Outcome

variable {b : Build} {keeps : Prop} {s s' : State} {p : Piece} {rest l : List Stmt} {c : Call}
  {k : Point}

/-- The invariant holds, and the thread stands at `k`. -/
theorem Outcome.plain (hstart : p.started = none) (hinv : Inv s')
    (hrun : s'.ended = true ∨ s'.running.state = .running)
    (hpoints : s'.points = Function.update s.points s.currentThread k)
    (hhandles : s'.handles ⊆ s.handles) (hcode : CodeOk s.currentThread k (l ++ rest)) :
    Outcome b keeps s p rest (s', l) where
  others := by
    intro t ht hne _
    refine ⟨hhandles ht, ?_⟩
    rw [hpoints, Function.update_of_ne hne]
  started := by
    intro n hn
    rw [hstart] at hn
    cases hn
  own := by
    refine Or.inl ⟨hinv, ?_⟩
    rw [hpoints, Function.update_self]
    exact hcode
  runs := hrun

/-- The invariant holds, and nobody has moved. -/
theorem Outcome.still (hstart : p.started = none) (hinv : Inv s')
    (hrun : s'.running.state = .running) (hsame : s'.outline = s.outline)
    (hcode : CodeOk s.currentThread s.running.point (l ++ rest)) :
    Outcome b keeps s p rest (s', l) := by
  unfold State.outline at hsame
  simp only [Prod.mk.injEq] at hsame
  obtain ⟨hpoints, -, hhandles⟩ := hsame
  refine .plain hstart hinv (Or.inr hrun) (k := s.running.point) ?_ ?_ hcode
  · rw [hpoints]
    exact (Function.update_eq_self _ _).symm
  · rw [hhandles]
    exact List.Subset.refl _

/-- Nobody has moved, and the running thread owes something. -/
theorem Outcome.owing (hstart : p.started = none) (hrun : s'.running.state = .running)
    (hsame : s'.outline = s.outline) (hstand : Standing b keeps s' (l ++ rest)) :
    Outcome b keeps s p rest (s', l) := by
  unfold State.outline at hsame
  simp only [Prod.mk.injEq] at hsame
  obtain ⟨hpoints, hcurrent, hhandles⟩ := hsame
  refine ⟨fun t ht hne _ => ⟨hhandles ▸ ht, by rw [hpoints]⟩, fun n hn => ?_,
    Or.inr ⟨hcurrent, hstand⟩, Or.inr hrun⟩
  rw [hstart] at hn
  cases hn

/-- A return to user code. -/
theorem Outcome.toUser {code : Int} (hstart : p.started = none)
    (hinv : Inv (finish c (s', some code)))
    (hrun : (finish c (s', some code)).ended = true ∨
      (finish c (s', some code)).running.state = .running)
    (hleaves : Leaves k s (s', some code)) (hcode : CodeOk s.currentThread .user (l ++ rest)) :
    Outcome b keeps s p rest (finish c (s', some code), l) := by
  cases hleaves with
  | returns _ hpoints hcurrent hhandles =>
      have hback :=
        outline_setPoint (s := s'.emit (.returned s'.self c code)) s'.currentThread .user
      unfold State.outline at hback
      simp only [Prod.mk.injEq] at hback
      obtain ⟨hpoints', -, hhandles'⟩ := hback
      refine .plain hstart hinv hrun ?_ ?_ hcode
      · refine hpoints'.trans ?_
        rw [hcurrent, ← hpoints]
        rfl
      · exact fun t ht => hhandles (hhandles' ▸ ht)

/-- The end of a critical section. -/
theorem Outcome.sectionEnd {r : State × Option Int} {suspended : List Stmt}
    (hstart : p.started = none)
    (hc : Inv (finish c r) ∧ ((finish c r).ended = true ∨ (finish c r).running.state = .running))
    (hleaves : Leaves k s r) (hrest : CodeOk s.currentThread .user rest)
    (hsuspended : CodeOk s.currentThread k (suspended ++ rest)) :
    Outcome b keeps s p rest (returning c suspended r) := by
  obtain ⟨hinv, hrun⟩ := hc
  obtain ⟨s', code⟩ := r
  cases code with
  | none =>
      cases hleaves with
      | switches hpoints hhandles => exact .plain hstart hinv hrun hpoints hhandles hsuspended
  | some code => exact .toUser hstart hinv hrun hleaves hrest

/-- The end of a critical section that has yielded, or not. -/
theorem Outcome.yielded {i : Input} {r : State × Option Int} (hstart : p.started = none)
    (h : Inv s) (hyields : Yields i s r) (hleaves : Leaves k s r)
    (hstay : CodeOk s.currentThread s.running.point rest)
    (hswitch : CodeOk s.currentThread k rest) : Outcome b keeps s p rest (r.1, [.unblock]) := by
  have hinv := h.moves hyields.moves
  have hrun := hyields.runs
  cases hleaves with
  | returns code hpoints hcurrent hhandles =>
      refine .plain hstart hinv (Or.inr hrun) (k := s.running.point) ?_ hhandles hstay
      rw [hpoints]
      exact (Function.update_eq_self _ _).symm
  | switches hpoints hhandles =>
      exact .plain hstart hinv (Or.inr hrun) hpoints hhandles hswitch

/-- What is known when a call has been served. -/
theorem Inv.served {r : State × Option Int} (h : Inv r.1)
    (hrun : r.1.ended = true ∨ r.1.running.state = .running)
    (hreturns : ∀ code, r.2 = some code → r.1.running.state = .running ∧ r.1.running.point.Settled)
    (c : Call) :
    Inv (finish c r) ∧ ((finish c r).ended = true ∨ (finish c r).running.state = .running) := by
  obtain ⟨s', code⟩ := r
  cases code with
  | none => exact ⟨h, hrun⟩
  | some code =>
      obtain ⟨hrunning, hsettled⟩ := hreturns code rfl
      have hback := Finishes.toUser (i := .resume .plain) hrunning hsettled c code
      exact ⟨h.moves hback.moves, Or.inr hback.runs⟩

theorem Inv.completed {i : Input} (h : Inv s) (hc : Completed i s s') :
    Inv s' ∧ (s'.ended = true ∨ s'.running.state = .running) :=
  ⟨h.stretch hc.stretch, hc.runs⟩

end Outcome

end UserThreads
