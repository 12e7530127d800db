import UserThreads.Model.Context
import Mathlib.Data.Set.Basic
import Mathlib.Logic.Relation

/-!
# Threads that switch contexts

Any number of threads share one machine. Each has a context object and a
stack; the running thread computes, sets up contexts, and hands the machine
over to a context that has been saved or set up. `saved` and `found` are history
variables: with which registers, and to which return address, each context was
saved, and which registers the running thread found when it got the machine.
-/

namespace UserThreads

open Relation

/-- What the architectures have in common. -/
structure Arch where
  Reg : Type
  [regEq : DecidableEq Reg]
  stackPointer : Reg
  calleeSaved : List Reg
  /-- The number of words of `struct fast_ctx`. -/
  words : Nat
  /-- A call of `fast_swap_context(save, restore)` with its return address. -/
  swap : (save restore ret : Word) → Machine Reg → Machine Reg
  /-- A call of `fast_restore_context(ctx)`. -/
  restore : (ctx ret : Word) → Machine Reg → Machine Reg
  /-- `fast_ctx_init(ctx, stack_top, entry)`, on the memory. -/
  init : (ctx stackTop entry : Word) → (Word → Word) → Word → Word
  /-- The stack words that the call instruction writes. -/
  pushes : Machine Reg → List Word
  /-- The stack pointer modulo 16 with which a function is entered. -/
  entryAlignment : Nat
  /-- The address is one that a function can have. -/
  IsFunction : Word → Prop

attribute [instance] Arch.regEq

/-- What is known about a context that waits to be restored: the call that
saved it, or its set-up. -/
inductive Snapshot (A : Arch) where
  | suspended (regs : A.Reg → Word) (ret : Word)
  | fresh (stackTop entry : Word)

namespace Arch

variable (A : Arch)

/-- The words of the context object at `ctx`. -/
def object (ctx : Word) : Set Word := {a | ∃ k < A.words, a = ctx + BitVec.ofNat 64 (8 * k)}

/-- The thread goes on as it must: a suspended one returns from its call, a
fresh one enters its function. -/
def Resumed (m : Machine A.Reg) : Snapshot A → Prop
  | .suspended regs ret =>
      m.pc = ret ∧ m.regs A.stackPointer = regs A.stackPointer ∧
        ∀ r ∈ A.calleeSaved, m.regs r = regs r
  | .fresh stackTop entry =>
      m.pc = entry ∧ (∀ r ∈ A.calleeSaved, m.regs r = 0) ∧
        stackTop.toNat - 24 ≤ (m.regs A.stackPointer).toNat ∧
        (m.regs A.stackPointer).toNat ≤ stackTop.toNat ∧
        (m.regs A.stackPointer).toNat % 16 = A.entryAlignment

end Arch

/-- The machine, the running thread, and what each other thread waits with. -/
structure Coroutines (A : Arch) (T : Type) where
  machine : Machine A.Reg
  current : T
  saved : T → Option (Snapshot A)
  /-- The registers when the running thread was last given the machine. -/
  found : A.Reg → Word
  /-- The stack words of each thread. -/
  stack : T → Set Word

namespace Coroutines

variable {A : Arch} {T : Type}

/-- The thread runs, or will run when its context is restored. -/
def Live (x : Coroutines A T) (t : T) : Prop := t = x.current ∨ (x.saved t).isSome

/-- The words from 24 bytes below `stackTop` up to it belong to the region. -/
def Covers (region : Set Word) (stackTop : Word) : Prop :=
  24 ≤ stackTop.toNat ∧
    ∀ a : Word, stackTop.toNat - 24 ≤ a.toNat → a.toNat + 8 ≤ stackTop.toNat → a ∈ region

variable [DecidableEq T]

/-- The running thread hands the machine over to a context, which had been
saved or set up as `snap` says. Its thread runs from then on, so the context is
used up. The call instruction writes the caller's stack. -/
inductive Switch (ctx : T → Word) (x : Coroutines A T) : Snapshot A → Coroutines A T → Prop
  | swap (t : T) (ret : Word) (snap : Snapshot A)
      (hpush : ∀ a ∈ A.pushes x.machine, a ∈ x.stack x.current)
      (hsaved : Function.update x.saved x.current (some (.suspended x.machine.regs ret)) t =
        some snap) :
      Switch ctx x snap
        { x with
          machine := A.swap (ctx x.current) (ctx t) ret x.machine
          current := t
          saved := Function.update
            (Function.update x.saved x.current (some (.suspended x.machine.regs ret))) t none
          found := (A.swap (ctx x.current) (ctx t) ret x.machine).regs }
  | restore (t : T) (ret : Word) (snap : Snapshot A)
      (hpush : ∀ a ∈ A.pushes x.machine, a ∈ x.stack x.current) (hsaved : x.saved t = some snap) :
      Switch ctx x snap
        { x with
          machine := A.restore (ctx t) ret x.machine
          current := t
          saved := Function.update x.saved t none
          found := (A.restore (ctx t) ret x.machine).regs }

/-- What the running thread does between its switches. -/
inductive Work (ctx : T → Word) (x : Coroutines A T) : Coroutines A T → Prop
  /-- Any computation that keeps off the context objects and the stacks of the
  other threads. -/
  | compute (m : Machine A.Reg)
      (hobject : ∀ t, ∀ a ∈ A.object (ctx t), m.mem a = x.machine.mem a)
      (hstack : ∀ u, u ≠ x.current → x.Live u → ∀ a ∈ x.stack u, m.mem a = x.machine.mem a) :
      Work ctx x { x with machine := m }
  /-- `fast_ctx_init` for a thread that does not run, on a stack of its own. -/
  | init (t : T) (region : Set Word) (stackTop entry : Word) (hne : t ≠ x.current)
      (hentry : A.IsFunction entry) (hcovers : Covers region stackTop)
      (hfree : ∀ u, u ≠ t → x.Live u → ∀ a ∈ region, a ∉ x.stack u)
      (hobject : ∀ u, ∀ a ∈ A.object (ctx u), a ∉ region) :
      Work ctx x
        { x with
          machine := { x.machine with mem := A.init (ctx t) stackTop entry x.machine.mem }
          saved := Function.update x.saved t (some (.fresh stackTop entry))
          stack := Function.update x.stack t region }

/-- One action of the running thread, which switches only where `guard` allows it. -/
inductive Step (ctx : T → Word) (guard : Coroutines A T → Prop) (x : Coroutines A T) :
    Coroutines A T → Prop
  | work (x' : Coroutines A T) (h : Work ctx x x') : Step ctx guard x x'
  | switch (snap : Snapshot A) (x' : Coroutines A T) (hguard : guard x)
      (h : Switch ctx x snap x') : Step ctx guard x x'

/-- One thread runs, nothing has been saved, and the stack is no context object. -/
def Initial (ctx : T → Word) (x : Coroutines A T) : Prop :=
  (∀ t, x.saved t = none) ∧ x.found = x.machine.regs ∧
    ∀ t, ∀ a ∈ A.object (ctx t), a ∉ x.stack x.current

/-- The states that the threads can reach from a start, with switches where
`guard` allows them. -/
def Reachable (ctx : T → Word) (guard : Coroutines A T → Prop) (x : Coroutines A T) : Prop :=
  ∃ x₀, Initial ctx x₀ ∧ ReflTransGen (Step ctx guard) x₀ x

theorem Reachable.step {ctx : T → Word} {guard : Coroutines A T → Prop} {x x' : Coroutines A T}
    (h : Reachable ctx guard x) (hs : Step ctx guard x x') : Reachable ctx guard x' := by
  obtain ⟨x₀, hinitial, hsteps⟩ := h
  exact ⟨x₀, hinitial, hsteps.tail hs⟩

end Coroutines

/-- The contexts are objects of their own. -/
def DistinctContexts (A : Arch) {T : Type} (ctx : T → Word) : Prop :=
  ∀ t u, t ≠ u → ∀ a ∈ A.object (ctx t), a ∉ A.object (ctx u)

/-- What the proof needs to know about an architecture: a relation that says
when a context in memory is good for a snapshot, which words it depends on, and
what the three routines do to it. -/
structure Arch.Spec (A : Arch) where
  Holds : Word → (Word → Word) → Snapshot A → Prop
  needs : Snapshot A → Set Word
  frame : ∀ {ctx mem mem' snap}, Holds ctx mem snap → (∀ a ∈ A.object ctx, mem' a = mem a) →
    (∀ a ∈ needs snap, mem' a = mem a) → Holds ctx mem' snap
  needs_fresh : ∀ stackTop entry, needs (.fresh stackTop entry) = ∅
  needs_suspended : ∀ (m : Machine A.Reg) (ret a : Word),
    a ∈ needs (.suspended m.regs ret) → a ∈ A.pushes m
  init_holds : ∀ {ctx stackTop entry region mem}, A.IsFunction entry →
    Coroutines.Covers region stackTop →
    (∀ a ∈ A.object ctx, a ∉ region) → Holds ctx (A.init ctx stackTop entry mem)
      (.fresh stackTop entry)
  init_frame : ∀ {ctx stackTop entry region mem a}, Coroutines.Covers region stackTop →
    a ∉ A.object ctx → a ∉ region → A.init ctx stackTop entry mem a = mem a
  swap_frame : ∀ {save restore ret m a}, a ∉ A.object save → a ∉ A.pushes m →
    (A.swap save restore ret m).mem a = m.mem a
  swap_holds : ∀ {save restore ret m}, (∀ a ∈ A.pushes m, a ∉ A.object save) →
    Holds save (A.swap save restore ret m).mem (.suspended m.regs ret)
  swap_resumed : ∀ {save restore ret m snap},
    Holds restore (A.swap save restore ret m).mem snap → A.Resumed (A.swap save restore ret m) snap
  restore_frame : ∀ {ctx ret m a}, a ∉ A.pushes m → (A.restore ctx ret m).mem a = m.mem a
  restore_resumed : ∀ {ctx ret m snap}, Holds ctx (A.restore ctx ret m).mem snap →
    A.Resumed (A.restore ctx ret m) snap

/-! The interleaving argument, once for all architectures. -/

namespace Coroutines

variable {A : Arch} {T : Type} {ctx : T → Word} {x x' : Coroutines A T}

/-- Every waiting context is good for its snapshot, and the stacks of live
threads keep apart from each other and from the context objects. -/
structure Intact (spec : A.Spec) (ctx : T → Word) (x : Coroutines A T) : Prop where
  running : x.saved x.current = none
  holds : ∀ t snap, x.saved t = some snap → spec.Holds (ctx t) x.machine.mem snap
  needs : ∀ t snap, x.saved t = some snap → ∀ a ∈ spec.needs snap, a ∈ x.stack t
  clear : ∀ t, x.Live t → ∀ u, ∀ a ∈ A.object (ctx u), a ∉ x.stack t
  apart : ∀ t u, x.Live t → x.Live u → t ≠ u → ∀ a ∈ x.stack t, a ∉ x.stack u

variable {spec : A.Spec}

theorem live_of_saved {t : T} {snap : Snapshot A} (h : x.saved t = some snap) : x.Live t :=
  Or.inr (by rw [h]; rfl)

theorem live_current (x : Coroutines A T) : x.Live x.current := Or.inl rfl

theorem Intact.ne_current (h : Intact spec ctx x) {t : T} {snap : Snapshot A}
    (hs : x.saved t = some snap) : t ≠ x.current := by
  rintro rfl
  rw [h.running] at hs
  cases hs

/-- The contexts of the threads that do not run survive a change of memory
elsewhere. -/
theorem Intact.holds_of_agree (h : Intact spec ctx x) {mem : Word → Word} {t : T}
    {snap : Snapshot A} (hs : x.saved t = some snap)
    (hobject : ∀ a ∈ A.object (ctx t), mem a = x.machine.mem a)
    (hstack : ∀ a ∈ x.stack t, mem a = x.machine.mem a) : spec.Holds (ctx t) mem snap :=
  spec.frame (h.holds t snap hs) hobject fun a ha => hstack a (h.needs t snap hs a ha)

/-- The words that a call by the running thread pushes are nobody else's. -/
theorem Intact.push_apart (h : Intact spec ctx x)
    (hpush : ∀ a ∈ A.pushes x.machine, a ∈ x.stack x.current) :
    (∀ u, ∀ a ∈ A.object (ctx u), a ∉ A.pushes x.machine) ∧
      ∀ u, x.Live u → u ≠ x.current → ∀ a ∈ x.stack u, a ∉ A.pushes x.machine := by
  constructor
  · intro u a ha hmem
    exact h.clear x.current (live_current x) u a ha (hpush a hmem)
  · intro u hu hne a ha hmem
    exact h.apart u x.current hu (live_current x) hne a ha (hpush a hmem)

variable [DecidableEq T]

/-- Who waits after the machine was given to `t` waited before. -/
theorem saved_of_given {saved : T → Option (Snapshot A)} {t u : T} {snap : Snapshot A}
    (h : Function.update saved t none u = some snap) : saved u = some snap := by
  by_cases hu : u = t
  · subst u
    simp at h
  · rwa [Function.update_of_ne hu] at h

variable (hdistinct : DistinctContexts A ctx)
include hdistinct

/-- After a swap, the contexts that wait are those that waited before and the
one just saved. -/
theorem Intact.holds_swap (h : Intact spec ctx x) {t u : T} {ret : Word} {snap : Snapshot A}
    (hpush : ∀ a ∈ A.pushes x.machine, a ∈ x.stack x.current)
    (hs : Function.update x.saved x.current (some (.suspended x.machine.regs ret)) u = some snap) :
    spec.Holds (ctx u) (A.swap (ctx x.current) (ctx t) ret x.machine).mem snap ∧
      (∀ a ∈ spec.needs snap, a ∈ x.stack u) ∧ x.Live u := by
  obtain ⟨hobjects, hstacks⟩ := h.push_apart hpush
  by_cases hu : u = x.current
  · subst u
    rw [Function.update_self] at hs
    obtain rfl := Option.some.inj hs
    refine ⟨spec.swap_holds fun a ha hmem => hobjects _ a hmem ha, fun a ha => ?_, live_current x⟩
    exact hpush a (spec.needs_suspended x.machine ret a ha)
  · rw [Function.update_of_ne hu] at hs
    have hlive := live_of_saved hs
    refine ⟨h.holds_of_agree hs ?_ ?_, h.needs u snap hs, hlive⟩
    · intro a ha
      exact spec.swap_frame (hdistinct u x.current hu a ha) (hobjects u a ha)
    · intro a ha
      refine spec.swap_frame (fun hobject => ?_) (hstacks u hlive hu a ha)
      exact h.clear u hlive x.current a hobject ha

/-- A switch resumes the thread as it must, and leaves the others intact. -/
theorem Intact.switch (h : Intact spec ctx x) {snap : Snapshot A} (hs : Switch ctx x snap x') :
    A.Resumed x'.machine snap ∧ Intact spec ctx x' := by
  cases hs with
  | swap t ret snap hpush hsaved =>
      have hlive : ∀ u, (u = t ∨ (Function.update (Function.update x.saved x.current
          (some (.suspended x.machine.regs ret))) t none u).isSome) → x.Live u := by
        rintro u (rfl | hu)
        · exact (h.holds_swap hdistinct (t := u) hpush hsaved).2.2
        · obtain ⟨v, hv⟩ := Option.isSome_iff_exists.mp hu
          exact (h.holds_swap hdistinct (t := t) hpush (saved_of_given hv)).2.2
      refine ⟨spec.swap_resumed (h.holds_swap hdistinct hpush hsaved).1, ?_⟩
      constructor
      · simp
      · exact fun u v hv => (h.holds_swap hdistinct hpush (saved_of_given hv)).1
      · exact fun u v hv => (h.holds_swap hdistinct (t := t) hpush (saved_of_given hv)).2.1
      · exact fun u hu => h.clear u (hlive u hu)
      · exact fun u v hu hv => h.apart u v (hlive u hu) (hlive v hv)
  | restore t ret snap hpush hsaved =>
      obtain ⟨hobjects, hstacks⟩ := h.push_apart hpush
      have hholds : ∀ u v, x.saved u = some v →
          spec.Holds (ctx u) (A.restore (ctx t) ret x.machine).mem v := by
        intro u v hv
        refine h.holds_of_agree hv ?_ ?_
        · exact fun a ha => spec.restore_frame (hobjects u a ha)
        · exact fun a ha =>
            spec.restore_frame (hstacks u (live_of_saved hv) (h.ne_current hv) a ha)
      have hlive : ∀ u, (u = t ∨ (Function.update x.saved t none u).isSome) → x.Live u := by
        rintro u (rfl | hu)
        · exact live_of_saved hsaved
        · obtain ⟨v, hv⟩ := Option.isSome_iff_exists.mp hu
          exact live_of_saved (saved_of_given hv)
      refine ⟨spec.restore_resumed (hholds t snap hsaved), ?_⟩
      constructor
      · simp
      · exact fun u v hv => hholds u v (saved_of_given hv)
      · exact fun u v hv => h.needs u v (saved_of_given hv)
      · exact fun u hu => h.clear u (hlive u hu)
      · exact fun u v hu hv => h.apart u v (hlive u hu) (hlive v hv)

theorem Intact.work (h : Intact spec ctx x) (hw : Work ctx x x') : Intact spec ctx x' := by
  cases hw with
  | compute m hobject hstack =>
      refine ⟨h.running, fun t snap ht => ?_, h.needs, h.clear, h.apart⟩
      exact h.holds_of_agree ht (hobject t) (hstack t (h.ne_current ht) (live_of_saved ht))
  | init t region stackTop entry hne hentry hcovers hfree hobject =>
      have hlive : ∀ u, u ≠ t → (u = x.current ∨ (Function.update x.saved t
          (some (.fresh stackTop entry)) u).isSome) → x.Live u := by
        rintro u hu (rfl | hsome)
        · exact live_current x
        · rw [Function.update_of_ne hu] at hsome
          exact Or.inr hsome
      constructor
      · simpa [Function.update_of_ne hne.symm] using h.running
      · intro u snap hu
        by_cases hut : u = t
        · subst u
          simp only [Function.update_self, Option.some.injEq] at hu
          subst hu
          exact spec.init_holds hentry hcovers (hobject t)
        · simp only [Function.update_of_ne hut] at hu
          refine h.holds_of_agree hu ?_ ?_
          · exact fun a ha => spec.init_frame hcovers (hdistinct u t hut a ha) (hobject u a ha)
          · intro a ha
            refine spec.init_frame hcovers (fun hmem => ?_) fun hmem => ?_
            · exact h.clear u (live_of_saved hu) t a hmem ha
            · exact hfree u hut (live_of_saved hu) a hmem ha
      · intro u snap hu a ha
        by_cases hut : u = t
        · subst u
          simp only [Function.update_self, Option.some.injEq] at hu
          subst hu
          rw [spec.needs_fresh] at ha
          exact absurd ha (Set.notMem_empty a)
        · simp only [Function.update_of_ne hut] at hu ⊢
          exact h.needs u snap hu a ha
      · intro u hu v a ha
        by_cases hut : u = t
        · subst u
          simpa using hobject v a ha
        · simpa [Function.update_of_ne hut] using h.clear u (hlive u hut hu) v a ha
      · intro u v hu hv huv a ha
        by_cases hut : u = t
        · subst u
          have hvt : v ≠ t := Ne.symm huv
          simp only [Function.update_self] at ha
          simpa [Function.update_of_ne hvt] using hfree v hvt (hlive v hvt hv) a ha
        · simp only [Function.update_of_ne hut] at ha
          by_cases hvt : v = t
          · subst v
            simp only [Function.update_self]
            exact fun hmem => hfree u hut (hlive u hut hu) a hmem ha
          · simpa [Function.update_of_ne hvt] using
              h.apart u v (hlive u hut hu) (hlive v hvt hv) huv a ha

theorem Intact.step {guard : Coroutines A T → Prop} (h : Intact spec ctx x)
    (hs : Step ctx guard x x') : Intact spec ctx x' := by
  cases hs with
  | work x' hwork => exact h.work hdistinct hwork
  | switch snap x' _ hswitch => exact (h.switch hdistinct hswitch).2

theorem intact_of_reachable {guard : Coroutines A T → Prop} (spec : A.Spec)
    (h : Reachable ctx guard x) : Intact spec ctx x := by
  obtain ⟨x₀, ⟨hnone, _, hclear⟩, hsteps⟩ := h
  have hlive : ∀ t, x₀.Live t → t = x₀.current := by
    rintro t (rfl | hsome)
    · rfl
    · rw [hnone] at hsome
      cases hsome
  have hstart : Intact spec ctx x₀ := by
    refine ⟨hnone _, fun t snap ht => ?_, fun t snap ht => ?_, fun t ht => ?_, fun t u ht hu => ?_⟩
    · rw [hnone] at ht
      cases ht
    · rw [hnone] at ht
      cases ht
    · rw [hlive t ht]
      exact fun u a ha => hclear u a ha
    · exact fun hne => absurd ((hlive t ht).trans (hlive u hu).symm) hne
  induction hsteps with
  | refl => exact hstart
  | tail _ hstep ih => exact ih.step hdistinct hstep

end Coroutines

end UserThreads
