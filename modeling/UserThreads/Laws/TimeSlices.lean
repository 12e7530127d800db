import UserThreads.Laws.Preemption
import UserThreads.Operations.Position

/-!
# Time slices

In the preemptive FIFO build a thread in the ready queue runs after at most one
timer signal for each thread before it and one more, whatever the running threads
do: they may compute for ever.
-/

namespace UserThreads

open Transition

namespace Preemptive

variable {b : Build} {l : Tid} {n : Nat} {x x' : Preemptive} {i : Stimulus}

/-- The steps of a calm run in which all counters stay in range. -/
def Tidy (x : Preemptive) (i : Stimulus) : Prop := x.Calm i ∧ x.InRange i

instance (x : Preemptive) (i : Stimulus) : Decidable (x.Tidy i) :=
  inferInstanceAs (Decidable (_ ∧ _))

/-- The stretch of a tidy run is executed, and `l` does not run in any of its states. -/
def PassedOver (b : Build) (l : Tid) : Preemptive → List Stimulus → Prop
  | x, [] => x.lib.currentThread ≠ l
  | x, i :: rest =>
      x.lib.currentThread ≠ l ∧ x.Tidy i ∧ ∃ x' ∈ x.step b i, PassedOver b l x' rest

instance PassedOver.decide (b : Build) (l : Tid) :
    ∀ (x : Preemptive) (inputs : List Stimulus), Decidable (PassedOver b l x inputs)
  | x, [] => inferInstanceAs (Decidable (x.lib.currentThread ≠ l))
  | x, i :: rest =>
      have : ∀ x', Decidable (PassedOver b l x' rest) := fun x' => PassedOver.decide b l x' rest
      inferInstanceAs (Decidable (x.lib.currentThread ≠ l ∧ x.Tidy i ∧
        ∃ x' ∈ x.step b i, PassedOver b l x' rest))

/-- The signal is blocked until the next piece, which is a yield: its handler has
been entered, or `thread_yield` has. -/
def Yielding (x : Preemptive) : Prop :=
  x.blocked = true ∧ ∃ k rest, x.running = .block :: .piece (.yield k) :: rest ∨
    x.running = .piece (.yield k) :: rest

theorem PassedOver.head {inputs : List Stimulus} (h : PassedOver b l x inputs) :
    x.lib.currentThread ≠ l := by
  cases inputs with
  | nil => exact h
  | cons i rest => exact h.1

/-- No step lets anybody get ahead of `l`. -/
theorem behind_step (hb : b.policy = .fifo) (hmask : MaskInv x) (hs : x.step b i = some x')
    (h : Behind l n x.lib) (hne : x.lib.currentThread ≠ l) (hne' : x'.lib.currentThread ≠ l) :
    Behind l n x'.lib := by
  obtain ⟨-, ha⟩ := advance_of_step hs
  cases ha with
  | piece e p rest hfresh hcode =>
      have hproper := hmask.running
      rw [hcode] at hproper
      exact (Piece.perform_comes hproper.2.1 hb h hne e).resolve_left hne'
  | call c hcode => exact h
  | tick hblocked hinit => exact h
  | block e rest hcode => exact h
  | unblock e rest hcode => exact h
  | sigreturn e k rest hcode => exact h.of_eq rfl
  | ret e c code rest hcode => exact h.of_eq rfl

/-- Before a yield the timer signal cannot come, and the yield brings `l` forward. -/
theorem Yielding.step (hy : x.Yielding) (hb : b.policy = .fifo) (hs : x.step b i = some x')
    (h : Behind l n x.lib) (hne : x.lib.currentThread ≠ l) (hne' : x'.lib.currentThread ≠ l) :
    i ≠ .tick ∧ (x'.Yielding ∧ x'.lib = x.lib ∨ 0 < n ∧ Behind l (n - 1) x'.lib) := by
  obtain ⟨hblocked, k, code, hcode⟩ := hy
  obtain ⟨-, ha⟩ := advance_of_step hs
  cases ha with
  | call c hnone =>
      rw [hnone] at hcode
      simp at hcode
  | tick hmask hinit =>
      rw [hblocked] at hmask
      cases hmask
  | block e rest hnext =>
      rw [hnext] at hcode
      simp only [List.cons.injEq, true_and, reduceCtorEq, false_and, or_false] at hcode
      refine ⟨by simp, Or.inl ⟨⟨rfl, k, code, Or.inr ?_⟩, rfl⟩⟩
      simp [running, goOn, hcode]
  | piece e p rest hfresh hnext =>
      rw [hnext] at hcode
      simp only [List.cons.injEq, reduceCtorEq, false_and, false_or, Stmt.piece.injEq] at hcode
      obtain ⟨rfl, -⟩ := hcode
      refine ⟨by simp, Or.inr ?_⟩
      have hyield : (x.runPiece b (.yield k) e rest).lib = (threadYield .fifo x.lib k).1 := by
        simp [runPiece, Piece.perform, hb, keptRunning]
      rw [hyield] at hne' ⊢
      exact (h.threadYield hne k).resolve_left hne'
  | unblock e rest hnext | sigreturn e k' rest hnext | ret e c code' rest hnext =>
      rw [hnext] at hcode
      simp at hcode

/-- The tick enters the handler. -/
theorem yielding_of_tick (hs : x.step b .tick = some x') : x'.Yielding ∧ x'.lib = x.lib := by
  obtain ⟨-, ha⟩ := advance_of_step hs
  cases ha with
  | tick hmask hinit =>
      refine ⟨⟨rfl, x.lib.running.point.suspended, .sigreturn x.lib.running.point :: x.running,
        Or.inl ?_⟩, rfl⟩
      simp [running, goOn, preemptionHandler]

/-- Each tick but the last one is followed by a yield, which brings `l` forward. -/
theorem PassedOver.ticks_le {inputs : List Stimulus} (hb : b.policy = .fifo)
    (hw : PassedOver b l x inputs) (hreach : Reach (step b) Tidy initial x)
    (h : Behind l n x.lib) :
    (x.Yielding → inputs.count .tick ≤ n) ∧ inputs.count .tick ≤ n + 1 := by
  induction inputs generalizing x n with
  | nil => simp
  | cons i rest ih =>
      obtain ⟨hne, htidy, x', hs, hrest⟩ := hw
      have hreach' : Reach (step b) Tidy initial x' := .tail hreach htidy hs
      have hmask := maskInv_of_reach hreach
      have hnext := behind_step hb hmask hs h hne hrest.head
      obtain ⟨hyielding, hany⟩ := ih hrest hreach' hnext
      refine ⟨fun hy => ?_, ?_⟩
      · obtain ⟨hi, hstep⟩ := hy.step hb hs h hne hrest.head
        rw [List.count_cons_of_ne hi]
        rcases hstep with ⟨hy', -⟩ | ⟨hpos, hbehind⟩
        · exact hyielding hy'
        · have hless := (ih hrest hreach' hbehind).2
          omega
      · by_cases hi : i = .tick
        · subst hi
          have hless := hyielding (yielding_of_tick hs).1
          rw [List.count_cons_self]
          omega
        · rw [List.count_cons_of_ne hi]
          exact hany

/-- In a tidy run a thread with `front` before it in the ready queue is dispatched
before `front.length + 2` timer signals have come. -/
theorem ticks_bounded_of_reach {front rest : List Tid} {inputs : List Stimulus}
    (hb : b.policy = .fifo) (h : Reach (step b) Tidy initial x)
    (hqueue : x.lib.readyQueue = front ++ l :: rest)
    (hw : PassedOver b l x inputs) : inputs.count .tick ≤ front.length + 1 :=
  (hw.ticks_le hb h ⟨front, rest, hqueue, Nat.le_refl _⟩).2

/-- A time slice and the change to a thread that has not run before, and the end
of its slice. -/
def slices : List Stimulus := .tick :: statements 4 ++ [.tick]

/-- The main thread and thread 1 compute for a whole time slice each, and thread 2
is about to run. -/
theorem ticks_bounded_of_reach_slices : ∃ x, Reach (step .fifo) Tidy initial x ∧
    x.lib.readyQueue = [1] ++ 2 :: [] ∧ PassedOver .fifo 2 x slices ∧
    slices.count .tick ≤ 1 + 1 := by
  obtain ⟨x, hreach, hqueue, hw⟩ := exists_reach_of_run (step .fifo) Tidy initial
    (creation 1 ++ creation 2)
    (fun x => x.lib.readyQueue = [1] ++ 2 :: [] ∧ PassedOver .fifo 2 x slices) (by decide +kernel)
  exact ⟨x, hreach, hqueue, hw, ticks_bounded_of_reach rfl hreach hqueue hw⟩

end Preemptive

end UserThreads
