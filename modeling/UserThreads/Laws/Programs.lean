import Mathlib.Algebra.BigOperators.Group.Finset.Basic
import Mathlib.Data.Nat.Fib.Basic
import Mathlib.Order.Bounds.Basic
import UserThreads.Laws.ForkJoin
import UserThreads.Model.Programs

/-!
# What the fork-join test programs compute

The serial elisions of the test programs, and with them the results of the
programs: the Fibonacci numbers, the numbers of a chain, and the sequential
reductions of an array.
-/

namespace UserThreads

open Transition

/-! The Fibonacci test. -/

theorem fiboLoop_eq (turns i : Nat) :
    fiboLoop turns (Nat.fib i % wordSize) (Nat.fib (i + 1) % wordSize) =
      Nat.fib (i + turns + 1) % wordSize := by
  induction turns generalizing i with
  | zero => rfl
  | succ turns ih =>
      have hnext : (Nat.fib i % wordSize + Nat.fib (i + 1) % wordSize) % wordSize =
          Nat.fib (i + 1 + 1) % wordSize := by
        rw [← Nat.add_mod, ← Nat.fib_add_two]
      rw [fiboLoop, hnext, ih (i + 1)]
      congr 2
      omega

/-- `fibo_checker` computes the Fibonacci numbers, up to the word size. -/
theorem fiboChecker_eq {n : Nat} (hn : 0 < n) : fiboChecker n = Nat.fib n % wordSize := by
  unfold fiboChecker
  split
  next hle =>
    obtain rfl | rfl : n = 1 ∨ n = 2 := by omega
    · rfl
    · rfl
  next hlt =>
    have hloop := fiboLoop_eq (n - 2) 1
    rw [show 1 + (n - 2) + 1 = n by omega] at hloop
    exact hloop

/-- The serial elision of the test computes what `fibo_checker` computes, in a
time proportional to the Fibonacci number. -/
theorem fibo_evaluates (n : Nat) :
    Evaluates fibo [] (fibo n) (fiboChecker n, ()) (14 * max 1 (Nat.fib n) - 11) := by
  induction n using Nat.strongRecOn with
  | _ n ih =>
      by_cases hn : n < 3
      · have hone : max 1 (Nat.fib n) = 1 := by
          obtain rfl | rfl | rfl : n = 0 ∨ n = 1 ∨ n = 2 := by omega
          all_goals rfl
        have hvalue : fiboChecker n = 1 := if_pos (by omega)
        rw [hone, hvalue, fibo, if_pos hn]
        exact .yield (.ret _)
      · have hfirst : 0 < Nat.fib (n - 1) := Nat.fib_pos.mpr (by omega)
        have hsecond : 0 < Nat.fib (n - 2) := Nat.fib_pos.mpr (by omega)
        have hfib : Nat.fib n = Nat.fib (n - 2) + Nat.fib (n - 1) := by
          obtain ⟨m, rfl⟩ := Nat.exists_eq_add_of_le (show 2 ≤ n by omega)
          rw [show 2 + m = m + 2 by omega, Nat.fib_add_two]
          rfl
        have hsum : (fiboChecker (n - 1) + fiboChecker (n - 2)) % wordSize = fiboChecker n := by
          rw [fiboChecker_eq (by omega), fiboChecker_eq (by omega), fiboChecker_eq (by omega),
            ← Nat.add_mod, hfib, Nat.add_comm]
        have htime : 14 * max 1 (Nat.fib n) - 11 =
            (14 * max 1 (Nat.fib (n - 1)) - 11) +
              (14 * max 1 (Nat.fib (n - 2)) - 11 + (1 + 2 + 2) + 2) + 2 + 2 := by
          omega
        rw [htime, fibo, if_neg hn, ← hsum]
        exact .yield (.fork (ih _ (by omega)) (.fork (ih _ (by omega))
          (.join rfl (.join rfl (.ret _)))))

/-! The chains. -/

/-- The yields of a chain of `nb` threads after the first. -/
def chainYields (busy : Nat → Nat) (last nb : Nat) : Nat :=
  last + ((List.range nb).map fun i => busy (i + 1)).sum

theorem chainYields_succ (busy : Nat → Nat) (last nb : Nat) :
    chainYields busy last (nb + 1) = chainYields busy last nb + busy (nb + 1) := by
  simp [chainYields, List.range_succ, Nat.add_assoc]

/-- The serial elision of a chain returns its number, and no assert fails. -/
theorem chain_evaluates (busy : Nat → Nat) (last nb : Nat) :
    Evaluates (chain busy last) [] (chain busy last nb) (nb, ())
      (1 + 5 * nb + 2 * chainYields busy last nb) := by
  induction nb with
  | zero =>
      have hcode : chain busy last 0 = Code.yields (.ret (0, ())) last := if_neg (by omega)
      have htime : 1 + 5 * 0 + 2 * chainYields busy last 0 = 1 + 2 * last := by
        simp [chainYields]
      rw [hcode, htime]
      exact (Evaluates.ret _).yields last
  | succ nb ih =>
      have hcode : chain busy last (nb + 1) = .fork nb (Code.yields (.join 0 true fun res =>
          if res.1 = some nb then .ret (nb + 1, ()) else .fail) (busy (nb + 1))) :=
        if_pos (Nat.succ_pos nb)
      have htime : 1 + 5 * (nb + 1) + 2 * chainYields busy last (nb + 1) =
          1 + 5 * nb + 2 * chainYields busy last nb + (1 + 2 + 2 * busy (nb + 1)) + 2 := by
        rw [chainYields_succ]
        omega
      rw [hcode, htime]
      have hasserted : (known true ((nb : Value), ())).1 = some nb := rfl
      refine .fork ih (Evaluates.yields (.join rfl ?_) _)
      rw [if_pos hasserted]
      exact .ret _

/-! The divided arrays. -/

section Divide

variable {κ : Type} {direct : κ → Nat → Nat → Int} {combine : κ → Int → Int → Int}
  (hsplit : ∀ op start mid stop, start < mid → mid < stop →
    combine op (direct op start mid) (direct op mid stop) = direct op start stop)
include hsplit

/-- The threads of a segment compute what the direct loop computes. A thread that
does not divide has at least half a block, or is the only one. -/
theorem divide_evaluates (size : Nat) (ops : List κ) (op : κ) (start stop : Nat) :
    ∃ n, n + 9 ≤ 10 * max 1 ((stop - start) / (blockSize / 2)) ∧
      Evaluates (arrayProgram direct combine size ops) []
        (divide direct combine op start stop) (0, [direct op start stop]) n := by
  induction hlen : stop - start using Nat.strongRecOn generalizing start stop with
  | _ len ih =>
      by_cases hshort : stop - start ≤ blockSize
      · refine ⟨1, by omega, ?_⟩
        rw [divide, if_pos hshort]
        exact .ret _
      · have hblock : blockSize = 100000 := rfl
        obtain ⟨mid, hmid⟩ : ∃ mid, mid = start + (stop - start) / 2 := ⟨_, rfl⟩
        obtain ⟨n₁, hn₁, h₁⟩ := ih (mid - start) (by omega) start mid rfl
        obtain ⟨n₂, hn₂, h₂⟩ := ih (stop - mid) (by omega) mid stop rfl
        refine ⟨n₁ + (n₂ + (1 + 2 + 2) + 2) + 2, ?_, ?_⟩
        · have hhalf : blockSize / 2 = 50000 := rfl
          rw [hhalf] at hn₁ hn₂ ⊢
          omega
        · rw [divide, if_neg hshort, ← hsplit op start mid stop (by omega) (by omega), hmid]
          subst hmid
          exact .fork h₁ (.fork h₂ (.join rfl (.join rfl (.ret _))))

theorem handOut_evaluates (size : Nat) (all ops : List κ) (printed : List Int) :
    ∃ n ≤ 1 + ops.length * (10 * max 1 (size / (blockSize / 2)) - 5),
      Evaluates (arrayProgram direct combine size all) [] (handOut size ops printed)
        (0, printed ++ ops.map (direct · 0 size)) n := by
  induction ops generalizing printed with
  | nil =>
      refine ⟨1, by simp, ?_⟩
      simpa [handOut] using Evaluates.ret _
  | cons op ops ih =>
      obtain ⟨n, hn, h⟩ := ih (printed ++ [direct op 0 size])
      obtain ⟨m, hm, hcall⟩ := divide_evaluates hsplit size all op 0 size
      refine ⟨m + (n + 2) + 2, ?_, ?_⟩
      · rw [Nat.sub_zero] at hm
        rw [List.length_cons, Nat.succ_mul]
        omega
      · rw [List.append_assoc] at h
        exact .fork hcall (.join rfl h)

end Divide

/-! The loops over a segment. -/

section Loops

variable (array : Nat → Int)

theorem sumLoop_succ {start stop : Nat} (h : start ≤ stop) :
    sumLoop array start (stop + 1) = sumLoop array start stop + array stop := by
  have hlen : stop + 1 - start = stop - start + 1 := by omega
  have hlast : start + (stop - start) = stop := by omega
  rw [sumLoop, hlen, List.range'_1_concat, List.foldl_append, hlast]
  rfl

theorem sumLoop_eq (size : Nat) : sumLoop array 0 size = ∑ i ∈ Finset.range size, array i := by
  induction size with
  | zero => rfl
  | succ size ih => rw [sumLoop_succ array (Nat.zero_le size), ih, Finset.sum_range_succ]

theorem sumLoop_split {start mid stop : Nat} (hmid : start ≤ mid) (hstop : mid ≤ stop) :
    sumLoop array start mid + sumLoop array mid stop = sumLoop array start stop := by
  induction stop, hstop using Nat.le_induction with
  | base => simp [sumLoop]
  | succ stop hstop ih =>
      rw [sumLoop_succ array hstop, sumLoop_succ array (hmid.trans hstop), ← ih, Int.add_assoc]

theorem applyOp_min (a b : Int) : applyOp a b .min = min b a := by
  grind [applyOp]

theorem applyOp_max (a b : Int) : applyOp a b .max = max b a := by
  grind [applyOp]

theorem applyOp_assoc (a b c : Int) (op : ReduceOp) :
    applyOp (applyOp a b op) c op = applyOp a (applyOp b c op) op := by
  cases op with
  | sum => exact Int.add_assoc a b c
  | min => grind [applyOp_min]
  | max => grind [applyOp_max]

variable (op : ReduceOp)

theorem reduceLoop_single (start : Nat) : reduceLoop array op start (start + 1) = array start := by
  simp [reduceLoop]

theorem reduceLoop_succ {start stop : Nat} (h : start < stop) :
    reduceLoop array op start (stop + 1) =
      applyOp (reduceLoop array op start stop) (array stop) op := by
  have hlen : stop + 1 - (start + 1) = stop - (start + 1) + 1 := by omega
  have hlast : start + 1 + (stop - (start + 1)) = stop := by omega
  rw [reduceLoop, hlen, List.range'_1_concat, List.foldl_append, hlast]
  rfl

theorem reduceLoop_split {start mid stop : Nat} (hmid : start < mid) (hstop : mid < stop) :
    applyOp (reduceLoop array op start mid) (reduceLoop array op mid stop) op =
      reduceLoop array op start stop := by
  induction stop, hstop using Nat.le_induction with
  | base => rw [reduceLoop_single, reduceLoop_succ array op hmid]
  | succ stop hstop ih =>
      rw [reduceLoop_succ array op hstop, reduceLoop_succ array op (hmid.trans hstop), ← ih,
        applyOp_assoc]

/-- What the reductions of a nonempty array are. -/
structure Reduces (size : Nat) (total least greatest : Int) : Prop where
  total : total = ∑ i ∈ Finset.range size, array i
  least : IsLeast (Set.image array (Set.Iio size)) least
  greatest : IsGreatest (Set.image array (Set.Iio size)) greatest

theorem reduceLoop_reduces {size : Nat} (hsize : 0 < size) :
    Reduces array size (reduceLoop array .sum 0 size) (reduceLoop array .min 0 size)
      (reduceLoop array .max 0 size) := by
  induction size, hsize using Nat.le_induction with
  | base =>
      simp only [reduceLoop_single]
      refine ⟨by simp, ?_, ?_⟩
      · simp [IsLeast, lowerBounds]
      · simp [IsGreatest, upperBounds]
  | succ size hsize ih =>
      have himage : Set.image array (Set.Iio (size + 1)) =
          insert (array size) (Set.image array (Set.Iio size)) := by
        rw [← Set.image_insert_eq]
        congr 1
        ext i
        simp only [Set.mem_Iio, Set.mem_insert_iff]
        omega
      simp only [reduceLoop_succ array _ hsize]
      refine ⟨?_, ?_, ?_⟩
      · rw [Finset.sum_range_succ, ← ih.total]
        rfl
      · rw [himage, applyOp_min]
        exact ih.least.insert _
      · rw [himage, applyOp_max]
        exact ih.greatest.insert _

end Loops

/-! The programs. -/

section Runs

variable {b : Build} {es : List Env}

/-- In every run of `51-fibonacci.c` in which memory is granted, `fibo` returns what
`main` compares it with, and the length of the run is proportional to the result. -/
theorem fibo_computes {n : Nat} {x : Crew Nat Unit}
    (hrun : run (Crew.step fibo b) (fun _ e => e.Grants) (Crew.initial fibo n) es = some x) :
    Crew.Computes fibo b (fiboChecker n, ()) (14 * max 1 (Nat.fib n) - 11) es x := by
  obtain ⟨n', hle, hheld⟩ := (Crew.Held.initial (fibo_evaluates n) b).run hrun
  exact hheld.computes hle

/-- A run of the test on 3, from the start to the end. -/
theorem fibo_computes_three : ∃ x : Crew Nat Unit, x.lib.ended = true ∧
    x.outcome = some (2, ()) ∧ x.lib.handles = [mainThread] := by
  obtain ⟨x, hx, hended⟩ := exists_run (Crew.step fibo .fifo) (fun _ e => e.Grants)
    (Crew.initial fibo 3) (Env.supply 15) (fun x => x.lib.ended = true) (by decide +kernel)
  exact ⟨x, hended, (fibo_computes hx).result hended⟩

/-- The asserts of the chains hold in every run in which memory is granted, and the
length of the run is proportional to the number of threads and yields. -/
theorem chain_computes {busy : Nat → Nat} {last nb : Nat} {x : Crew Nat Unit}
    (hrun : run (Crew.step (chain busy last) b) (fun _ e => e.Grants)
      (Crew.initial (chain busy last) nb) es = some x) :
    Crew.Computes (chain busy last) b (nb, ())
      (1 + 5 * nb + 2 * chainYields busy last nb) es x := by
  obtain ⟨n', hle, hheld⟩ := (Crew.Held.initial (chain_evaluates busy last nb) b).run hrun
  exact hheld.computes hle

/-- A cascade of three threads, with one yield for each number. -/
theorem chain_computes_cascade : ∃ x : Crew Nat Unit, x.lib.ended = true ∧
    x.outcome = some (2, ()) ∧ x.lib.handles = [mainThread] := by
  obtain ⟨x, hx, hended⟩ := exists_run (Crew.step (switchManyCascade 2 1) .fifo)
    (fun _ e => e.Grants) (Crew.initial (switchManyCascade 2 1) 2) (Env.supply 20)
    (fun x => x.lib.ended = true) (by decide +kernel)
  exact ⟨x, hended, (chain_computes hx).result hended⟩

variable {size : Nat}

/-- A program over an array that can be divided prints what its loops compute. -/
theorem arrayProgram_computes {κ : Type} {direct : κ → Nat → Nat → Int}
    {combine : κ → Int → Int → Int} {ops : List κ} {n : Nat} {x : Crew (ArrayTask κ) (List Int)}
    (hsplit : ∀ op start mid stop, start < mid → mid < stop →
      combine op (direct op start mid) (direct op mid stop) = direct op start stop)
    (hbound : 1 + ops.length * (10 * max 1 (size / (blockSize / 2)) - 5) ≤ n)
    (hrun : run (Crew.step (arrayProgram direct combine size ops) b) (fun _ e => e.Grants)
      (Crew.initial (arrayProgram direct combine size ops) .main) es = some x) :
    Crew.Computes (arrayProgram direct combine size ops) b
      (0, ops.map (direct · 0 size)) n es x := by
  obtain ⟨m, hm, heval⟩ := handOut_evaluates hsplit size ops ops []
  have hmain : Evaluates (arrayProgram direct combine size ops) []
      (arrayProgram direct combine size ops .main) (0, ops.map (direct · 0 size)) m := heval
  obtain ⟨n', hle, hheld⟩ := (Crew.Held.initial hmain b).run hrun
  exact hheld.computes (by omega)

variable {array : Nat → Int}

/-- Every run of `sum.c` in which memory is granted prints the sum of the array. -/
theorem sum_computes {x : Crew (ArrayTask Unit) (List Int)}
    (hrun : run (Crew.step (sumProgram array size) b) (fun _ e => e.Grants)
      (Crew.initial (sumProgram array size) .main) es = some x) :
    Crew.Computes (sumProgram array size) b (0, [∑ i ∈ Finset.range size, array i])
      (10 * max 1 (size / (blockSize / 2)) - 4) es x := by
  rw [← sumLoop_eq]
  refine arrayProgram_computes (fun _ start mid stop hmid hstop => ?_) ?_ hrun
  · exact sumLoop_split array hmid.le hstop.le
  · simp only [List.length_cons, List.length_nil]
    omega

/-- A run over two elements. -/
theorem sum_computes_two : ∃ x : Crew (ArrayTask Unit) (List Int), x.lib.ended = true ∧
    x.outcome = some (0, [3]) ∧ x.lib.handles = [mainThread] := by
  obtain ⟨x, hx, hended⟩ := exists_run (Crew.step (sumProgram (fun i => i + 1) 2) .fifo)
    (fun _ e => e.Grants) (Crew.initial (sumProgram (fun i => i + 1) 2) .main) (Env.supply 6)
    (fun x => x.lib.ended = true) (by decide +kernel)
  exact ⟨x, hended, (sum_computes hx).result hended⟩

/-- Every run of `reduction.c` in which memory is granted prints the sum, the least
and the greatest element of the array. -/
theorem reduction_computes (hsize : 0 < size) {x : Crew (ArrayTask ReduceOp) (List Int)}
    (hrun : run (Crew.step (reduceProgram array size) b) (fun _ e => e.Grants)
      (Crew.initial (reduceProgram array size) .main) es = some x) :
    ∃ total least greatest, Reduces array size total least greatest ∧
      Crew.Computes (reduceProgram array size) b (0, [total, least, greatest])
        (30 * max 1 (size / (blockSize / 2)) - 14) es x := by
  refine ⟨_, _, _, reduceLoop_reduces array hsize, ?_⟩
  refine arrayProgram_computes (fun op start mid stop hmid hstop => ?_) ?_ hrun
  · exact reduceLoop_split array op hmid hstop
  · simp only [List.length_cons, List.length_nil]
    omega

/-- A run over three elements. -/
theorem reduction_computes_three : ∃ x : Crew (ArrayTask ReduceOp) (List Int),
    x.lib.ended = true ∧ ∃ total least greatest,
      Reduces (fun i => 5 - i) 3 total least greatest ∧
        x.outcome = some (0, [total, least, greatest]) := by
  obtain ⟨x, hx, hended⟩ := exists_run (Crew.step (reduceProgram (fun i => 5 - i) 3) .fifo)
    (fun _ e => e.Grants) (Crew.initial (reduceProgram (fun i => 5 - i) 3) .main) (Env.supply 16)
    (fun x => x.lib.ended = true) (by decide +kernel)
  obtain ⟨total, least, greatest, hreduces, hcomputes⟩ := reduction_computes (by decide) hx
  exact ⟨x, hended, total, least, greatest, hreduces, (hcomputes.result hended).1⟩

end Runs

end UserThreads
