import UserThreads.Model.ForkJoin

/-!
# The fork-join test programs

`51-fibonacci.c`, the chains of `22-create-many-recursive.c`,
`32-switch-many-join.c` and `33-switch-many-cascade.c`, and the divided arrays of
`sum.c` and `reduction.c`. Timing and printing are left out. The numbers of threads
and elements are `int`s, and not negative.
-/

namespace UserThreads

open Transition

/-- An `unsigned long` wraps. -/
def wordSize : Nat := UInt64.size

/-- `fibo` of `51-fibonacci.c`. -/
def fibo (value : Nat) : Code Nat Value Unit :=
  .yield <|
    if value < 3 then .ret (1, ())
    else
      .fork (value - 1) <| .fork (value - 2) <|
        .join 0 true fun res => .join 0 true fun res2 =>
          .ret ((res.1.getD 0 + res2.1.getD 0) % wordSize, ())

/-- The loop of `fibo_checker`, over the turns that are left. -/
def fiboLoop : Nat → Nat → Nat → Nat
  | 0, _, b => b
  | turns + 1, a, b => fiboLoop turns b ((a + b) % wordSize)

/-- `fibo_checker`. The result `c` is `b` after the last turn. -/
def fiboChecker (n : Nat) : Nat :=
  if n ≤ 2 then 1 else fiboLoop (n - 2) 1 1

/-- A thread creates the next one of a chain, yields, and joins it; the last one
only yields. Each returns its number. -/
def chain (busy : Nat → Nat) (last : Nat) (nb : Nat) : Code Nat Value Unit :=
  if nb > 0 then
    .fork (nb - 1) <| Code.yields
      (.join 0 true fun res => if res.1 = some (nb - 1) then .ret (nb, ()) else .fail) (busy nb)
  else Code.yields (.ret (nb, ())) last

/-- `thfunc` of `22-create-many-recursive.c`. -/
def createManyRecursive : Nat → Code Nat Value Unit := chain (fun _ => 0) 0

/-- `thfunc` of `32-switch-many-join.c`. -/
def switchManyJoin (nbyield : Int) : Nat → Code Nat Value Unit :=
  chain (fun _ => 0) nbyield.toNat

/-- The product of two `int`s wraps. -/
def intMul (a b : Int) : Int := (a * b).bmod UInt32.size

/-- `thfunc` of `33-switch-many-cascade.c`. -/
def switchManyCascade (nbthread : Nat) (nbyield : Int) : Nat → Code Nat Value Unit :=
  chain (fun nbth => (intMul nbyield nbth).toNat) (intMul nbyield nbthread).toNat

/-- The subarrays that are not divided any more. -/
def blockSize : Nat := 100000

/-- The tasks of `sum.c` and `reduction.c`: `main`, which handles one operation
after the other, and a thread for a segment of the array. -/
inductive ArrayTask (κ : Type) where
  | main
  | segment (op : κ) (start stop : Nat)

/-- A thread function that handles a short segment by `direct`, and divides a
long one between two threads. -/
def divide {κ : Type} (direct : κ → Nat → Nat → Int) (combine : κ → Int → Int → Int) (op : κ)
    (start stop : Nat) : Code (ArrayTask κ) Value (List Int) :=
  if stop - start ≤ blockSize then .ret (0, [direct op start stop])
  else
    let mid := start + (stop - start) / 2
    .fork (.segment op start mid) <| .fork (.segment op mid stop) <|
      .join 0 false fun left => .join 0 false fun right =>
        .ret (0, [combine op (left.2.headD 0) (right.2.headD 0)])

/-- `main` hands the whole array to a thread for each operation, and prints the
results. -/
def handOut {κ : Type} (size : Nat) : List κ → List Int → Code (ArrayTask κ) Value (List Int)
  | [], printed => .ret (0, printed)
  | op :: ops, printed =>
      .fork (.segment op 0 size) <| .join 0 false fun res => handOut size ops (printed ++ res.2)

/-- The program: `main`, and the thread function. -/
def arrayProgram {κ : Type} (direct : κ → Nat → Nat → Int) (combine : κ → Int → Int → Int)
    (size : Nat) (ops : List κ) : ArrayTask κ → Code (ArrayTask κ) Value (List Int)
  | .main => handOut size ops []
  | .segment op start stop => divide direct combine op start stop

/-- The loop of `sum_thread`. -/
def sumLoop (array : Nat → Int) (start stop : Nat) : Int :=
  (List.range' start (stop - start)).foldl (fun sum i => sum + array i) 0

/-- `sum.c`. -/
def sumProgram (array : Nat → Int) (size : Nat) :
    ArrayTask Unit → Code (ArrayTask Unit) Value (List Int) :=
  arrayProgram (fun _ => sumLoop array) (fun _ left right => left + right) size [()]

inductive ReduceOp where
  | sum
  | min
  | max
  deriving DecidableEq

/-- `apply_op`. -/
def applyOp (a b : Int) : ReduceOp → Int
  | .sum => a + b
  | .min => if a < b then a else b
  | .max => if a > b then a else b

/-- The loop of `reduce_thread`, which starts with the first element. -/
def reduceLoop (array : Nat → Int) (op : ReduceOp) (start stop : Nat) : Int :=
  (List.range' (start + 1) (stop - (start + 1))).foldl (fun res i => applyOp res (array i) op)
    (array start)

/-- `reduction.c`. -/
def reduceProgram (array : Nat → Int) (size : Nat) :
    ArrayTask ReduceOp → Code (ArrayTask ReduceOp) Value (List Int) :=
  arrayProgram (reduceLoop array) (fun op left right => applyOp left right op) size
    [.sum, .min, .max]

end UserThreads
