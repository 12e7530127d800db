import UserThreads.Model.Step

/-!
# Faults in the guard page

What the kernel does around the fault handler of `preemption.c`. A delivered
`SIGSEGV` is blocked until its handler returns. This handler does not return: it
leaves through `thread_exit`, and no context switch touches the signal mask.
-/

namespace UserThreads

/-- The library, and what the kernel knows about the process. -/
structure Process where
  lib : State
  /-- `SIGSEGV` is in the signal mask. -/
  segvBlocked : Bool
  killed : Bool

/-- The process when `main` starts. -/
def Process.initial : Process where
  lib := State.initial
  segvBlocked := false
  killed := false

/-- The running thread touches its guard page. -/
def Input.isFault : Input → Bool
  | .call .guardPageFault _ => true
  | _ => false

/-- One stretch of execution. A fault while `SIGSEGV` is blocked kills the
process; otherwise the handler runs, with `SIGSEGV` blocked from then on. -/
def Process.step (b : Build) (x : Process) (i : Input) : Option Process :=
  if x.killed then none
  else if i.isFault ∧ x.segvBlocked then
    (UserThreads.step b x.lib i).map fun _ => { x with killed := true }
  else
    (UserThreads.step b x.lib i).map fun s =>
      { x with lib := s, segvBlocked := x.segvBlocked || i.isFault }

end UserThreads
