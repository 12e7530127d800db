import UserThreads.Model.Step
import UserThreads.Transition.ForkJoin

/-!
# User programs that fork and join

The test programs whose threads create threads, join each of them once, and
return a result: in the exit value, in the argument struct that the creator
passed, or in both. Every thread runs the same function, the main thread too,
which then leaves `main`.

## Implementation notes

A thread's code advances when the call it has made returns, which is the latest
entry of the history; the handle that `thread_create` stores and the value that
`thread_join` stores are in the entry before it. `kids` are the `thread_t`
variables of each thread, in the order of creation and without those already
joined. `cell` is the result field of the argument struct of each thread, which
lives in the frame of its creator. `failed` is a failed `assert`. A program that
does not look at the code of `thread_create` or `thread_join` goes on with an
unset handle or result when it is not 0, and that counts as failed too.
-/

namespace UserThreads

open Transition

/-- A result: the exit value, and what is left in the argument struct. -/
abbrev Result (ω : Type) := Value × ω

structure Crew (α ω : Type) where
  lib : State
  code : Tid → Code α Value ω
  kids : Tid → List Tid
  cell : Tid → ω
  outcome : Option (Result ω)
  failed : Bool

namespace Crew

variable {α ω : Type} [Inhabited ω]

/-- `main` runs the thread function on `a`. -/
def initial (func : α → Code α Value ω) (a : α) : Crew α ω where
  lib := State.initial
  code := fun _ => func a
  kids := fun _ => []
  cell := fun _ => default
  outcome := none
  failed := false

/-- The call that the code of a thread makes next. A `return` from `main` ends
the process, one from a start function calls `thread_exit`. -/
def request (x : Crew α ω) (t : Tid) : Call :=
  match x.code t with
  | .ret v => if t = mainThread then .exit else .threadExit v.1
  | .yield _ => .threadYield
  | .fork _ _ => .threadCreate true true
  | .join i retval _ => .threadJoin (x.kids t)[i]? retval
  | .fail => .exit

def goOn (x : Crew α ω) (t : Tid) (rest : Code α Value ω) : Crew α ω :=
  { x with code := Function.update x.code t rest }

/-- `thread_create` has stored the handle `n`. -/
def adopt (func : α → Code α Value ω) (x : Crew α ω) (t n : Tid) (a : α)
    (rest : Code α Value ω) : Crew α ω :=
  { x with
    code := Function.update (Function.update x.code t rest) n (func a)
    kids := Function.update (Function.update x.kids t (x.kids t ++ [n])) n []
    cell := Function.update x.cell n default }

/-- `thread_join` on the `i`-th child `u` has stored the value, or its last argument
was `NULL`, and the thread reads the struct of `u`. -/
def receive (x : Crew α ω) (t : Tid) (i : Nat) (u : Tid) (stored : Option Value)
    (rest : Option Value × ω → Code α Value ω) : Crew α ω :=
  { x with
    code := Function.update x.code t (rest (stored, x.cell u))
    kids := Function.update x.kids t ((x.kids t).eraseIdx i) }

/-- What the code of `t` does with the library in the state `lib`, after the call
has returned or switched. The results of `thread_create` and `thread_join` are
asserted to be 0. -/
def answer (func : α → Code α Value ω) (x : Crew α ω) (t : Tid) (lib : State) : Crew α ω :=
  let y := { x with lib := lib }
  match x.code t with
  | .ret v =>
      if t = mainThread then { y with outcome := some v }
      else { y with cell := Function.update x.cell t v.2 }
  | .yield rest =>
      match lib.trace with
      | .returned _ _ _ :: _ => y.goOn t rest
      | _ => y
  | .fork a rest =>
      match lib.trace with
      | .returned _ _ code :: .created _ n :: _ =>
          if code = 0 then y.adopt func t n a rest else { y with failed := true }
      | .returned _ _ _ :: _ => { y with failed := true }
      | _ => y
  | .join i _ rest =>
      match lib.trace, (x.kids t)[i]? with
      | .returned _ _ code :: .joined _ _ stored :: _, some u =>
          if code = 0 then y.receive t i u stored rest else { y with failed := true }
      | .returned _ _ _ :: _, _ => { y with failed := true }
      | _, _ => y
  | .fail => { y with failed := true }

/-- The running thread makes its next call, or goes on in the one it is in. -/
def step (func : α → Code α Value ω) (b : Build) (x : Crew α ω) (e : Env) :
    Option (Crew α ω) :=
  if x.failed then none
  else
    let t := x.lib.currentThread
    match (x.lib.threads t).point with
    | .user => (UserThreads.step b x.lib (.call (x.request t) e)).map (x.answer func t)
    | .entry => (UserThreads.step b x.lib (.resume e)).map fun lib => { x with lib := lib }
    | _ => (UserThreads.step b x.lib (.resume e)).map (x.answer func t)

end Crew

/-- The environment grants every request for memory. -/
def Env.Grants (e : Env) : Prop :=
  e.mainSlot = { chunk := true, chunks := true } ∧ e.thread ≠ none ∧ e.stack.map ≠ none ∧
    e.stack.mprotect = true ∧ e.slot = { chunk := true, chunks := true }

instance (e : Env) : Decidable e.Grants :=
  inferInstanceAs (Decidable (_ ∧ _ ∧ _ ∧ _ ∧ _))

end UserThreads
