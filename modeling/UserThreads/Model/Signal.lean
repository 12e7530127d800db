import UserThreads.Model.Scheduler

/-!
# Signals between threads

`thread_sig.c`, compiled with `ENABLE_SIGNAL`. Signal `n` is bit `n - 1` of a
32-bit set.
-/

namespace UserThreads

def threadSignalMin : Int := 1
def threadSignalMax : Int := 32

/-- `thread_signal_bit`. -/
def threadSignalBit (sig : Int) : BitVec 32 :=
  1#32 <<< (sig - 1).toNat

/-- `thread_signal_pick_one`: the first signal number of the loop whose bit is
set, or -1. -/
def threadSignalPickOne (sigset : BitVec 32) : Int :=
  match (List.range' 1 32).find? fun n : Nat => sigset &&& threadSignalBit n ≠ 0 with
  | some n => n
  | none => -1

/-- The wake-up in `thread_signal_send`. -/
def signalWake (p : Policy) (s : State) (target : Tid) (sig : Int) : State :=
  let s := s.modifyThread target fun th =>
    { th with waitingForSignal := false, waitedSignals := 0 }
  threadSchedulerEnqueue p (s.setState target .ready (some (.signalSend sig))) target

/-- `thread_signal_send`. -/
def threadSignalSend (p : Policy) (s : State) (target : Option Tid) (sig : Int) :
    State × Option Int :=
  match target with
  | none => (s.setErrno .einval, some (-1))
  | some target =>
      if sig < threadSignalMin ∨ sig > threadSignalMax then (s.setErrno .einval, some (-1))
      else
        let bit := threadSignalBit sig
        let s := (s.modifyThread target fun th =>
          { th with pendingSignals := th.pendingSignals ||| bit }).emit
            (.signalSent (s.threads target).id sig)
        let th := s.threads target
        if th.state = .blocked ∧ th.waitingForSignal = true ∧ th.waitedSignals &&& bit ≠ 0 then
          (signalWake p s target sig, some 0)
        else (s, some 0)

/-- One turn of the loop of `thread_sigwait`: consume the lowest matching
signal, or block until a sender wakes the thread for the next turn. -/
def sigwaitLoop (s : State) (set : BitVec 32) : State × Option Int :=
  let current := s.currentThread
  let available := (s.threads current).pendingSignals &&& set &&&
    ~~~(s.threads current).blockedSignals
  if available ≠ 0 then
    let chosen := threadSignalPickOne available
    if chosen < 0 then (s.setErrno .einval, some (-1))
    else
      ((s.modifyThread current fun th =>
        { th with pendingSignals := th.pendingSignals &&& ~~~threadSignalBit chosen }).emit
          (.signalConsumed s.self set chosen), some 0)
  else
    let s := (s.modifyThread current fun th =>
      { th with waitingForSignal := true, waitedSignals := set }).setState current .blocked none
    match threadSchedulerPickNext s with
    | none =>
        let s := (s.modifyThread current fun th =>
          { th with waitingForSignal := false, waitedSignals := 0 }).setState current .running none
        (s.setErrno .edeadlk, some (-1))
    | some (next, s) => (swapThread s current next (.sigwait set), none)

/-- `thread_sigwait` up to its first context switch. -/
def threadSigwait (s : State) (set : BitVec 32) (sig : Bool) : State × Option Int :=
  if set = 0 ∨ sig = false then (s.setErrno .einval, some (-1)) else sigwaitLoop s set

end UserThreads
