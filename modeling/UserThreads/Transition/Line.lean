import Mathlib.Data.List.Basic

/-!
# First come, first served

A line is seen through its whole history: who has joined it, who has been
served, and who stands in it now. It is in order when the threefold account
adds up; then each member is served exactly when those ahead of it have been.
-/

namespace Transition

variable {α : Type*}

/-- A queue with its history, the earliest entry first. -/
structure Line (α : Type*) where
  joined : List α
  served : List α
  queue : List α

namespace Line

variable {l l' : Line α} {a : α}

/-- Those who joined have been served in the order in which they came, and the
others stand in the queue in that order. -/
def InOrder (l : Line α) : Prop := l.joined = l.served ++ l.queue

/-- One more at the end. -/
def join (l : Line α) (a : α) : Line α :=
  { l with joined := l.joined ++ [a], queue := l.queue ++ [a] }

theorem InOrder.join (h : l.InOrder) (a : α) : (l.join a).InOrder := by
  unfold InOrder Line.join
  rw [← List.append_assoc, ← h]

/-- The first in the queue is served. -/
theorem InOrder.serve {rest : List α} (h : l.InOrder) (hq : l.queue = a :: rest) :
    InOrder { l with served := l.served ++ [a], queue := rest } := by
  unfold InOrder at h ⊢
  rw [h, hq, List.append_assoc, List.singleton_append]

section Later

variable {joined served : List α} (h : l.InOrder) (h' : l'.InOrder)
  (hjoined : l'.joined = l.joined ++ joined) (hserved : l'.served = l.served ++ served)
include h h' hjoined hserved

/-- Of those in the queue and those who joined since, the ones served are the
first. -/
theorem InOrder.later : l.queue ++ joined = served ++ l'.queue := by
  have hboth : l.served ++ (l.queue ++ joined) = l.served ++ (served ++ l'.queue) := by
    calc l.served ++ (l.queue ++ joined) = l.joined ++ joined := by
          rw [← List.append_assoc, ← h]
      _ = l'.joined := hjoined.symm
      _ = l'.served ++ l'.queue := h'
      _ = l.served ++ (served ++ l'.queue) := by rw [hserved, List.append_assoc]
  exact List.append_cancel_left hboth

/-- With `k` ahead of it, a member is served after exactly `k` others, and has
moved up by one for each of them before. -/
theorem InOrder.place {k : Nat} (hk : l.queue[k]? = some a) :
    (k < served.length → served[k]? = some a) ∧
      (served.length ≤ k → l'.queue[k - served.length]? = some a) := by
  have hlater := h.later h' hjoined hserved
  have hfound : (served ++ l'.queue)[k]? = some a := by
    rw [← hlater, List.getElem?_append_left (List.getElem?_eq_some_iff.mp hk).1]
    exact hk
  constructor
  · intro hlt
    rwa [List.getElem?_append_left hlt] at hfound
  · intro hle
    rwa [List.getElem?_append_right hle] at hfound

end Later

end Line

end Transition
