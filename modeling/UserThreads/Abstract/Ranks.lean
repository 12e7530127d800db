import UserThreads.Model.Step
import Mathlib.Data.List.Nodup
import Mathlib.Logic.Relation
import Mathlib.Order.Lattice

/-!
# The ready queue and its order

What scheduling reads of a state is the ready queue and the priorities. Every
operation acts on this view by a few shifts: a thread is enqueued, the head is
picked, a thread is taken out, a priority is written. A yield is kept apart: it
ages all priorities before it chooses.

## Implementation notes

A shift carries the thread `d` that runs when the stretch is over. A thread
leaves the queue within a stretch only to be dispatched, so whoever is still in
the queue afterwards has not left it.
-/

namespace UserThreads

open Relation

/-- The ready queue and the priorities. -/
structure Ranks where
  queue : List Tid
  priority : Tid → Int

def State.ranks (s : State) : Ranks := ⟨s.readyQueue, fun t => (s.threads t).priority⟩

/-- The priorities that `thread_set_priority` admits. -/
def InRange (v : Int) : Prop := threadMinPriority ≤ v ∧ v ≤ threadMaxPriority

instance (v : Int) : Decidable (InRange v) := inferInstanceAs (Decidable (_ ∧ _))

/-- The thread whose priority the input sets. -/
def Input.reranks : Input → Option Tid
  | .call (.threadSetPriority t _) _ => t
  | _ => none

namespace Ranks

/-- The place of a new entry: the tail, or before the first entry of lower
priority. -/
def enqueue (p : Policy) (r : Ranks) (t : Tid) : Ranks :=
  { r with queue := match p with
      | .fifo => r.queue ++ [t]
      | .prio => insertByPriority r.priority t r.queue }

def setPriority (r : Ranks) (t : Tid) (v : Int) : Ranks :=
  { r with priority := Function.update r.priority t v }

/-- Waiting threads gain, the running thread loses. -/
def aged (r : Ranks) (prev : Tid) : Ranks :=
  { r with priority := fun t =>
      if t ∈ r.queue then min (r.priority t + threadWait) threadMaxPriority
      else if t = prev then max (r.priority t - threadAging) threadMinPriority
      else r.priority t }

/-- The priorities at the choice of a yield. -/
def atChoice (p : Policy) (r : Ranks) (prev : Tid) : Ranks :=
  match p with
  | .fifo => r
  | .prio => r.aged prev

/-- The number of threads ahead of `t`. -/
def ahead (r : Ranks) (t : Tid) : Nat := r.queue.idxOf t

/-- The queue is in non-increasing order of priorities that are in range. -/
structure Ordered (r : Ranks) : Prop where
  sorted : r.queue.Pairwise fun t u => r.priority u ≤ r.priority t
  bounded : ∀ t, InRange (r.priority t)

end Ranks

/-- One change of the view, in a stretch that ends with `d` running. -/
inductive Shift (p : Policy) (i : Input) (d : Tid) : Ranks → Ranks → Prop
  | enqueue {r : Ranks} (t : Tid) : Shift p i d r (r.enqueue p t)
  | pick {r : Ranks} (rest : List Tid) (hq : r.queue = d :: rest) :
      Shift p i d r { r with queue := rest }
  | remove {r : Ranks} : Shift p i d r { r with queue := r.queue.erase d }
  | rank {r : Ranks} (t : Tid) (v : Int) (hv : InRange v) (hout : p = .prio → t ∉ r.queue) :
      Shift p i d r (r.setPriority t v)
  | requeue {r : Ranks} (t : Tid) (v : Int) (hv : InRange v) (hi : i.reranks = some t)
      (hnd : r.queue.Nodup) :
      Shift p i d r (({ r with queue := r.queue.erase t }.setPriority t v).enqueue p t)

/-- Any number of shifts. -/
abbrev Shifts (p : Policy) (i : Input) (d : Tid) : Ranks → Ranks → Prop :=
  ReflTransGen (Shift p i d)

/-- A whole `thread_yield` of `prev`, after which `d` runs: nobody is ready, the
head does not beat the caller and is put back, or the two change places. -/
inductive Yielding (p : Policy) (prev : Tid) : Tid → Ranks → Ranks → Prop
  | idle {r : Ranks} (hq : r.queue = []) : Yielding p prev prev r (r.atChoice p prev)
  | keep {r : Ranks} (next : Tid) (rest : List Tid) (hp : p = .prio) (hq : r.queue = next :: rest)
      (hle : (r.atChoice p prev).priority next ≤ (r.atChoice p prev).priority prev) :
      Yielding p prev prev r ({ r.atChoice p prev with queue := rest }.enqueue p next)
  | switch {r : Ranks} (next : Tid) (rest : List Tid) (hq : r.queue = next :: rest)
      (hlt : p = .prio →
        (r.atChoice p prev).priority prev < (r.atChoice p prev).priority next) :
      Yielding p prev next r ({ r.atChoice p prev with queue := rest }.enqueue p prev)

section Insertion

variable {priority : Tid → Int} {t u : Tid} {l : List Tid}

theorem insertByPriority_perm (priority : Tid → Int) (t : Tid) (l : List Tid) :
    (insertByPriority priority t l).Perm (t :: l) := by
  induction l with
  | nil => exact List.Perm.refl _
  | cons cursor rest ih =>
      unfold insertByPriority
      split
      · exact List.Perm.refl _
      · exact (ih.cons cursor).trans (List.Perm.swap t cursor rest)

theorem mem_insertByPriority : u ∈ insertByPriority priority t l ↔ u = t ∨ u ∈ l :=
  (insertByPriority_perm priority t l).mem_iff.trans List.mem_cons

theorem insertByPriority_sorted (h : l.Pairwise fun t u => priority u ≤ priority t) :
    (insertByPriority priority t l).Pairwise fun t u => priority u ≤ priority t := by
  induction l with
  | nil => simp [insertByPriority]
  | cons cursor rest ih =>
      obtain ⟨hcursor, hrest⟩ := List.pairwise_cons.mp h
      unfold insertByPriority
      split
      next hlt =>
        refine List.pairwise_cons.mpr ⟨fun v hv => ?_, h⟩
        rcases List.mem_cons.mp hv with rfl | hv
        · exact hlt.le
        · exact (hcursor v hv).trans hlt.le
      next hle =>
        refine List.pairwise_cons.mpr ⟨fun v hv => ?_, ih hrest⟩
        rcases mem_insertByPriority.mp hv with rfl | hv
        · exact not_lt.mp hle
        · exact hcursor v hv

/-- Nothing is inserted ahead of a thread of at least the same priority. -/
theorem idxOf_insertByPriority (h : l.Pairwise fun t u => priority u ≤ priority t)
    (hu : u ∈ l) (hle : priority t ≤ priority u) :
    (insertByPriority priority t l).idxOf u = l.idxOf u := by
  induction l with
  | nil => cases hu
  | cons cursor rest ih =>
      obtain ⟨hcursor, hrest⟩ := List.pairwise_cons.mp h
      have hstop : ¬ priority t > priority cursor := by
        rcases List.mem_cons.mp hu with rfl | hu
        · exact not_lt.mpr hle
        · exact not_lt.mpr (hle.trans (hcursor u hu))
      rw [insertByPriority, if_neg hstop]
      by_cases hhead : cursor = u
      · subst hhead
        simp
      · rw [List.idxOf_cons_ne _ hhead, List.idxOf_cons_ne _ hhead]
        rw [ih hrest ((List.mem_cons.mp hu).resolve_left (Ne.symm hhead))]

/-- An insertion leaves the others in their order. -/
theorem sublist_insertByPriority : l.Sublist (insertByPriority priority t l) := by
  induction l with
  | nil => exact List.nil_sublist _
  | cons cursor rest ih =>
      unfold insertByPriority
      split
      · exact List.sublist_cons_self _ _
      · exact ih.cons_cons cursor

/-- Who beats `u` is inserted before it. -/
theorem insertByPriority_before (hu : u ∈ l) (hlt : priority u < priority t) :
    [t, u].Sublist (insertByPriority priority t l) := by
  induction l with
  | nil => cases hu
  | cons cursor rest ih =>
      unfold insertByPriority
      split
      next => exact (List.singleton_sublist.mpr hu).cons_cons t
      next hle =>
        have hne : u ≠ cursor := by
          rintro rfl
          exact hle hlt
        exact (ih ((List.mem_cons.mp hu).resolve_left hne)).cons cursor

/-- Who does not beat `u` is inserted behind it. -/
theorem insertByPriority_behind (h : l.Pairwise fun t u => priority u ≤ priority t) (hu : u ∈ l)
    (hle : priority t ≤ priority u) : [u, t].Sublist (insertByPriority priority t l) := by
  induction l with
  | nil => cases hu
  | cons cursor rest ih =>
      obtain ⟨hcursor, hrest⟩ := List.pairwise_cons.mp h
      have hstop : ¬ priority t > priority cursor := by
        rcases List.mem_cons.mp hu with rfl | hu
        · exact not_lt.mpr hle
        · exact not_lt.mpr (hle.trans (hcursor u hu))
      rw [insertByPriority, if_neg hstop]
      rcases List.mem_cons.mp hu with rfl | hu
      · exact (List.singleton_sublist.mpr (mem_insertByPriority.mpr (Or.inl rfl))).cons_cons u
      · exact (ih hrest hu).cons cursor

end Insertion

/-- Taking out another thread moves nobody back. -/
theorem idxOf_erase_le {t u : Tid} {l : List Tid} (hne : u ≠ t) :
    (l.erase t).idxOf u ≤ l.idxOf u := by
  induction l with
  | nil => exact le_refl _
  | cons a rest ih =>
      by_cases ha : a = t
      · subst a
        rw [List.erase_cons_head, List.idxOf_cons_ne _ hne.symm]
        exact Nat.le_succ _
      · rw [List.erase_cons_tail (by simpa using ha)]
        by_cases hau : a = u
        · subst a
          simp
        · rw [List.idxOf_cons_ne _ hau, List.idxOf_cons_ne _ hau]
          exact Nat.succ_le_succ ih

section Order

variable {i : Input} {d prev t u : Tid} {r r' : Ranks}

namespace Ranks

theorem mem_enqueue {p : Policy} : u ∈ (r.enqueue p t).queue ↔ u = t ∨ u ∈ r.queue := by
  cases p with
  | fifo => simp [enqueue, or_comm]
  | prio => exact mem_insertByPriority

theorem setPriority_of_ne (v : Int) (hne : u ≠ t) : (r.setPriority t v).priority u = r.priority u :=
  Function.update_of_ne hne _ _

theorem Ordered.enqueue (h : r.Ordered) (t : Tid) : (r.enqueue .prio t).Ordered :=
  ⟨insertByPriority_sorted h.sorted, h.bounded⟩

theorem Ordered.sublist {l : List Tid} (h : r.Ordered) (hl : l.Sublist r.queue) :
    Ordered { r with queue := l } :=
  ⟨h.sorted.sublist hl, h.bounded⟩

/-- What is left behind the head. -/
theorem Ordered.rest {next : Tid} {rest : List Tid} (h : r.Ordered)
    (hq : r.queue = next :: rest) : Ordered { r with queue := rest } := by
  apply h.sublist
  rw [hq]
  exact List.sublist_cons_self _ _

theorem Ordered.setPriority (h : r.Ordered) {v : Int} (hv : InRange v) (hout : t ∉ r.queue) :
    (r.setPriority t v).Ordered := by
  refine ⟨h.sorted.imp_of_mem fun {x y} hx hy hle => ?_, fun x => ?_⟩
  · have hxt : x ≠ t := fun e => hout (e ▸ hx)
    have hyt : y ≠ t := fun e => hout (e ▸ hy)
    rwa [setPriority_of_ne v hxt, setPriority_of_ne v hyt]
  · by_cases hx : x = t
    · subst x
      simpa [Ranks.setPriority] using hv
    · rw [setPriority_of_ne v hx]
      exact h.bounded x

theorem aged_waiting (hu : u ∈ r.queue) :
    (r.aged prev).priority u = min (r.priority u + threadWait) threadMaxPriority := by
  simp [aged, hu]

theorem aged_running (hprev : prev ∉ r.queue) :
    (r.aged prev).priority prev = max (r.priority prev - threadAging) threadMinPriority := by
  simp [aged, hprev]

theorem atChoice_queue (p : Policy) (r : Ranks) (prev : Tid) :
    (r.atChoice p prev).queue = r.queue := by
  cases p with
  | fifo => rfl
  | prio => rfl

/-- Aging keeps the order: all waiting threads gain alike, up to the maximum. -/
theorem Ordered.aged (h : r.Ordered) (prev : Tid) : (r.aged prev).Ordered := by
  have hsorted :
      r.queue.Pairwise fun t u => (r.aged prev).priority u ≤ (r.aged prev).priority t := by
    refine h.sorted.imp_of_mem fun {x y} hx hy hle => ?_
    rw [aged_waiting hx, aged_waiting hy]
    omega
  refine ⟨hsorted, fun x => ?_⟩
  have hx := h.bounded x
  unfold InRange threadMinPriority threadMaxPriority at hx ⊢
  simp only [Ranks.aged, threadWait, threadAging, threadMinPriority, threadMaxPriority]
  split
  · omega
  · split
    · omega
    · exact hx

/-- The head has the highest priority. -/
theorem Ordered.head_max {next : Tid} {rest : List Tid} (h : r.Ordered)
    (hq : r.queue = next :: rest) (hu : u ∈ r.queue) : r.priority u ≤ r.priority next := by
  have hsorted := h.sorted
  rw [hq] at hsorted hu
  rcases List.mem_cons.mp hu with rfl | hu
  · exact le_refl _
  · exact (List.pairwise_cons.mp hsorted).1 u hu

end Ranks

open Ranks

theorem Shift.ordered (hs : Shift .prio i d r r') (h : r.Ordered) : r'.Ordered := by
  cases hs with
  | enqueue t => exact h.enqueue t
  | pick rest hq => exact h.rest hq
  | remove => exact h.sublist List.erase_sublist
  | rank t v hv hout => exact h.setPriority hv (hout rfl)
  | requeue t v hv hi hnd =>
      have hleft : Ordered { r with queue := r.queue.erase t } := h.sublist List.erase_sublist
      exact (hleft.setPriority hv hnd.not_mem_erase).enqueue t

theorem Shifts.ordered (hs : Shifts .prio i d r r') (h : r.Ordered) : r'.Ordered := by
  induction hs with
  | refl => exact h
  | tail _ hshift ih => exact hshift.ordered ih

/-- After a yield the queue is in order, and nobody in it beats the thread that
runs. -/
theorem Yielding.ordered (hy : Yielding .prio prev d r r') (h : r.Ordered) :
    r'.Ordered ∧ ∀ t ∈ r'.queue, r'.priority t ≤ r'.priority d := by
  have haged : (r.atChoice .prio prev).Ordered := h.aged prev
  cases hy with
  | idle hq =>
      refine ⟨haged, fun t ht => ?_⟩
      rw [atChoice_queue, hq] at ht
      cases ht
  | keep next rest hp hq hle =>
      rw [← atChoice_queue] at hq
      refine ⟨(haged.rest hq).enqueue next, fun t ht => ?_⟩
      have hmem := List.mem_cons.mpr (mem_enqueue.mp ht)
      exact (haged.head_max hq (hq ▸ hmem)).trans hle
  | switch next rest hq hlt =>
      rw [← atChoice_queue] at hq
      refine ⟨(haged.rest hq).enqueue prev, fun t ht => ?_⟩
      rcases mem_enqueue.mp ht with rfl | hmem
      · exact (hlt rfl).le
      · exact haged.head_max hq (hq ▸ List.mem_cons_of_mem _ hmem)

end Order

/-! What happens to a thread that waits in the queue all along. -/

section Waiting

open Ranks

variable {i : Input} {d prev l : Tid} {r r' : Ranks}

/-- A waiting thread that is not dispatched keeps its priority through a shift,
and at the maximum nothing gets ahead of it. -/
theorem Shift.waiting (hs : Shift .prio i d r r') (h : r.Ordered) (hl : l ∈ r.queue) (hne : l ≠ d)
    (hi : i.reranks ≠ some l) :
    l ∈ r'.queue ∧ r'.priority l = r.priority l ∧
      (r.priority l = threadMaxPriority → r'.ahead l ≤ r.ahead l) := by
  have hmax : ∀ t, r.priority l = threadMaxPriority → r.priority t ≤ r.priority l := by
    intro t hfull
    rw [hfull]
    exact (h.bounded t).2
  cases hs with
  | enqueue t =>
      refine ⟨mem_enqueue.mpr (Or.inr hl), rfl, fun hfull => ?_⟩
      exact (idxOf_insertByPriority h.sorted hl (hmax t hfull)).le
  | pick rest hq =>
      rw [hq] at hl
      refine ⟨(List.mem_cons.mp hl).resolve_left hne, rfl, fun _ => ?_⟩
      simp only [ahead, hq]
      rw [List.idxOf_cons_ne _ hne.symm]
      exact Nat.le_succ _
  | remove =>
      exact ⟨(List.mem_erase_of_ne hne).mpr hl, rfl, fun _ => idxOf_erase_le hne⟩
  | rank t v hv hout =>
      have hlt : l ≠ t := fun e => hout rfl (e ▸ hl)
      exact ⟨hl, setPriority_of_ne v hlt, fun _ => le_refl _⟩
  | requeue t v hv hreranks hnd =>
      have hlt : l ≠ t := fun e => hi (e ▸ hreranks)
      have hleft : l ∈ r.queue.erase t := (List.mem_erase_of_ne hlt).mpr hl
      have hsame : ((Ranks.setPriority { r with queue := r.queue.erase t } t v).enqueue .prio
          t).priority l = r.priority l := setPriority_of_ne v hlt
      refine ⟨mem_enqueue.mpr (Or.inr hleft), hsame, fun hfull => ?_⟩
      have hordered : (Ranks.setPriority { r with queue := r.queue.erase t } t v).Ordered :=
        (h.sublist List.erase_sublist).setPriority hv hnd.not_mem_erase
      refine le_trans (le_of_eq (idxOf_insertByPriority hordered.sorted hleft ?_))
        (idxOf_erase_le hlt)
      rw [setPriority_of_ne v hlt]
      simpa [Ranks.setPriority, hfull] using hv.2

theorem Shifts.waiting (hs : Shifts .prio i d r r') (h : r.Ordered) (hl : l ∈ r.queue)
    (hne : l ≠ d) (hi : i.reranks ≠ some l) :
    l ∈ r'.queue ∧ r'.priority l = r.priority l ∧
      (r.priority l = threadMaxPriority → r'.ahead l ≤ r.ahead l) := by
  induction hs with
  | refl => exact ⟨hl, rfl, fun _ => le_refl _⟩
  | tail hshifts hshift ih =>
      obtain ⟨hmem, hsame, hahead⟩ := ih
      obtain ⟨hmem', hsame', hahead'⟩ := hshift.waiting (Shifts.ordered hshifts h) hmem hne hi
      refine ⟨hmem', hsame'.trans hsame, fun hfull => ?_⟩
      exact (hahead' (hsame.trans hfull)).trans (hahead hfull)

/-- Through a yield a waiting thread gains one, and at the maximum the head is
dispatched, so that one thread less is ahead of it. -/
theorem Yielding.waiting (hy : Yielding .prio prev d r r') (h : r.Ordered) (hprev : prev ∉ r.queue)
    (hl : l ∈ r.queue) (hne : l ≠ d) :
    r'.priority l = min (r.priority l + threadWait) threadMaxPriority ∧
      (r.priority l = threadMaxPriority → r'.ahead l + 1 ≤ r.ahead l) := by
  have haged : (r.atChoice .prio prev).Ordered := h.aged prev
  have hgain : (r.atChoice .prio prev).priority l =
      min (r.priority l + threadWait) threadMaxPriority := aged_waiting hl
  cases hy with
  | idle hq =>
      rw [hq] at hl
      cases hl
  | keep next rest hp hq hle =>
      refine ⟨hgain, fun hfull => ?_⟩
      -- The head is at the maximum too, and the caller has just lost some.
      have hhead := haged.head_max ((atChoice_queue _ _ _).trans hq) (u := l) hl
      have hlow : (r.atChoice .prio d).priority d =
          max (r.priority d - threadAging) threadMinPriority := aged_running hprev
      have hbound := (h.bounded d).2
      rw [hgain, hfull] at hhead
      rw [hlow] at hle
      unfold threadWait threadMaxPriority threadMinPriority threadAging at *
      omega
  | switch next rest hq hlt =>
      refine ⟨hgain, fun hfull => ?_⟩
      have hq' := (atChoice_queue .prio r prev).trans hq
      have hmem : l ∈ rest := by
        rw [hq] at hl
        exact (List.mem_cons.mp hl).resolve_left hne
      have hfull' : (r.atChoice .prio prev).priority l = threadMaxPriority := by
        rw [hgain, hfull]
        decide
      have hplace := idxOf_insertByPriority (t := prev) (haged.rest hq').sorted hmem
        (le_of_le_of_eq (haged.bounded prev).2 hfull'.symm)
      simp only [ahead, hq, Ranks.enqueue]
      rw [hplace, List.idxOf_cons_ne _ hne.symm]

end Waiting

/-! The order of two threads that both wait in the queue all along. -/

section Pair

open Ranks

variable {i : Input} {d prev x y : Tid} {r r' : Ranks}

/-- In a queue without repetitions only one of two orders is possible. -/
theorem not_sublist_swap {l : List Tid} (hnd : l.Nodup) (h : [x, y].Sublist l) :
    ¬ [y, x].Sublist l := by
  induction l with
  | nil => cases h
  | cons z rest ih =>
      obtain ⟨hz, hrest⟩ := List.nodup_cons.mp hnd
      intro h'
      cases h with
      | cons _ h =>
          cases h' with
          | cons _ h' => exact ih hrest h h'
          | cons_cons _ _ => exact hz (h.subset (by simp))
      | cons_cons _ h =>
          cases h' with
          | cons _ h' => exact hz (h'.subset (by simp))
          | cons_cons _ _ => exact hz (h.subset (by simp))

theorem sublist_erase_pair {t : Tid} {l : List Tid} (hx : x ≠ t) (hy : y ≠ t)
    (h : [x, y].Sublist l) : [x, y].Sublist (l.erase t) := by
  have herase := h.erase t
  rwa [List.erase_of_not_mem (by simp [hx.symm, hy.symm])] at herase

/-- A shift does not exchange two waiting threads. -/
theorem Shift.pair (hs : Shift .prio i d r r') (hx : x ≠ d) (hy : y ≠ d) (hix : i.reranks ≠ some x)
    (hiy : i.reranks ≠ some y) (h : [x, y].Sublist r.queue) : [x, y].Sublist r'.queue := by
  cases hs with
  | enqueue t => exact h.trans sublist_insertByPriority
  | pick rest hq =>
      rw [hq] at h
      exact h.of_cons_of_ne hx
  | remove => exact sublist_erase_pair hx hy h
  | rank t v hv hout => exact h
  | requeue t v hv hreranks hnd =>
      have hxt : x ≠ t := fun e => hix (e ▸ hreranks)
      have hyt : y ≠ t := fun e => hiy (e ▸ hreranks)
      exact (sublist_erase_pair hxt hyt h).trans sublist_insertByPriority

theorem Shifts.pair (hs : Shifts .prio i d r r') (hx : x ≠ d) (hy : y ≠ d)
    (hix : i.reranks ≠ some x) (hiy : i.reranks ≠ some y) (h : [x, y].Sublist r.queue) :
    [x, y].Sublist r'.queue := by
  induction hs with
  | refl => exact h
  | tail _ hshift ih => exact hshift.pair hx hy hix hiy ih

/-- A yield that keeps the caller puts the head back behind its peers. -/
def Ranks.Rotates (r : Ranks) (prev x y : Tid) : Prop :=
  r.queue.head? = some x ∧ (r.aged prev).priority x ≤ (r.aged prev).priority prev ∧
    (r.aged prev).priority y = (r.aged prev).priority x

instance (r : Ranks) (prev x y : Tid) : Decidable (r.Rotates prev x y) :=
  inferInstanceAs (Decidable (_ ∧ _ ∧ _))

/-- A yield exchanges two waiting threads exactly if it puts the first back
behind the second. -/
theorem Yielding.pair_iff (hy : Yielding .prio prev d r r') (ho : r.Ordered) (hnd : r.queue.Nodup)
    (hx : x ≠ d) (h : [x, y].Sublist r.queue) :
    [x, y].Sublist r'.queue ↔ ¬ r.Rotates prev x y := by
  cases hy with
  | idle hq =>
      rw [hq] at h
      cases h
  | keep next rest hp hq hle =>
      have haged : (r.aged d).Ordered := ho.aged d
      rw [hq] at h hnd
      by_cases hxn : x = next
      · subst hxn
        have hmem : y ∈ rest := by
          cases h with
          | cons _ h => exact absurd (h.subset (by simp)) (List.nodup_cons.mp hnd).1
          | cons_cons _ h => exact List.singleton_sublist.mp h
        have hmax : (r.aged d).priority y ≤ (r.aged d).priority x :=
          haged.head_max hq (hq ▸ List.mem_cons_of_mem _ hmem)
        have hnodup : (insertByPriority (r.aged d).priority x rest).Nodup :=
          (insertByPriority_perm _ _ _).nodup_iff.mpr hnd
        rcases hmax.lt_or_eq with hlt | heq
        · refine iff_of_true (insertByPriority_before hmem hlt) fun hrot => ?_
          exact hlt.ne hrot.2.2
        · refine iff_of_false (fun hfirst => ?_) fun hno => hno ⟨by rw [hq]; rfl, hle, heq⟩
          exact not_sublist_swap hnodup hfirst
            (insertByPriority_behind (haged.rest hq).sorted hmem heq.ge)
      · refine iff_of_true ((h.of_cons_of_ne hxn).trans sublist_insertByPriority) fun hrot => ?_
        rw [Rotates, hq] at hrot
        exact hxn (Option.some.inj hrot.1).symm
  | switch next rest hq hlt =>
      rw [hq] at h
      refine iff_of_true ((h.of_cons_of_ne hx).trans sublist_insertByPriority) fun hrot => ?_
      rw [Rotates, hq] at hrot
      exact hx (Option.some.inj hrot.1).symm

/-- The first two threads in the queue have the same priority at the choice. -/
def Ranks.HeadTied (r : Ranks) (prev : Tid) : Prop :=
  ∃ x ∈ r.queue.head?, ∃ y ∈ r.queue.tail.head?, (r.aged prev).priority y = (r.aged prev).priority x

/-- A yield that keeps the caller leaves the queue as it was exactly if the head
has no peer behind it. -/
theorem Yielding.queue_eq_iff (hy : Yielding .prio prev prev r r') (ho : r.Ordered)
    (hnd : r.queue.Nodup) (hprev : prev ∉ r.queue) :
    r'.queue = r.queue ↔ ¬ r.HeadTied prev := by
  have haged : (r.aged prev).Ordered := ho.aged prev
  cases hy with
  | idle hq =>
      refine iff_of_true ?_ ?_
      · exact atChoice_queue .prio r prev
      · rintro ⟨x, hx, -⟩
        rw [hq] at hx
        cases hx
  | keep next rest hp hq hle =>
      have hins : (Ranks.enqueue .prio { r.atChoice .prio prev with queue := rest } next).queue =
          insertByPriority (r.aged prev).priority next rest := rfl
      rw [hins, hq]
      cases rest with
      | nil =>
          refine iff_of_true rfl ?_
          rintro ⟨x, -, y, hy, -⟩
          rw [hq] at hy
          cases hy
      | cons second rest =>
          have hmax : (r.aged prev).priority second ≤ (r.aged prev).priority next :=
            haged.head_max hq (by rw [show (r.aged prev).queue = _ from hq]; simp)
          have htied : r.HeadTied prev ↔
              (r.aged prev).priority second = (r.aged prev).priority next := by
            simp [HeadTied, hq]
          rw [htied]
          rcases hmax.lt_or_eq with hlt | heq
          · refine iff_of_true ?_ hlt.ne
            rw [insertByPriority, if_pos hlt]
          · refine iff_of_false ?_ (not_not.mpr heq)
            rw [insertByPriority, if_neg (not_lt.mpr heq.ge)]
            intro hsame
            rw [hq] at hnd
            have hhead := (List.cons.inj hsame).1
            rw [hhead] at hnd
            exact (List.nodup_cons.mp hnd).1 List.mem_cons_self
  | switch next rest hq hlt => exact absurd (hq ▸ List.mem_cons_self) hprev

end Pair

end UserThreads
