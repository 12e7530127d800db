import Mathlib.Data.List.Nodup
import Mathlib.Data.List.Perm.Basic
import Mathlib.Logic.Function.Basic

/-!
# Fork-join code

Tasks that fork further tasks and join each of them once. The serial meaning of
such code runs every task at the place where it is forked; the family of the
tasks that are alive at one time is a tree.
-/

namespace Transition

open scoped List

/-- The body of a task, over the arguments `α` of tasks. The result of a task is a
value in `ν`, and what it leaves in memory, in `ω`. `join i` takes the `i`-th of the
children that are left, and the value of the child only if it is wanted. -/
inductive Code (α ν ω : Type) where
  | ret (v : ν × ω)
  | yield (rest : Code α ν ω)
  | fork (arg : α) (rest : Code α ν ω)
  | join (i : Nat) (wanted : Bool) (rest : Option ν × ω → Code α ν ω)
  | fail

/-- What a join makes known of a result. -/
def known {ν ω : Type} (wanted : Bool) (w : ν × ω) : Option ν × ω :=
  (if wanted then some w.1 else none, w.2)

section Serial

variable {α ν ω : Type}

/-- The serial elision: `fork` is a call. The list holds the results of the
children that are left, and the last argument counts steps, two for what may be
suspended. A task ends when no child is left. -/
inductive Evaluates (func : α → Code α ν ω) : List (ν × ω) → Code α ν ω → ν × ω → Nat → Prop
  | ret (v : ν × ω) : Evaluates func [] (.ret v) v 1
  | yield {l : List (ν × ω)} {rest : Code α ν ω} {v : ν × ω} {n : Nat}
      (h : Evaluates func l rest v n) : Evaluates func l (.yield rest) v (n + 2)
  | fork {l : List (ν × ω)} {a : α} {rest : Code α ν ω} {w v : ν × ω} {m n : Nat}
      (hcall : Evaluates func [] (func a) w m) (h : Evaluates func (l ++ [w]) rest v n) :
      Evaluates func l (.fork a rest) v (m + n + 2)
  | join {l : List (ν × ω)} {i : Nat} {wanted : Bool} {rest : Option ν × ω → Code α ν ω}
      {w v : ν × ω} {n : Nat} (hi : l[i]? = some w)
      (h : Evaluates func (l.eraseIdx i) (rest (known wanted w)) v n) :
      Evaluates func l (.join i wanted rest) v (n + 2)

/-- A number of yields in a row. -/
def Code.yields (rest : Code α ν ω) : Nat → Code α ν ω
  | 0 => rest
  | n + 1 => .yield (rest.yields n)

section Evaluation

variable {func : α → Code α ν ω} {l : List (ν × ω)} {v : ν × ω} {n : Nat}

theorem Evaluates.ret_inv {w : ν × ω} (h : Evaluates func l (.ret w) v n) :
    l = [] ∧ v = w ∧ n = 1 := by
  cases h with
  | ret => exact ⟨rfl, rfl, rfl⟩

theorem Evaluates.yield_inv {rest : Code α ν ω} (h : Evaluates func l (.yield rest) v n) :
    ∃ m, n = m + 2 ∧ Evaluates func l rest v m := by
  cases h with
  | yield h => exact ⟨_, rfl, h⟩

theorem Evaluates.fork_inv {a : α} {rest : Code α ν ω} (h : Evaluates func l (.fork a rest) v n) :
    ∃ w m k, n = m + k + 2 ∧ Evaluates func [] (func a) w m ∧
      Evaluates func (l ++ [w]) rest v k := by
  cases h with
  | fork hcall h => exact ⟨_, _, _, rfl, hcall, h⟩

theorem Evaluates.join_inv {i : Nat} {wanted : Bool} {rest : Option ν × ω → Code α ν ω}
    (h : Evaluates func l (.join i wanted rest) v n) :
    ∃ w m, n = m + 2 ∧ l[i]? = some w ∧
      Evaluates func (l.eraseIdx i) (rest (known wanted w)) v m := by
  cases h with
  | join hi h => exact ⟨_, _, rfl, hi, h⟩

theorem Evaluates.not_fail : ¬ Evaluates func l .fail v n := by
  intro h
  cases h

theorem Evaluates.yields {rest : Code α ν ω} (h : Evaluates func l rest v n) (k : Nat) :
    Evaluates func l (rest.yields k) v (n + 2 * k) := by
  induction k with
  | zero => exact h
  | succ k ih => exact .yield ih

end Evaluation

end Serial

section Family

variable {ι : Type} {root : ι} {members : List ι} {kids : ι → List ι}

/-- Every member but the root is the child of one member. -/
def Family (root : ι) (members : List ι) (kids : ι → List ι) : Prop :=
  members.Perm (root :: members.flatMap kids)

namespace Family

variable {t t' u n : ι}

theorem root_mem (h : Family root members kids) : root ∈ members :=
  h.mem_iff.mpr List.mem_cons_self

theorem parent (h : Family root members kids) (hu : u ∈ members) (hne : u ≠ root) :
    ∃ t ∈ members, u ∈ kids t := by
  rcases List.mem_cons.mp (h.mem_iff.mp hu) with heq | hmem
  · exact absurd heq hne
  · exact List.mem_flatMap.mp hmem

theorem kid_mem (h : Family root members kids) (ht : t ∈ members) (hu : u ∈ kids t) :
    u ∈ members :=
  h.mem_iff.mpr (List.mem_cons_of_mem _ (List.mem_flatMap.mpr ⟨t, ht, hu⟩))

variable (hnd : members.Nodup)
include hnd

theorem kid_ne_root (h : Family root members kids) (ht : t ∈ members) (hu : u ∈ kids t) :
    u ≠ root := by
  rintro rfl
  exact (List.nodup_cons.mp (h.nodup_iff.mp hnd)).1 (List.mem_flatMap.mpr ⟨t, ht, hu⟩)

/-- Where children come after their parents, a root without children is alone. -/
theorem alone (h : Family root members kids) (rank : ι → Nat)
    (holder : ∀ t ∈ members, ∀ u ∈ kids t, rank t < rank u) (hroot : kids root = []) :
    members = [root] := by
  have hall : ∀ u ∈ members, u = root := by
    intro u hu
    induction hrank : rank u using Nat.strongRecOn generalizing u with
    | _ r ih =>
        by_contra hne
        obtain ⟨t, ht, hkid⟩ := h.parent hu hne
        obtain rfl := ih (rank t) (hrank ▸ holder t ht u hkid) t ht rfl
        rw [hroot] at hkid
        cases hkid
  have hnone : members.flatMap kids = [] := by
    refine List.eq_nil_iff_forall_not_mem.mpr fun u hu => ?_
    obtain ⟨t, ht, hkid⟩ := List.mem_flatMap.mp hu
    exact h.kid_ne_root hnd ht hkid (hall u (h.kid_mem ht hkid))
  unfold Family at h
  rw [hnone] at h
  exact List.perm_singleton.mp h

variable [DecidableEq ι]

/-- The children of one member, and those of the others. -/
theorem flatMap_update (kids : ι → List ι) (ht : t ∈ members) (l : List ι) :
    (members.flatMap (Function.update kids t l)).Perm
      (l ++ (members.erase t).flatMap kids) := by
  have hout : t ∉ members.erase t := hnd.not_mem_erase
  have hsame : (members.erase t).flatMap (Function.update kids t l) =
      (members.erase t).flatMap kids := by
    refine List.flatMap_congr fun u hu => Function.update_of_ne ?_ _ _
    rintro rfl
    exact hout hu
  calc members.flatMap (Function.update kids t l)
      ~ (t :: members.erase t).flatMap (Function.update kids t l) :=
        (List.perm_cons_erase ht).flatMap_right _
    _ = l ++ (members.erase t).flatMap kids := by simp [hsame]

theorem flatMap_erase (kids : ι → List ι) (ht : t ∈ members) :
    (members.flatMap kids).Perm (kids t ++ (members.erase t).flatMap kids) := by
  simpa using flatMap_update hnd kids ht (kids t)

theorem parent_unique (h : Family root members kids) (ht : t ∈ members) (hu : u ∈ kids t)
    (ht' : t' ∈ members) (hu' : u ∈ kids t') : t = t' := by
  by_contra hne
  have hflat := (List.nodup_cons.mp (h.nodup_iff.mp hnd)).2
  have hsplit := (flatMap_erase hnd kids ht).nodup_iff.mp hflat
  have hmem : t' ∈ members.erase t := (List.mem_erase_of_ne (Ne.symm hne)).mpr ht'
  exact (List.nodup_append.mp hsplit).2.2 u hu u (List.mem_flatMap.mpr ⟨t', hmem, hu'⟩) rfl

/-- A member has a new child. -/
theorem adopt (h : Family root members kids) (ht : t ∈ members) (hn : n ∉ members) :
    Family root (n :: members) (Function.update (Function.update kids t (kids t ++ [n])) n []) := by
  have hsame : members.flatMap (Function.update (Function.update kids t (kids t ++ [n])) n []) =
      members.flatMap (Function.update kids t (kids t ++ [n])) := by
    refine List.flatMap_congr fun u hu => Function.update_of_ne ?_ _ _
    rintro rfl
    exact hn hu
  have hnew : (members.flatMap (Function.update kids t (kids t ++ [n]))).Perm
      (n :: members.flatMap kids) := by
    calc members.flatMap (Function.update kids t (kids t ++ [n]))
        ~ (kids t ++ [n]) ++ (members.erase t).flatMap kids := flatMap_update hnd kids ht _
      _ ~ n :: (kids t ++ (members.erase t).flatMap kids) := by
          rw [List.append_assoc]
          exact List.perm_middle
      _ ~ n :: members.flatMap kids := (flatMap_erase hnd kids ht).symm.cons n
  unfold Family
  rw [List.flatMap_cons, Function.update_self, List.nil_append, hsame]
  exact ((h.cons n).trans (List.Perm.swap _ _ _)).trans (hnew.symm.cons root)

/-- A child without children leaves. -/
theorem leave (h : Family root members kids) (ht : t ∈ members) {i : Nat}
    (hi : (kids t)[i]? = some u) (hleaf : kids u = []) :
    Family root (members.erase u) (Function.update kids t ((kids t).eraseIdx i)) := by
  have hkid : u ∈ kids t := List.mem_of_getElem? hi
  have hu : u ∈ members := h.kid_mem ht hkid
  have hne : t ≠ u := by
    rintro rfl
    rw [hleaf] at hkid
    cases hkid
  have ht' : t ∈ members.erase u := (List.mem_erase_of_ne hne).mpr ht
  have hrest := flatMap_erase (hnd.erase u) kids ht'
  have hfirst : (kids t).Perm (u :: (kids t).eraseIdx i) := by
    obtain ⟨hlt, hget⟩ := List.getElem?_eq_some_iff.mp hi
    rw [← hget]
    exact (List.getElem_cons_eraseIdx_perm hlt).symm
  have hall : members.Perm (u :: root :: (members.erase u).flatMap
      (Function.update kids t ((kids t).eraseIdx i))) := by
    calc members
        ~ root :: members.flatMap kids := h
      _ ~ root :: (members.erase u).flatMap kids := by
          have hsplit := flatMap_erase hnd kids hu
          rw [hleaf] at hsplit
          exact hsplit.cons root
      _ ~ root :: (kids t ++ ((members.erase u).erase t).flatMap kids) := hrest.cons root
      _ ~ root :: u :: ((kids t).eraseIdx i ++ ((members.erase u).erase t).flatMap kids) :=
          (hfirst.append_right _).cons root
      _ ~ root :: u :: (members.erase u).flatMap
            (Function.update kids t ((kids t).eraseIdx i)) :=
          ((flatMap_update (hnd.erase u) kids ht' _).symm.cons u).cons root
      _ ~ _ := List.Perm.swap _ _ _
  unfold Family
  simpa using hall.erase u

end Family

end Family

end Transition
