import Mathlib.Data.List.Nodup
import Mathlib.Data.List.Perm.Basic
import Mathlib.Logic.Function.Basic

/-!
# Lists that track a predicate of records

A queue is correct when it holds, once each, exactly the live indices whose
record satisfies a predicate. The lemmas follow one record through an update:
it keeps the predicate, gains it and is inserted, or loses it and is removed.
The order of the list plays no part.
-/

namespace Transition

variable {ι α : Type*}

/-- `queue` holds, once each, the members of `live` whose record satisfies `φ`. -/
structure Tracks (queue live : List ι) (record : ι → α) (φ : α → Prop) : Prop where
  nodup : queue.Nodup
  mem_iff : ∀ t, t ∈ queue ↔ t ∈ live ∧ φ (record t)

namespace Tracks

variable {queue queue' live : List ι} {record : ι → α} {φ : α → Prop} {t : ι}

theorem perm (h : Tracks queue live record φ) (hp : queue'.Perm queue) :
    Tracks queue' live record φ :=
  ⟨hp.nodup_iff.mpr h.nodup, fun t => hp.mem_iff.trans (h.mem_iff t)⟩

/-- Records may change as long as the predicate does not on live indices. -/
theorem congr {record' : ι → α} (h : Tracks queue live record φ)
    (same : ∀ t ∈ live, φ (record' t) ↔ φ (record t)) : Tracks queue live record' φ := by
  refine ⟨h.nodup, fun t => (h.mem_iff t).trans ?_⟩
  constructor
  · rintro ⟨hl, hφ⟩
    exact ⟨hl, (same t hl).mpr hφ⟩
  · rintro ⟨hl, hφ⟩
    exact ⟨hl, (same t hl).mp hφ⟩

theorem cons_live_enter (h : Tracks queue live record φ) (new : t ∉ live)
    (after : φ (record t)) (hp : queue'.Perm (t :: queue)) :
    Tracks queue' (t :: live) record φ := by
  have hnot : t ∉ queue := fun hm => new ((h.mem_iff t).mp hm).1
  refine ⟨hp.nodup_iff.mpr (List.nodup_cons.mpr ⟨hnot, h.nodup⟩), fun u => ?_⟩
  rw [hp.mem_iff, List.mem_cons, List.mem_cons, h.mem_iff]
  constructor
  · rintro (rfl | ⟨hl, hφ⟩)
    · exact ⟨Or.inl rfl, after⟩
    · exact ⟨Or.inr hl, hφ⟩
  · rintro ⟨rfl | hl, hφ⟩
    · exact Or.inl rfl
    · exact Or.inr ⟨hl, hφ⟩

theorem cons_live_out (h : Tracks queue live record φ) (out : ¬ φ (record t)) :
    Tracks queue (t :: live) record φ := by
  refine ⟨h.nodup, fun u => (h.mem_iff u).trans ?_⟩
  rw [List.mem_cons]
  constructor
  · rintro ⟨hl, hφ⟩
    exact ⟨Or.inr hl, hφ⟩
  · rintro ⟨rfl | hl, hφ⟩
    · exact (out hφ).elim
    · exact ⟨hl, hφ⟩

variable [DecidableEq ι] {a : α}

theorem count_eq_one_iff (h : Tracks queue live record φ) :
    queue.count t = 1 ↔ t ∈ live ∧ φ (record t) := by
  rw [← h.mem_iff]
  constructor
  · intro hcount
    exact List.count_pos_iff.mp (by omega)
  · exact List.count_eq_one_of_mem h.nodup

theorem update (h : Tracks queue live record φ) (same : φ a ↔ φ (record t)) :
    Tracks queue live (Function.update record t a) φ := by
  apply h.congr
  intro u _
  by_cases hu : u = t
  · subst u
    simpa using same
  · simp [hu]

theorem update_enter (h : Tracks queue live record φ) (hl : t ∈ live) (before : ¬ φ (record t))
    (after : φ a) (hp : queue'.Perm (t :: queue)) :
    Tracks queue' live (Function.update record t a) φ := by
  have hnot : t ∉ queue := fun hm => before ((h.mem_iff t).mp hm).2
  refine ⟨hp.nodup_iff.mpr (List.nodup_cons.mpr ⟨hnot, h.nodup⟩), fun u => ?_⟩
  rw [hp.mem_iff, List.mem_cons, h.mem_iff]
  by_cases hu : u = t
  · subst u
    simp [hl, after]
  · simp [hu]

theorem update_leave (h : Tracks queue live record φ) (after : ¬ φ a)
    (hp : (t :: queue').Perm queue) :
    Tracks queue' live (Function.update record t a) φ := by
  have hnd := List.nodup_cons.mp (hp.nodup_iff.mpr h.nodup)
  refine ⟨hnd.2, fun u => ?_⟩
  have hu' := (hp.mem_iff (a := u)).trans (h.mem_iff u)
  by_cases hu : u = t
  · subst u
    simp [hnd.1, after]
  · simpa [hu] using hu'

/-- A record outside the live indices is free to change. -/
theorem update_dead (h : Tracks queue live record φ) (hl : t ∉ live) :
    Tracks queue live (Function.update record t a) φ := by
  apply h.congr
  intro u hu
  have hne : u ≠ t := fun e => hl (e ▸ hu)
  simp [hne]

theorem erase_live (h : Tracks queue live record φ) (hnd : live.Nodup)
    (out : ¬ φ (record t)) : Tracks queue (live.erase t) record φ := by
  refine ⟨h.nodup, fun u => (h.mem_iff u).trans ?_⟩
  rw [hnd.mem_erase_iff]
  constructor
  · rintro ⟨hl, hφ⟩
    exact ⟨⟨fun e => out (e ▸ hφ), hl⟩, hφ⟩
  · rintro ⟨⟨_, hl⟩, hφ⟩
    exact ⟨hl, hφ⟩

end Tracks

/-- A projection that the new record shares with the old one never changes. -/
theorem proj_update {β : Type*} [DecidableEq ι] {record : ι → α} {t : ι} {a : α}
    (π : α → β) (same : π a = π (record t)) (u : ι) :
    π (Function.update record t a u) = π (record u) := by
  by_cases hu : u = t
  · subst u
    simpa using same
  · simp [hu]

/-- A property of all live records has to be re-established only for the
record that is written. -/
theorem forall_update [DecidableEq ι] {live : List ι} {record : ι → α} {P : ι → α → Prop}
    (h : ∀ u ∈ live, P u (record u)) {t : ι} {a : α} (ha : t ∈ live → P t a) :
    ∀ u ∈ live, P u (Function.update record t a u) := by
  intro u hu
  by_cases hut : u = t
  · subst u
    simpa using ha hu
  · simpa [hut] using h u hu

/-! Resources that live indices hold, gathered into one list. -/

section Gather

variable {β : Type*} {live : List ι} {g g' : ι → Option β} {t : ι} {b : β}

theorem gather_congr (same : ∀ u ∈ live, g' u = g u) :
    live.filterMap g' = live.filterMap g :=
  List.filterMap_congr same

/-- One index acquires a resource and nothing else changes. -/
theorem gather_enter (hnd : live.Nodup) (ht : t ∈ live) (before : g t = none)
    (after : g' t = some b) (same : ∀ u ∈ live, u ≠ t → g' u = g u) :
    (live.filterMap g').Perm (b :: live.filterMap g) := by
  obtain ⟨l₁, l₂, rfl⟩ := List.append_of_mem ht
  obtain ⟨_, hnd₂, hdisj⟩ := List.nodup_append.mp hnd
  have h₁ : l₁.filterMap g' = l₁.filterMap g := by
    apply gather_congr
    intro u hu
    exact same u (by simp [hu]) (hdisj u hu t (by simp))
  have h₂ : l₂.filterMap g' = l₂.filterMap g := by
    apply gather_congr
    intro u hu
    exact same u (by simp [hu]) fun e => (List.nodup_cons.mp hnd₂).1 (e ▸ hu)
  simp only [List.filterMap_append, List.filterMap_cons, before, after, h₁, h₂]
  exact List.perm_middle

/-- An index leaves, with the resource it held. -/
theorem gather_erase [DecidableEq ι] (ht : t ∈ live) (held : g t = some b) :
    (live.filterMap g).Perm (b :: (live.erase t).filterMap g) := by
  have h := (List.perm_cons_erase ht).filterMap g
  rwa [List.filterMap_cons, held] at h

theorem gather_erase_none [DecidableEq ι] (ht : t ∈ live) (held : g t = none) :
    (live.filterMap g).Perm ((live.erase t).filterMap g) := by
  have h := (List.perm_cons_erase ht).filterMap g
  rwa [List.filterMap_cons, held] at h

end Gather

end Transition
