import UserThreads.Operations.Step

/-!
# The ownership of stacks and structs

Every mapping and every struct that has been obtained and not given back is in
exactly one place, whatever creations, terminations and joins have happened
and wherever creations have failed.
-/

namespace UserThreads

open Transition

/-- Each resource is in one place, and the arrays do not overflow. -/
structure OwnershipLaw (s : State) : Prop where
  mapping_once : ∀ a, (s.stackPool.map (·.map)).count a + (s.deferredStacks.map (·.map)).count a +
    s.ownedStacks.count a = if a ∈ s.mappings then 1 else 0
  one_owner : ∀ t ∈ s.handles, ∀ u ∈ s.handles, ∀ a, (s.threads t).stackMap = some a →
    (s.threads u).stackMap = some a → t = u
  free_unused : ∀ e, e ∈ s.stackPool ∨ e ∈ s.deferredStacks → ∀ t ∈ s.handles,
    (s.threads t).stackMap ≠ some e.map
  struct_once : ∀ t, (s.handles.filter (· ≠ mainThread)).count t + s.threadPool.count t +
    s.heldStructs.count t = if t ∈ s.heap then 1 else 0
  pool_nodup : s.threadPool.Nodup
  pool_unused : ∀ t ∈ s.threadPool, t ∉ s.handles ∧ t ∉ s.zombieQueue ∧
    ∀ u ∈ s.handles, (s.threads u).waitingFor ≠ some t
  threadPool_le : s.threadPool.length ≤ maxPooledThreads
  stackPool_le : s.stackPool.length ≤ maxPooledStacks
  deferred_le : s.deferredStacks.length ≤ maxDeferredStacks

/-- Two members of a list of live threads that hold the same resource. -/
theorem eq_of_held {live : List Tid} {g : Tid → Option Addr} (hnd : (live.filterMap g).Nodup)
    {t u : Tid} (ht : t ∈ live) (hu : u ∈ live) {a : Addr} (hta : g t = some a)
    (hua : g u = some a) : t = u := by
  by_contra hne
  have hmem : u ∈ live.erase t := (List.mem_erase_of_ne (Ne.symm hne)).mpr hu
  have hnd' := (gather_erase ht hta).nodup_iff.mp hnd
  exact (List.nodup_cons.mp hnd').1 (List.mem_filterMap.mpr ⟨u, hmem, hua⟩)

theorem Inv.ownershipLaw {s : State} (h : Inv s) : OwnershipLaw s := by
  have hmem := h.mem
  have hstacks := hmem.mapped.nodup_iff.mp hmem.mappings_nodup
  have hstructs := hmem.structs.nodup_iff.mp hmem.heap_nodup
  obtain ⟨hpool, hrest, hdisj⟩ := List.nodup_append.mp hstacks
  obtain ⟨hdef, howned, hdisj'⟩ := List.nodup_append.mp hrest
  obtain ⟨hlive, hrest', hsep⟩ := List.nodup_append.mp hstructs
  constructor
  · intro a
    have hcount := hmem.mapped.count_eq a
    rw [List.count_append, List.count_append] at hcount
    split
    next hin =>
      rw [List.count_eq_one_of_mem hmem.mappings_nodup hin] at hcount
      omega
    next hout =>
      rw [List.count_eq_zero.mpr hout] at hcount
      omega
  · intro t ht u hu a hta hua
    exact eq_of_held (g := fun t => (s.threads t).stackMap) howned ht hu hta hua
  · rintro e (he | he) t ht hmap
    · exact hdisj e.map (List.mem_map_of_mem he) e.map (List.mem_append_right _
        (List.mem_filterMap.mpr ⟨t, ht, hmap⟩)) rfl
    · exact hdisj' e.map (List.mem_map_of_mem he) e.map
        (List.mem_filterMap.mpr ⟨t, ht, hmap⟩) rfl
  · intro t
    have hcount := hmem.structs.count_eq t
    rw [List.count_append, List.count_append] at hcount
    split
    next hin =>
      rw [List.count_eq_one_of_mem hmem.heap_nodup hin] at hcount
      omega
    next hout =>
      rw [List.count_eq_zero.mpr hout] at hcount
      omega
  · exact (List.nodup_append.mp hrest').1
  · intro t ht
    have hnot : t ∉ s.handles := by
      intro hin
      have hne : t ≠ mainThread := by
        rintro rfl
        exact hmem.main_static (hmem.structs.mem_iff.mpr (by simp [ht]))
      exact hsep t (by simp [hin, hne]) t (by simp [ht]) rfl
    refine ⟨hnot, fun hz => hnot ((h.sched.zombie.mem_iff t).mp hz).1, fun u hu hw => ?_⟩
    rw [(h.sched.threads_ok u hu).waiting] at hw
    exact hnot (h.join.target u hu t hw).1
  · exact hmem.threadPool_le
  · exact hmem.stackPool_le
  · exact hmem.deferred_le

/-- In every state between operations of a regular run, each stack and each
struct is in one place. -/
theorem ownershipLaw_of_reach {b : Build} {s : State} (h : RegularReach b s) : OwnershipLaw s :=
  h.sound.inv.ownershipLaw

/-- A run in which a stack has been recycled: one thread has terminated and
been joined, one is a zombie with its stack deferred, and one is alive. -/
theorem ownershipLaw_of_reach_script : ∃ s, RegularReach .fifo s ∧
    s.threadPool = [1] ∧ s.zombieQueue = [2] ∧ s.stackPool = [] ∧
    s.deferredStacks.map (·.map) = [131072, 65536] ∧ s.ownedStacks = [196608] ∧
    OwnershipLaw s := by
  obtain ⟨s, hreach, hpool, hzombie, hstack, hdef, howned⟩ := exists_reach_of_run (step .fifo)
    Regular State.initial
    [.create 1, .create 2, .create 3, .plain (.threadJoin (some 1) true), .go,
      .plain (.threadExit 7), .go, .plain (.threadExit 8), .go, .plain .threadYield, .go]
    (fun s => s.threadPool = [1] ∧ s.zombieQueue = [2] ∧ s.stackPool = [] ∧
      s.deferredStacks.map (·.map) = [131072, 65536] ∧ s.ownedStacks = [196608])
    (by decide +kernel)
  exact ⟨s, hreach, hpool, hzombie, hstack, hdef, howned, ownershipLaw_of_reach hreach⟩

end UserThreads
