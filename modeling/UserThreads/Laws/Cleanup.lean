import UserThreads.Operations.Cleanup
import UserThreads.Operations.WritesStep
import Mathlib.Data.List.Perm.Subperm

/-!
# The final cleanup

Whichever way the process ends, each stack and each struct that the library
still holds is released once, and nothing else is.
-/

namespace UserThreads

open Transition

/-- What the cleanup that starts in `s` has released when it is over. -/
structure CleanupLaw (s : State) (c : Cleanup) : Prop where
  /-- Nothing is released twice. -/
  once : c.released.Nodup
  stack_iff : ∀ a, .stack a ∈ c.released ↔ a ∈ s.stackPool.map (·.map) ∨
    a ∈ s.deferredStacks.map (·.map) ∨ ∃ t ∈ s.zombieQueue, (s.threads t).stackMap = some a
  struct_iff : ∀ t, .struct t ∈ c.released ↔ t ∈ s.threadPool ∨ t ∈ s.zombieQueue
  /-- Nothing has been released before. -/
  mapped : ∀ a, .stack a ∈ c.released → a ∈ s.mappings
  allocated : ∀ t, .struct t ∈ c.released → t ∈ s.heap

/-! What is to be released is in one place. -/

section Held

variable {s : State} (h : Inv s)
include h

theorem Inv.zombie_ne_main {t : Tid} (ht : t ∈ s.zombieQueue) : t ≠ mainThread := by
  rintro rfl
  have hflag := ((h.sched.zombie.mem_iff mainThread).mp ht).2
  rw [h.main.2] at hflag
  cases hflag

/-- A stack that is held is one of those that are mapped. -/
theorem Inv.heldMaps_subperm : s.heldMaps.Subperm s.mappings := by
  have hzombies : s.zombieQueue.Subperm s.handles :=
    List.subperm_of_subset h.sched.zombie.nodup fun t ht => ((h.sched.zombie.mem_iff t).mp ht).1
  have howned :
      (s.zombieQueue.filterMap fun t => (s.threads t).stackMap).Subperm s.ownedStacks := by
    obtain ⟨l, hperm, hsub⟩ := hzombies
    exact ⟨l.filterMap _, hperm.filterMap _, hsub.filterMap _⟩
  have hheld : s.heldMaps.Subperm (s.stackPool.map (·.map) ++
      (s.deferredStacks.map (·.map) ++ s.ownedStacks)) :=
    (List.subperm_append_left _).mpr ((List.subperm_append_left _).mpr howned)
  exact hheld.trans h.mem.mapped.symm.subperm

/-- A struct that is held is one of those that are allocated. -/
theorem Inv.heldObjects_subperm : s.heldObjects.Subperm s.heap := by
  have hzombies : s.zombieQueue.Subperm (s.handles.filter (· ≠ mainThread)) := by
    refine List.subperm_of_subset h.sched.zombie.nodup fun t ht => ?_
    have hmem := ((h.sched.zombie.mem_iff t).mp ht).1
    simpa [hmem] using h.zombie_ne_main ht
  have hpool : s.threadPool.Subperm (s.threadPool ++ s.heldStructs) :=
    (List.sublist_append_left _ _).subperm
  exact (hzombies.append hpool).trans h.mem.structs.symm.subperm

omit h in
theorem nodup_of_subperm {α : Type*} {l l' : List α} (hsub : l.Subperm l') (hnd : l'.Nodup) :
    l.Nodup := by
  obtain ⟨m, hperm, hm⟩ := hsub
  exact hperm.nodup_iff.mp (hnd.sublist hm)

theorem Inv.disposable_nodup : s.disposable.Nodup := by
  have hmaps := nodup_of_subperm h.heldMaps_subperm h.mem.mappings_nodup
  have hobjects := nodup_of_subperm h.heldObjects_subperm h.mem.heap_nodup
  have hchunks : ((List.range s.headRefChunksCount).map Disposal.headRefChunk).Nodup :=
    List.nodup_range.map fun _ _ he => Disposal.headRefChunk.inj he
  have harray : (if s.headRefChunksCap = 0 then [] else [Disposal.headRefChunks]).Nodup := by
    split
    · simp
    · simp
  have hmaps' : (s.heldMaps.map Disposal.stack).Nodup :=
    hmaps.map fun _ _ he => Disposal.stack.inj he
  have hobjects' : (s.heldObjects.map Disposal.struct).Nodup :=
    hobjects.map fun _ _ he => Disposal.struct.inj he
  unfold State.disposable
  refine hmaps'.append (hobjects'.append (hchunks.append harray ?_) ?_) ?_
  · intro d hd
    obtain ⟨n, -, rfl⟩ := List.mem_map.mp hd
    split
    · simp
    · simp
  · intro d hd
    obtain ⟨t, -, rfl⟩ := List.mem_map.mp hd
    split
    · simp
    · simp
  · intro d hd
    obtain ⟨a, -, rfl⟩ := List.mem_map.mp hd
    split
    · simp
    · simp

/-- The law, from what the cleanup has released. -/
theorem Inv.cleanupLaw {c : Cleanup} (hnodup : c.released.Nodup)
    (hstack : ∀ a, .stack a ∈ c.released ↔ a ∈ s.heldMaps)
    (hstruct : ∀ t, .struct t ∈ c.released ↔ t ∈ s.heldObjects) : CleanupLaw s c := by
  refine ⟨hnodup, fun a => ?_, fun t => ?_, fun a ha => ?_, fun t ht => ?_⟩
  · rw [hstack, State.heldMaps, List.mem_append, List.mem_append, List.mem_filterMap]
  · rw [hstruct, State.heldObjects, List.mem_append, or_comm]
  · exact h.heldMaps_subperm.subset ((hstack a).mp ha)
  · exact h.heldObjects_subperm.subset ((hstruct t).mp ht)

/-- Everything that is held has been released. -/
theorem Inv.cleanupLaw_of_perm {c : Cleanup} (hc : c.released.Perm s.disposable) :
    CleanupLaw s c := by
  refine h.cleanupLaw (hc.nodup_iff.mpr h.disposable_nodup) (fun a => ?_) fun t => ?_
  · rw [hc.mem_iff, State.disposable]
    split
    · simp
    · simp
  · rw [hc.mem_iff, State.disposable]
    split
    · simp
    · simp

/-- Before the first creation nothing is held. -/
theorem Inv.held_nil (hheap : s.heap = []) (hmappings : s.mappings = []) :
    s.heldMaps = [] ∧ s.heldObjects = [] := by
  have hmaps := h.heldMaps_subperm
  have hobjects := h.heldObjects_subperm
  rw [hmappings, List.subperm_nil] at hmaps
  rw [hheap, List.subperm_nil] at hobjects
  exact ⟨hmaps, hobjects⟩

end Held

/-! The registrations along a run. -/

/-- No thread has been created, and no handler registered. -/
structure Unstarted (x : Program) : Prop where
  handlers : x.handlers = []
  heap : x.lib.heap = []
  mappings : x.lib.mappings = []
  setUp : x.lib.schedulerInitialized = false

/-- The states of the program in a regular run. -/
def ProgramReach (b : Build) (x : Program) : Prop :=
  Reach (Program.step b) (fun x i => Regular x.lib i) Program.initial x

section Run

variable {b : Build} {x x' : Program} {i : Input}

theorem program_step (hs : x.step b i = some x') :
    step b x.lib i = some x'.lib ∧ x'.handlers = register x.lib i x.handlers := by
  obtain ⟨s, hstep, rfl⟩ := Option.map_eq_some_iff.mp hs
  exact ⟨hstep, rfl⟩

theorem Registered.register (h : Registered x.handlers) (s : State) (i : Input) :
    Registered (register s i x.handlers) := by
  obtain ⟨n, hn⟩ := h
  unfold UserThreads.register
  split
  · split
    · exact ⟨n, hn⟩
    · refine ⟨n + 1, ?_⟩
      have honce : threadCleanupRegister x.handlers = x.handlers := by
        simp [threadCleanupRegister, hn]
      rw [honce, hn]
      rfl
  · exact ⟨n, hn⟩

theorem Unstarted.step (h : Unstarted x) (hinv : Inv x.lib) (hs : x.step b i = some x') :
    Registered x'.handlers ∨ Unstarted x' := by
  obtain ⟨hstep, hhandlers⟩ := program_step hs
  by_cases hcreate : ∃ e, i = .call (.threadCreate true true) e
  · obtain ⟨e, rfl⟩ := hcreate
    refine Or.inl ⟨0, ?_⟩
    rw [hhandlers]
    simp [register, h.setUp, h.handlers, threadCleanupRegister]
  · have hpoint : ∀ n r, x.lib.running.point ≠ .create n r := by
      intro n r hk
      have hheld : n ∈ x.lib.heldStructs :=
        List.mem_filterMap.mpr ⟨x.lib.currentThread, hinv.sched.current_mem, congrArg Point.held hk⟩
      have hheap : n ∈ x.lib.heap := hinv.mem.structs.mem_iff.mpr (by simp [hheld])
      rw [h.heap] at hheap
      cases hheap
    have hshrinks := step_shrinks hstep (fun e he => hcreate ⟨e, he⟩) hpoint
    refine Or.inr ⟨?_, ?_, ?_, hshrinks.setUp.trans h.setUp⟩
    · rw [hhandlers]
      unfold register
      split
      next e => exact absurd ⟨e, rfl⟩ hcreate
      next => exact h.handlers
    · exact List.subset_nil.mp (h.heap ▸ hshrinks.heap)
    · exact List.subset_nil.mp (h.mappings ▸ hshrinks.mappings)

theorem ProgramReach.registered (h : ProgramReach b x) :
    Sound x.lib ∧ (Registered x.handlers ∨ Unstarted x) := by
  refine h.invariant (I := fun x => Sound x.lib ∧ (Registered x.handlers ∨ Unstarted x)) ?_ ?_
  · exact ⟨sound_initial, Or.inr ⟨rfl, rfl, rfl, rfl⟩⟩
  · rintro x x' i - ⟨hsound, hor⟩ hg hs
    obtain ⟨hstep, hhandlers⟩ := program_step hs
    refine ⟨hsound.step hg hstep, ?_⟩
    rcases hor with hreg | hnone
    · rw [hhandlers]
      exact Or.inl (hreg.register _ _)
    · exact hnone.step hsound.inv hs

/-- A call of `thread_exit` names no thread. -/
theorem regular_of_exits {s : State} (hi : Exits b s i) : Regular s i := by
  have hnone : i.handle = none ∧ i.joinTarget = none := by
    unfold Exits at hi
    split at hi
    · exact ⟨rfl, rfl⟩
    · exact ⟨rfl, rfl⟩
    · exact hi.elim
  refine ⟨fun t ht => ?_, fun hempty => ?_⟩
  · rw [hnone.1] at ht
    cases ht
  · obtain ⟨t, ht, -⟩ := hempty
    rw [hnone.2] at ht
    cases ht

/-- The end of a run is one more step of it. -/
theorem Ends.reach {s : State} {c : Cleanup} (h : ProgramReach b x) (he : Ends b x s c) :
    ∃ x', ProgramReach b x' ∧ s = x'.lib ∧
      (c = x'.exit ⟨s, []⟩ ∨ c = x'.threadSwitchToCleanup ⟨s, []⟩) := by
  cases he with
  | exit e hs =>
      have hg : Regular x.lib (.call .exit e) := by
        refine ⟨fun t ht => ?_, fun hempty => ?_⟩
        · cases ht
        · obtain ⟨t, ht, -⟩ := hempty
          cases ht
      exact ⟨_, .tail h hg hs, rfl, Or.inl rfl⟩
  | lastExit i hi hs hended =>
      have hg : Regular x.lib i := regular_of_exits hi
      exact ⟨_, .tail h hg hs, rfl, Or.inr rfl⟩

end Run

/-- The final cleanup, from every state of a regular run. -/
theorem cleanupLaw_of_reach {b : Build} {x : Program} {s : State} {c : Cleanup}
    (h : ProgramReach b x) (he : Ends b x s c) : CleanupLaw s c := by
  obtain ⟨x', hreach, rfl, hc⟩ := he.reach h
  obtain ⟨hsound, hor⟩ := hreach.registered
  have hinv := hsound.inv
  rcases hor with hreg | hnone
  · apply hinv.cleanupLaw_of_perm
    rcases hc with rfl | rfl
    · exact Program.exit_released hreg hinv.mem.deferred_le
    · exact Program.threadSwitchToCleanup_released hreg hinv.mem.deferred_le
  · obtain ⟨hmaps, hobjects⟩ := hinv.held_nil hnone.heap hnone.mappings
    have hpool : x'.lib.stackPool = [] := List.map_eq_nil_iff.mp (List.append_eq_nil_iff.mp hmaps).1
    have hzombies : x'.lib.zombieQueue = [] := (List.append_eq_nil_iff.mp hobjects).1
    have hnothing : c.released = [] := by
      rcases hc with rfl | rfl
      · simp [Program.exit, hnone.handlers]
      · simp [Program.threadSwitchToCleanup, Program.exit, hnone.handlers, Cleanup.doFinalCleanup,
          Cleanup.freeZombies, Cleanup.stackPoolFreeAll, hpool, hzombies]
    refine hinv.cleanupLaw ?_ (fun a => ?_) fun t => ?_
    · rw [hnothing]
      exact List.nodup_nil
    · rw [hnothing, hmaps]
      simp
    · rw [hnothing, hobjects]
      simp

/-- Thread 1 has been joined and thread 2 is a zombie when main exits, the last
to run: the cleanup stack frees the zombie, and the handlers the rest. -/
theorem cleanupLaw_of_reach_last : ∃ x s c, ProgramReach .fifo x ∧ Ends .fifo x s c ∧
    c.released = [.struct 2, .struct 1, .headRefChunk 0, .headRefChunks, .stack 131072,
      .stack 65536] ∧ CleanupLaw s c := by
  obtain ⟨x, hreach, hlast⟩ := exists_reach_of_run (Program.step .fifo)
    (fun x i => Regular x.lib i) Program.initial
    [.create 1, .create 2, .plain (.threadJoin (some 1) true), .go, .plain (.threadExit 7), .go,
      .plain (.threadExit 8), .go]
    (fun x => (x.step .fifo (.plain (.threadExit 0))).map (fun x' =>
      (x'.lib.ended, (x'.threadSwitchToCleanup ⟨x'.lib, []⟩).released)) =
        some (true, [.struct 2, .struct 1, .headRefChunk 0, .headRefChunks, .stack 131072,
          .stack 65536]))
    (by decide +kernel)
  obtain ⟨x', hs, hcleanup⟩ := Option.map_eq_some_iff.mp hlast
  have hends : Ends .fifo x x'.lib (x'.threadSwitchToCleanup ⟨x'.lib, []⟩) :=
    Ends.lastExit (.plain (.threadExit 0)) trivial hs (congrArg Prod.fst hcleanup)
  exact ⟨x, _, _, hreach, hends, congrArg Prod.snd hcleanup, cleanupLaw_of_reach hreach hends⟩

end UserThreads
