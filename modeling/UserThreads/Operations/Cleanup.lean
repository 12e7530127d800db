import UserThreads.Model.Cleanup
import Mathlib.Data.List.Perm.Basic

/-!
# What the final cleanup releases

The cleanup is followed by an account: what has been released so far, together
with what the library still holds. Each function moves entries from the second
part to the first, so the account stays the same until nothing is held.
-/

namespace UserThreads

/-- What a zombie has to give back: its stack, unless that has been deferred, and
its struct. -/
def zombieDisposals (threads : Tid → Thread) (t : Tid) : List Disposal :=
  (threads t).stackMap.toList.map .stack ++ [.struct t]

/-- The stacks that the pool, the deferred array and the zombies hold. -/
def State.heldMaps (s : State) : List Addr :=
  s.stackPool.map (·.map) ++ (s.deferredStacks.map (·.map) ++
    s.zombieQueue.filterMap fun t => (s.threads t).stackMap)

/-- The structs that the zombie queue and the thread pool hold. -/
def State.heldObjects (s : State) : List Tid := s.zombieQueue ++ s.threadPool

/-- What the final cleanup has to release. -/
def State.disposable (s : State) : List Disposal :=
  s.heldMaps.map .stack ++ (s.heldObjects.map .struct ++
    ((List.range s.headRefChunksCount).map .headRefChunk ++
      if s.headRefChunksCap = 0 then [] else [.headRefChunks]))

theorem zombieDisposals_perm (threads : Tid → Thread) (l : List Tid) :
    (l.flatMap (zombieDisposals threads)).Perm
      ((l.filterMap fun t => (threads t).stackMap).map .stack ++ l.map .struct) := by
  induction l with
  | nil => exact List.Perm.refl _
  | cons t rest ih =>
      rw [List.flatMap_cons]
      cases hmap : (threads t).stackMap with
      | none =>
          have hcons := (ih.cons (Disposal.struct t)).trans List.perm_middle.symm
          simpa [zombieDisposals, hmap] using hcons
      | some map =>
          have hcons := (ih.cons (Disposal.struct t)).trans List.perm_middle.symm
          simpa [zombieDisposals, hmap] using hcons.cons (Disposal.stack map)

namespace Cleanup

/-- What has been released, and what is still held. -/
def account (c : Cleanup) : List Disposal := c.released ++ c.lib.disposable

/-! The loops. -/

theorem foldl_munmap (l : List StackEntry) (c : Cleanup) :
    ∃ mappings, l.foldl (fun c e => c.munmap e.map) c =
      { lib := { c.lib with mappings := mappings }
        released := c.released ++ (l.map (·.map)).map .stack } := by
  induction l generalizing c with
  | nil => exact ⟨c.lib.mappings, by simp⟩
  | cons e rest ih =>
      obtain ⟨mappings, heq⟩ := ih (c.munmap e.map)
      refine ⟨mappings, ?_⟩
      rw [List.foldl_cons, heq]
      simp [munmap]

theorem foldl_free (l : List Tid) (c : Cleanup) :
    ∃ heap, l.foldl free c =
      { lib := { c.lib with heap := heap }
        released := c.released ++ l.map .struct } := by
  induction l generalizing c with
  | nil => exact ⟨c.lib.heap, by simp⟩
  | cons t rest ih =>
      obtain ⟨heap, heq⟩ := ih (c.free t)
      refine ⟨heap, ?_⟩
      rw [List.foldl_cons, heq]
      simp [free]

/-- The head of the zombie queue is taken out and released. -/
theorem freeZombie_eq {c : Cleanup} {t : Tid} {rest : List Tid}
    (hq : c.lib.zombieQueue = t :: rest) :
    ∃ heap mappings, c.freeZombie t =
      { lib := { c.lib with zombieQueue := rest, heap := heap, mappings := mappings }
        released := c.released ++ zombieDisposals c.lib.threads t } := by
  unfold freeZombie zombieDisposals
  cases hmap : (c.lib.threads t).stackMap with
  | none => exact ⟨c.lib.heap.erase t, c.lib.mappings, by simp [free, hq, hmap]⟩
  | some map =>
      exact ⟨c.lib.heap.erase t, c.lib.mappings.erase map, by simp [free, munmap, hq, hmap]⟩

theorem freeZombies_eq (c : Cleanup) :
    ∃ heap mappings, c.freeZombies =
      { lib := { c.lib with zombieQueue := [], heap := heap, mappings := mappings }
        released := c.released ++ c.lib.zombieQueue.flatMap (zombieDisposals c.lib.threads) } := by
  unfold freeZombies
  generalize hq : c.lib.zombieQueue = l
  induction l generalizing c with
  | nil =>
      have hempty : ({ c.lib with zombieQueue := [] } : State) = c.lib := by rw [← hq]
      exact ⟨c.lib.heap, c.lib.mappings, by simp [hempty]⟩
  | cons t rest ih =>
      obtain ⟨heap, mappings, heq⟩ := freeZombie_eq hq
      obtain ⟨heap', mappings', heq'⟩ := ih (c.freeZombie t) (by rw [heq])
      refine ⟨heap', mappings', ?_⟩
      rw [List.foldl_cons, heq', heq]
      simp

/-- Deferred stacks go to the pool, or to the kernel when the pool is full. -/
theorem reclaimDeferredStacksBatch_eq (budget : Nat) (c : Cleanup) :
    ∃ pool mappings unmapped, reclaimDeferredStacksBatch budget c =
        { lib := { c.lib with
            deferredStacks := c.lib.deferredStacks.drop budget
            stackPool := pool
            mappings := mappings }
          released := c.released ++ (unmapped.map (·.map)).map .stack } ∧
      (unmapped ++ pool).Perm (c.lib.deferredStacks.take budget ++ c.lib.stackPool) := by
  induction budget generalizing c with
  | zero => exact ⟨c.lib.stackPool, c.lib.mappings, [], by simp [reclaimDeferredStacksBatch]⟩
  | succ budget ih =>
      unfold reclaimDeferredStacksBatch
      cases hd : c.lib.deferredStacks with
      | nil =>
          have hempty : ({ c.lib with deferredStacks := [] } : State) = c.lib := by rw [← hd]
          exact ⟨c.lib.stackPool, c.lib.mappings, [], by simp [hempty]⟩
      | cons e rest =>
          obtain ⟨pool, mappings, unmapped, heq, hperm⟩ :=
            ih (stackPoolPush { c with lib := { c.lib with deferredStacks := rest } } e)
          dsimp only
          rw [heq]
          unfold stackPoolPush UserThreads.stackPoolPush at hperm ⊢
          by_cases hfull : maxPooledStacks ≤ c.lib.stackPool.length
          · simp only [hfull, if_true] at hperm ⊢
            refine ⟨pool, mappings, e :: unmapped, by simp, ?_⟩
            simpa using hperm.cons e
          · simp only [hfull, if_false] at hperm ⊢
            refine ⟨pool, mappings, unmapped, by simp, hperm.trans ?_⟩
            simp

/-! The two handlers. -/

/-- Nothing is left for `thread_pool_free_all`. -/
structure Drained (s : State) : Prop where
  deferred : s.deferredStacks = []
  threads : s.threadPool = []
  chunks : s.headRefChunksCount = 0
  array : s.headRefChunksCap = 0

theorem threadPoolFreeAll_account {c : Cleanup}
    (hle : c.lib.deferredStacks.length ≤ maxDeferredStacks) :
    c.threadPoolFreeAll.account.Perm c.account ∧ Drained c.threadPoolFreeAll.lib := by
  obtain ⟨pool, mappings, unmapped, hreclaim, hperm⟩ :=
    reclaimDeferredStacksBatch_eq maxDeferredStacks c
  rw [List.drop_eq_nil_of_le hle] at hreclaim
  rw [List.take_of_length_le hle] at hperm
  obtain ⟨heap, hfree⟩ := foldl_free c.reclaimDeferredStacksAll.lib.threadPool.reverse
    c.reclaimDeferredStacksAll
  have heq : c.threadPoolFreeAll =
      { lib := { c.lib with
          deferredStacks := []
          stackPool := pool
          mappings := mappings
          threadPool := []
          heap := heap
          headRefChunksCount := 0
          headRefChunksCap := 0
          headRefActiveChunk := none
          headRefActiveIndex := 0 }
        released := c.released ++ (unmapped.map (·.map)).map .stack ++
          c.lib.threadPool.reverse.map .struct ++
          (List.range c.lib.headRefChunksCount).map .headRefChunk ++
          if c.lib.headRefChunksCap = 0 then [] else [.headRefChunks] } := by
    unfold threadPoolFreeAll freeHeadRefs freeThreadPool
    rw [hfree]
    unfold reclaimDeferredStacksAll
    rw [hreclaim]
  rw [heq]
  refine ⟨?_, rfl, rfl, rfl, rfl⟩
  rw [List.perm_iff_count]
  intro d
  have hcount := ((hperm.map (·.map)).map Disposal.stack).count_eq d
  have hreverse := ((List.reverse_perm c.lib.threadPool).map Disposal.struct).count_eq d
  simp only [account, State.disposable, State.heldMaps, State.heldObjects, List.map_append,
    List.count_append] at hcount hreverse ⊢
  simp only [List.map_nil, List.count_nil, List.range_zero, if_true]
  omega

/-- Nothing is left for `do_final_cleanup`, and what `thread_pool_free_all` is
to release is untouched. -/
structure Swept (s s' : State) : Prop where
  zombies : s'.zombieQueue = []
  pool : s'.stackPool = []
  deferred : s'.deferredStacks = s.deferredStacks
  threads : s'.threadPool = s.threadPool
  chunks : s'.headRefChunksCount = s.headRefChunksCount
  array : s'.headRefChunksCap = s.headRefChunksCap

theorem doFinalCleanup_account (c : Cleanup) :
    c.doFinalCleanup.account.Perm c.account ∧ Swept c.lib c.doFinalCleanup.lib := by
  obtain ⟨heap, mappings, hzombies⟩ := freeZombies_eq c
  obtain ⟨mappings', hstacks⟩ := foldl_munmap c.freeZombies.lib.stackPool.reverse c.freeZombies
  have heq : c.doFinalCleanup =
      { lib := { c.lib with
          zombieQueue := []
          stackPool := []
          heap := heap
          mappings := mappings' }
        released := c.released ++ c.lib.zombieQueue.flatMap (zombieDisposals c.lib.threads) ++
          (c.lib.stackPool.reverse.map (·.map)).map .stack } := by
    unfold doFinalCleanup stackPoolFreeAll
    rw [hstacks, hzombies]
  rw [heq]
  refine ⟨?_, rfl, rfl, rfl, rfl, rfl, rfl⟩
  rw [List.perm_iff_count]
  intro d
  have hreverse := (((List.reverse_perm c.lib.stackPool).map (·.map)).map
    Disposal.stack).count_eq d
  have hcount := (zombieDisposals_perm c.lib.threads c.lib.zombieQueue).count_eq d
  simp only [account, State.disposable, State.heldMaps, State.heldObjects, List.map_append,
    List.count_append] at hreverse hcount ⊢
  simp only [List.map_nil, List.count_nil, List.filterMap_nil]
  omega

/-- With both handlers done nothing is held any more. -/
theorem disposable_nil {s s' : State} (hd : Drained s) (hs : Swept s s') : s'.disposable = [] := by
  unfold State.disposable State.heldMaps State.heldObjects
  rw [hs.zombies, hs.pool, hs.deferred, hs.threads, hs.chunks, hs.array, hd.deferred, hd.threads,
    hd.chunks, hd.array]
  rfl

/-- `thread_pool_free_all`, once for each registration. -/
theorem threadPoolFreeAll_repeated (n : Nat) {c : Cleanup}
    (hle : c.lib.deferredStacks.length ≤ maxDeferredStacks) :
    let c' := (List.replicate (n + 1) Handler.threadPoolFreeAll).foldl (fun c h => h.run c) c
    c'.account.Perm c.account ∧ Drained c'.lib := by
  induction n generalizing c with
  | zero => exact threadPoolFreeAll_account hle
  | succ n ih =>
      obtain ⟨hperm, hdrained⟩ := threadPoolFreeAll_account hle
      obtain ⟨hperm', hdrained'⟩ := ih (c := c.threadPoolFreeAll) (by rw [hdrained.deferred]; simp)
      exact ⟨hperm'.trans hperm, hdrained'⟩

end Cleanup

/-- Exit handlers registered by at least one `thread_create`. -/
def Registered (handlers : List Handler) : Prop :=
  ∃ n, handlers = List.replicate (n + 1) Handler.threadPoolFreeAll ++ [.doFinalCleanup]

section Exit

open Cleanup

/-- `exit` releases whatever is held. -/
theorem Program.exit_released {x : Program} (hx : Registered x.handlers) {c : Cleanup}
    (hle : c.lib.deferredStacks.length ≤ maxDeferredStacks) :
    (x.exit c).released.Perm c.account := by
  obtain ⟨n, hn⟩ := hx
  obtain ⟨hperm, hdrained⟩ := threadPoolFreeAll_repeated n hle
  unfold Program.exit
  rw [hn, List.foldl_append]
  generalize (List.replicate (n + 1) Handler.threadPoolFreeAll).foldl (fun c h => h.run c) c = c₁
    at hperm hdrained
  obtain ⟨hperm', hswept⟩ := doFinalCleanup_account c₁
  have hempty := disposable_nil hdrained hswept
  have hall : c₁.doFinalCleanup.account = c₁.doFinalCleanup.released := by
    rw [account, hempty, List.append_nil]
  have hfinal : c₁.doFinalCleanup.released.Perm c.account := by
    rw [← hall]
    exact hperm'.trans hperm
  exact hfinal

/-- So does the end of the last thread, with one more cleanup before. -/
theorem Program.threadSwitchToCleanup_released {x : Program} (hx : Registered x.handlers)
    {c : Cleanup} (hle : c.lib.deferredStacks.length ≤ maxDeferredStacks) :
    (x.threadSwitchToCleanup c).released.Perm c.account := by
  obtain ⟨hperm, hswept⟩ := doFinalCleanup_account c
  have hle' : c.doFinalCleanup.lib.deferredStacks.length ≤ maxDeferredStacks := by
    rw [hswept.deferred]
    exact hle
  exact (exit_released hx hle').trans hperm

end Exit

end UserThreads
