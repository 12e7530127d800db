import UserThreads.Model.Step

/-!
# The end of the process

`free_zombies` and `do_final_cleanup` of `thread_gc.c`, `thread_pool_free_all`
of `thread.c`, `stack_pool_free_all` of `pool.c`, and the registration of the
two exit handlers in `thread_create`. Every `munmap` and `free` they make is
recorded.
-/

namespace UserThreads

/-- One `munmap` or `free`: of a stack mapping, of a thread struct, of a chunk of
head slots, or of the array of chunks. -/
inductive Disposal where
  | stack (map : Addr)
  | struct (t : Tid)
  | headRefChunk (chunk : Nat)
  | headRefChunks
  deriving DecidableEq

/-- The process while it ends, with what it has released, the earliest first. -/
structure Cleanup where
  lib : State
  released : List Disposal

namespace Cleanup

/-- `munmap` of a stack. -/
def munmap (c : Cleanup) (map : Addr) : Cleanup where
  lib := { c.lib with mappings := c.lib.mappings.erase map }
  released := c.released ++ [.stack map]

/-- `free` of a thread struct. -/
def free (c : Cleanup) (t : Tid) : Cleanup where
  lib := { c.lib with heap := c.lib.heap.erase t }
  released := c.released ++ [.struct t]

/-- `stack_pool_push`, with the `munmap` it makes when the pool is full. -/
def stackPoolPush (c : Cleanup) (entry : StackEntry) : Cleanup where
  lib := UserThreads.stackPoolPush c.lib entry
  released := if maxPooledStacks ≤ c.lib.stackPool.length then c.released ++ [.stack entry.map]
    else c.released

/-- `reclaim_deferred_stacks_batch`. -/
def reclaimDeferredStacksBatch : Nat → Cleanup → Cleanup
  | 0, c => c
  | budget + 1, c =>
      match c.lib.deferredStacks with
      | [] => c
      | e :: rest =>
          reclaimDeferredStacksBatch budget
            (stackPoolPush { c with lib := { c.lib with deferredStacks := rest } } e)

/-- `reclaim_deferred_stacks_all`. -/
def reclaimDeferredStacksAll (c : Cleanup) : Cleanup :=
  reclaimDeferredStacksBatch maxDeferredStacks c

/-- The loop of `thread_pool_free_all` over the recycled structs, from the
bottom of the array. -/
def freeThreadPool (c : Cleanup) : Cleanup :=
  let c := c.lib.threadPool.reverse.foldl free c
  { c with lib := { c.lib with threadPool := [] } }

/-- The part of `thread_pool_free_all` that frees the head slots. The array of
chunks is `NULL` as long as its capacity is 0. -/
def freeHeadRefs (c : Cleanup) : Cleanup where
  lib := { c.lib with
    headRefChunksCount := 0
    headRefChunksCap := 0
    headRefActiveChunk := none
    headRefActiveIndex := 0 }
  released := c.released ++ (List.range c.lib.headRefChunksCount).map .headRefChunk ++
    if c.lib.headRefChunksCap = 0 then [] else [.headRefChunks]

/-- `thread_pool_free_all`. -/
def threadPoolFreeAll (c : Cleanup) : Cleanup :=
  c.reclaimDeferredStacksAll.freeThreadPool.freeHeadRefs

/-- One turn of the loop of `free_zombies`. -/
def freeZombie (c : Cleanup) (t : Tid) : Cleanup :=
  let c := { c with lib := { c.lib with zombieQueue := c.lib.zombieQueue.erase t } }
  let c := match (c.lib.threads t).stackMap with
    | none => c
    | some map => c.munmap map
  c.free t

/-- `free_zombies`. The queue is empty before its first use. -/
def freeZombies (c : Cleanup) : Cleanup := c.lib.zombieQueue.foldl freeZombie c

/-- `stack_pool_free_all`. -/
def stackPoolFreeAll (c : Cleanup) : Cleanup :=
  let c := c.lib.stackPool.reverse.foldl (fun c e => c.munmap e.map) c
  { c with lib := { c.lib with stackPool := [] } }

/-- `do_final_cleanup`. -/
def doFinalCleanup (c : Cleanup) : Cleanup := c.freeZombies.stackPoolFreeAll

end Cleanup

/-- The functions that the library registers with `atexit`. -/
inductive Handler where
  | doFinalCleanup
  | threadPoolFreeAll
  deriving DecidableEq

def Handler.run : Handler → Cleanup → Cleanup
  | .doFinalCleanup => Cleanup.doFinalCleanup
  | .threadPoolFreeAll => Cleanup.threadPoolFreeAll

/-- `thread_cleanup_register`: once. -/
def threadCleanupRegister (handlers : List Handler) : List Handler :=
  if .doFinalCleanup ∈ handlers then handlers else .doFinalCleanup :: handlers

/-- The registrations of a step, the latest first. `thread_create` registers
before it asks for the main thread's head slot, so again when that has failed. -/
def register (s : State) (i : Input) (handlers : List Handler) : List Handler :=
  match i with
  | .call (.threadCreate true true) _ =>
      if s.schedulerInitialized then handlers
      else .threadPoolFreeAll :: threadCleanupRegister handlers
  | _ => handlers

/-- The library, and the exit handlers registered so far. -/
structure Program where
  lib : State
  handlers : List Handler

/-- The program when `main` starts. -/
def Program.initial : Program where
  lib := State.initial
  handlers := []

/-- One stretch of execution. -/
def Program.step (b : Build) (x : Program) (i : Input) : Option Program :=
  (UserThreads.step b x.lib i).map fun s =>
    { lib := s, handlers := register x.lib i x.handlers }

/-- `exit`: the handlers run in the reverse order of their registration. -/
def Program.exit (x : Program) (c : Cleanup) : Cleanup :=
  x.handlers.foldl (fun c h => h.run c) c

/-- `thread_switch_to_cleanup`: the cleanup runs on its own stack, and `exit`
follows when it returns. -/
def Program.threadSwitchToCleanup (x : Program) (c : Cleanup) : Cleanup :=
  x.exit c.doFinalCleanup

/-- The input makes the running thread call `thread_exit`: it asks for it, or it
overflows its stack and the fault handler does. -/
def Exits (b : Build) (s : State) : Input → Prop
  | .call (.threadExit _) _ => True
  | .call .guardPageFault _ =>
      b.overflowDetection = true ∧ (s.threads s.currentThread).stackMap ≠ none
  | _ => False

/-- The process ends: a thread calls `exit`, or the last thread that can run
exits. The state is that in which the cleanup starts. -/
inductive Ends (b : Build) (x : Program) : State → Cleanup → Prop
  | exit {x' : Program} (e : Env) (hs : x.step b (.call .exit e) = some x') :
      Ends b x x'.lib (x'.exit ⟨x'.lib, []⟩)
  | lastExit {x' : Program} (i : Input) (hi : Exits b x.lib i) (hs : x.step b i = some x')
      (hended : x'.lib.ended = true) :
      Ends b x x'.lib (x'.threadSwitchToCleanup ⟨x'.lib, []⟩)

end UserThreads
