import UserThreads.History.Slots
import UserThreads.Operations.WritesStep
import Mathlib.Data.List.Perm.Subperm

/-!
# The memory of a long run

Stacks and structs are recycled: a mapping is made only when the pool is empty,
so their number follows the largest number in use at a time and not the number
of threads created so far. Head slots are not recycled.
-/

namespace UserThreads

open Transition

/-- The stacks that are in use when the running thread asks for one. In the first
turn of its stack loop the deferred ones have been put back into the pool. -/
def State.stacksInUse (s : State) : Nat :=
  s.ownedStacks.length + if s.running.point.held.isSome then s.deferredStacks.length else 0

/-- The structs of the threads, and those held by threads inside `thread_create`. -/
def State.structsInUse (s : State) : Nat :=
  (s.handles.filter (· ≠ mainThread)).length + s.heldStructs.length

/-- What is held afterwards was held before, or the list has been filled up from
at most `used` elements by one. -/
def Takes {α : Type} (used : Nat) (l l' : List α) : Prop :=
  l' ⊆ l ∨ ∃ a kept, l' ⊆ a :: kept ∧ kept.length ≤ used

theorem Takes.length_le {α : Type} {used : Nat} {l l' : List α} (h : Takes used l l')
    (hnd : l'.Nodup) : l'.length ≤ max l.length (used + 1) := by
  rcases h with hsub | ⟨a, kept, hsub, hkept⟩
  · have hle := (hnd.subperm hsub).length_le
    omega
  · have hle := (hnd.subperm hsub).length_le
    rw [List.length_cons] at hle
    omega

section Lengths

variable {s : State}

/-- With an empty pool every mapping is deferred or owned. -/
theorem MemInv.mappings_length (h : MemInv s) (hpool : s.stackPool = []) :
    s.mappings.length = s.deferredStacks.length + s.ownedStacks.length := by
  have hlength := h.mapped.length_eq
  simpa [hpool] using hlength

/-- With an empty pool every struct is in use. -/
theorem MemInv.heap_length (h : MemInv s) (hpool : s.threadPool = []) :
    s.heap.length = s.structsInUse := by
  have hlength := h.structs.length_eq
  simpa [hpool, State.structsInUse] using hlength

end Lengths

/-! Creation. -/

section Create

variable {s : State}

/-- The pool is tried first. -/
theorem stackPoolAlloc_mappings (b : Build) (s : State) (e : StackEnv) :
    (stackPoolAlloc b s e).1.heap = s.heap ∧ ((stackPoolAlloc b s e).1.mappings = s.mappings ∨
      s.stackPool = [] ∧ ∃ a, (stackPoolAlloc b s e).1.mappings = a :: s.mappings) := by
  unfold stackPoolAlloc
  split
  next => exact ⟨rfl, Or.inl rfl⟩
  next hpool =>
    split
    next => exact ⟨rfl, Or.inl rfl⟩
    next map hmap =>
      split
      · exact ⟨rfl, Or.inl rfl⟩
      · exact ⟨rfl, Or.inr ⟨hpool, map, rfl⟩⟩

/-- A turn of the stack loop maps at most one stack, and only when the pool is
empty. -/
theorem createLoop_memory (b : Build) (s : State) (n : Tid) (r : Nat) (e : Env) :
    (createLoop b s n r e).1.heap ⊆ s.heap ∧ ((createLoop b s n r e).1.mappings ⊆ s.mappings ∨
      s.stackPool = [] ∧ ∃ a, (createLoop b s n r e).1.mappings ⊆ a :: s.mappings) := by
  -- What follows the allocation takes no memory, whatever call it is part of.
  have hrest : Shrinks (stackPoolAlloc b s e.stack).1 (createLoop b s n r e).1 := by
    unfold createLoop
    rcases halloc : stackPoolAlloc b s e.stack with ⟨s', _ | entry⟩
    · have hreclaim : Writes (.plain .threadYield) s' (reclaimDeferredStacksAll s') :=
        .reclaimDeferredStacksAll s'
      dsimp only
      split
      · exact Writes.shrinks (hreclaim.trans ((Writes.threadObjRelease _ n).trans
          (Writes.setErrno _ _))) rfl
      · exact Writes.shrinks (hreclaim.trans ((Writes.setPoint _ _ _).trans
          (Writes.threadYield b.policy _ _))) rfl
    · have hcreate : Writes (.plain .threadYield) s' (createThread b.policy s' n entry e.slot).1 :=
        .createThread b.policy s' n entry e.slot
      exact hcreate.shrinks rfl
  obtain ⟨hheap, hmappings⟩ := stackPoolAlloc_mappings b s e.stack
  refine ⟨hheap ▸ hrest.heap, ?_⟩
  rcases hmappings with hsame | ⟨hpool, a, hnew⟩
  · exact Or.inl (hsame ▸ hrest.mappings)
  · exact Or.inr ⟨hpool, a, hnew ▸ hrest.mappings⟩

theorem reclaimDeferredStacksBatch_deferred (budget : Nat) (s : State) :
    (reclaimDeferredStacksBatch budget s).deferredStacks = s.deferredStacks.drop budget := by
  induction budget generalizing s with
  | zero => rfl
  | succ budget ih =>
      unfold reclaimDeferredStacksBatch
      split
      next hd => simp [hd]
      next e rest hd =>
        rw [ih, stackPoolPush_eq, hd]
        rfl

/-- After a reclamation nothing is deferred. -/
theorem reclaimDeferredStacksAll_deferred (h : MemInv s) :
    (reclaimDeferredStacksAll s).deferredStacks = [] := by
  unfold reclaimDeferredStacksAll
  rw [reclaimDeferredStacksBatch_deferred]
  exact List.drop_eq_nil_of_le h.deferred_le

/-- The set-up moves neither a struct nor a stack. -/
theorem schedulerInit_places (s : State) (e : SlotEnv) :
    (schedulerInit s e).1.places = s.places ∧
      (schedulerInit s e).1.currentThread = s.currentThread ∧
      ∀ t, ((schedulerInit s e).1.threads t).stackMap = (s.threads t).stackMap ∧
        ((schedulerInit s e).1.threads t).point = (s.threads t).point := by
  have hslot : ∀ owner, (threadHeadRefAlloc s owner e).1.places = s.places ∧
      (threadHeadRefAlloc s owner e).1.currentThread = s.currentThread ∧
      (threadHeadRefAlloc s owner e).1.threads = s.threads := by
    intro owner
    unfold threadHeadRefAlloc threadHeadRefAlloc.newChunk
    repeat' split
    all_goals exact ⟨rfl, rfl, rfl⟩
  have hhead : ∀ (s' : State) (ref : Option SlotRef) (t : Tid),
      ((s'.modifyThread mainThread fun th => { th with headJoiner := ref }).threads t).stackMap =
          (s'.threads t).stackMap ∧
        ((s'.modifyThread mainThread fun th => { th with headJoiner := ref }).threads t).point =
          (s'.threads t).point := fun s' ref t =>
    ⟨proj_update Thread.stackMap (by rfl) t, proj_update Thread.point (by rfl) t⟩
  unfold schedulerInit
  split
  · exact ⟨rfl, rfl, fun _ => ⟨rfl, rfl⟩⟩
  · obtain ⟨hplaces, hcur, hthreads⟩ := hslot mainThread
    rcases halloc : threadHeadRefAlloc s mainThread e with ⟨s', o⟩
    rw [halloc] at hplaces hcur hthreads
    rw [← show s'.threads = s.threads from hthreads]
    cases o with
    | none => exact ⟨hplaces, hcur, hhead s' none⟩
    | some ref => exact ⟨hplaces, hcur, hhead s' (some ref)⟩

/-- `malloc` is called when the pool is empty. -/
theorem threadAlloc_heap (s : State) (fresh : Option Tid) :
    (threadAlloc s fresh).1.handles = s.handles ∧ ((threadAlloc s fresh).1.heap = s.heap ∨
      s.threadPool = [] ∧ ∃ t, (threadAlloc s fresh).1.heap = t :: s.heap) := by
  unfold threadAlloc
  split
  next => exact ⟨rfl, Or.inl rfl⟩
  next hpool =>
    split
    next => exact ⟨rfl, Or.inl rfl⟩
    next t => exact ⟨rfl, Or.inr ⟨hpool, t, rfl⟩⟩

/-- A thread inside its stack loop takes at most one stack. -/
theorem createLoop_takes (h : MemInv s) (b : Build) (n : Tid) (r : Nat) (e : Env) :
    Takes (s.deferredStacks.length + s.ownedStacks.length) s.mappings
      (createLoop b s n r e).1.mappings := by
  obtain ⟨-, hsub | ⟨hpool, a, hsub⟩⟩ := createLoop_memory b s n r e
  · exact Or.inl hsub
  · exact Or.inr ⟨a, s.mappings, hsub, (h.mappings_length hpool).le⟩

/-- What `thread_create` does to the memory once it holds a struct. -/
theorem createFrom_takes (h : Inv s) (b : Build) (n : Tid) (e : Env) :
    (createLoop b (if s.stackPool = [] ∧ s.deferredStacks ≠ [] then reclaimDeferredStacksAll s
        else s) n 0 e).1.heap ⊆ s.heap ∧
      Takes s.ownedStacks.length s.mappings
        (createLoop b (if s.stackPool = [] ∧ s.deferredStacks ≠ [] then reclaimDeferredStacksAll s
          else s) n 0 e).1.mappings := by
  obtain ⟨hmoves, pool, mappings, deferred, hsub, heq⟩ :=
    reclaimDeferredStacksBatch_moves (i := .resume .plain) maxDeferredStacks s
  by_cases hempty : s.stackPool = [] ∧ s.deferredStacks ≠ []
  · rw [if_pos hempty]
    have hdeferred := reclaimDeferredStacksAll_deferred h.mem
    have hinv : Inv (reclaimDeferredStacksAll s) := h.moves hmoves
    have htakes := createLoop_takes hinv.mem b n 0 e
    have howned : (reclaimDeferredStacksAll s).ownedStacks = s.ownedStacks := by
      unfold reclaimDeferredStacksAll
      rw [heq]
      rfl
    have hless : (reclaimDeferredStacksAll s).mappings ⊆ s.mappings := by
      unfold reclaimDeferredStacksAll
      rw [heq]
      exact hsub
    have hheap : (reclaimDeferredStacksAll s).heap = s.heap := by
      unfold reclaimDeferredStacksAll
      rw [heq]
    rw [hdeferred, howned, List.length_nil, Nat.zero_add] at htakes
    refine ⟨?_, ?_⟩
    · rw [← hheap]
      exact (createLoop_memory b _ n 0 e).1
    · exact htakes.imp_left fun hkept => List.Subset.trans hkept hless
  · rw [if_neg hempty]
    refine ⟨(createLoop_memory b s n 0 e).1, ?_⟩
    obtain ⟨-, hsame | ⟨hpool, a, hnew⟩⟩ := createLoop_memory b s n 0 e
    · exact Or.inl hsame
    · have hnone : s.deferredStacks = [] := by
        by_contra hne
        exact hempty ⟨hpool, hne⟩
      refine Or.inr ⟨a, s.mappings, hnew, ?_⟩
      rw [h.mem.mappings_length hpool, hnone, List.length_nil, Nat.zero_add]

theorem threadCreate_takes (h : Inv s) (hrun : s.running.state = .running)
    (huser : s.running.point = .user) {e : Env} (hfresh : e.Fresh s) (b : Build) :
    Takes s.structsInUse s.heap (threadCreate b s true true e).1.heap ∧
      Takes s.ownedStacks.length s.mappings (threadCreate b s true true e).1.mappings := by
  obtain ⟨hplaces, hcur, hrecords⟩ := schedulerInit_places s e.mainSlot
  obtain ⟨hmoves, hrun₁, huser₁, -, -⟩ :=
    schedulerInit_moves (i := .resume .plain) h hrun huser e.mainSlot
  have h₁ := h.moves hmoves
  have hset := schedulerInit_initialized (s := s) (e := e.mainSlot)
  unfold threadCreate
  rw [if_neg (by simp)]
  generalize schedulerInit s e.mainSlot = init at hplaces hcur hrecords hrun₁ huser₁ h₁ hset
  obtain ⟨s₁, ok⟩ := init
  simp only [State.places, Prod.mk.injEq] at hplaces
  obtain ⟨hhandles, hheap, hpool, hmap, hstack, hdef⟩ := hplaces
  have howned : s₁.ownedStacks = s.ownedStacks := by
    unfold State.ownedStacks
    rw [hhandles]
    exact gather_congr fun t _ => (hrecords t).1
  have hused : s₁.structsInUse = s.structsInUse := by
    unfold State.structsInUse State.heldStructs
    rw [hhandles]
    congr 2
    exact gather_congr fun t _ => congrArg Point.held (hrecords t).2
  cases ok with
  | false => exact ⟨Or.inl (hheap ▸ List.Subset.refl _), Or.inl (hmap ▸ List.Subset.refl _)⟩
  | true =>
      have hfreshStruct : ∀ t ∈ e.thread, t ≠ mainThread ∧ t ∉ s₁.heap := by
        rw [hheap]
        exact hfresh.1
      rw [← hheap, ← hmap, ← howned, ← hused]
      cases halloc : (threadAlloc s₁ e.thread).2 with
      | none =>
          simp only [threadAlloc_none halloc]
          exact ⟨Or.inl (List.Subset.refl _), Or.inl (List.Subset.refl _)⟩
      | some n =>
          obtain ⟨hmoves₂, hcur₂, hmap₂, -⟩ := threadAlloc_moves (i := .resume .plain) hrun₁ huser₁
            hfreshStruct halloc (hset rfl)
          have h₂ := h₁.moves hmoves₂
          have hpair : threadAlloc s₁ e.thread = ((threadAlloc s₁ e.thread).1, some n) := by
            rw [← halloc]
          obtain ⟨hheap₂, htakes⟩ := createFrom_takes h₂ b n e
          obtain ⟨hhandles₂, hstruct⟩ := threadAlloc_heap s₁ e.thread
          have howned₂ : ((threadAlloc s₁ e.thread).1.setPoint s₁.currentThread
              (.create n 0)).ownedStacks = s₁.ownedStacks := by
            have hthreads := (schedule_threadAlloc s₁ e.thread).2
            unfold State.ownedStacks State.setPoint State.modifyThread
            dsimp only
            rw [hhandles₂, hthreads]
            exact gather_congr fun t _ => proj_update Thread.stackMap (by rfl) t
          dsimp only
          rw [hpair]
          simp only [hcur₂]
          rw [howned₂, show ((threadAlloc s₁ e.thread).1.setPoint s₁.currentThread
            (.create n 0)).mappings = s₁.mappings from hmap₂] at htakes
          refine ⟨?_, htakes⟩
          rcases hstruct with hsame | ⟨hnone, t, hnew⟩
          · exact Or.inl (hsame ▸ hheap₂)
          · exact Or.inr ⟨t, s₁.heap, hnew ▸ hheap₂, (h₁.mem.heap_length hnone).le⟩

theorem finish_memory {c : Call} {r : State × Option Int} :
    (finish c r).heap = r.1.heap ∧ (finish c r).mappings = r.1.mappings := by
  obtain ⟨s', _ | code⟩ := r
  · exact ⟨rfl, rfl⟩
  · exact ⟨rfl, rfl⟩

end Create

/-- A step takes at most one struct and one stack, next to those in use. -/
theorem step_takes {b : Build} {s s' : State} {i : Input} (h : Sound s)
    (hs : step b s i = some s') :
    Takes s.structsInUse s.heap s'.heap ∧ Takes s.stacksInUse s.mappings s'.mappings := by
  have hrun := h.runs (ended_of_step hs)
  by_cases hcreate : ∃ e, i = .call (.threadCreate true true) e
  · obtain ⟨e, rfl⟩ := hcreate
    obtain ⟨huser, hfresh, rfl⟩ := step_call_fresh hs
    have hused : s.stacksInUse = s.ownedStacks.length := by
      simp [State.stacksInUse, huser, Point.held]
    rw [hused, finish_memory.1, finish_memory.2]
    exact threadCreate_takes h.inv hrun huser hfresh b
  by_cases hloop : ∃ n r, s.running.point = .create n r
  · obtain ⟨n, r, hk⟩ := hloop
    cases i with
    | call c e =>
        obtain ⟨huser, -⟩ := step_call hs
        rw [huser] at hk
        cases hk
    | resume e =>
        have hresume := step_resume hs
        rw [hk] at hresume
        obtain rfl := Option.some.inj hresume
        have hused : s.stacksInUse = s.deferredStacks.length + s.ownedStacks.length := by
          simp [State.stacksInUse, hk, Point.held, Nat.add_comm]
        rw [hused, finish_memory.1, finish_memory.2]
        exact ⟨Or.inl (createLoop_memory b s n r e).1, createLoop_takes h.inv.mem b n r e⟩
  · have hshrinks := step_shrinks hs (fun e he => hcreate ⟨e, he⟩) fun n r hk => hloop ⟨n, r, hk⟩
    exact ⟨Or.inl hshrinks.heap, Or.inl hshrinks.mappings⟩

/-! Head slots. -/

/-- The thread ids and the slots handed out so far. -/
def State.slotCounters (s : State) : Nat × Nat := (s.nextThreadId, s.slotFrontier)

/-- Each thread that has been created has taken a slot of its own. -/
def State.SlotsTaken (s : State) : Prop := s.nextThreadId ≤ s.slotFrontier + 1

/-- Between `s` and `s'` slots have only been handed out, and the threads that have
come got theirs then. -/
structure SlotsFresh (s s' : State) : Prop where
  frontier : s.slotFrontier ≤ s'.slotFrontier
  given : ∀ x ∈ s'.handles, x ∉ s.handles →
    ∃ r, s'.slotOf x = some r ∧ s.slotFrontier ≤ r ∧ r < s'.slotFrontier

theorem SlotTaken.frontier_lt {s s' : State} {owner : Tid} {ref : SlotRef}
    (h : SlotTaken s s' owner ref) : s.slotFrontier < s'.slotFrontier :=
  Nat.lt_of_le_of_lt h.2.1 h.2.2.1

section Slots

variable {i : Input} {m : MutexId} {s s₁ s' : State}

theorem Acquire.slotCounters {k : Point} (ha : Acquire m k s s') :
    s'.slotCounters = s.slotCounters := by
  cases ha <;> rfl

theorem Release.slotCounters (hr : Release m s s') : s'.slotCounters = s.slotCounters := by
  cases hr <;> rfl

theorem Act.slotCounters (ha : Act i s s') : s'.slotCounters = s.slotCounters := by
  cases ha with
  | lock m e hi huser ha => exact ha.slotCounters
  | unlock m e hi huser hvalid hheld hr => exact hr.slotCounters
  | condWait c m e hi hrun huser hready hr => exact hr.slotCounters
  | condGiveUp c m e hi huser hready hr ha => exact ha.slotCounters.trans hr.slotCounters
  | relock c m e hi hk ha hb =>
      have hlocked := ha.slotCounters
      cases hb <;> exact hlocked
  | _ => rfl

theorem State.SlotsTaken.of_eq (h : s.SlotsTaken) (heq : s'.slotCounters = s.slotCounters) :
    s'.SlotsTaken := by
  obtain ⟨hnext, hfrontier⟩ := Prod.mk.inj heq
  unfold State.SlotsTaken
  rw [hnext, hfrontier]
  exact h

theorem Move.slotsTaken (hm : Move i s s') (h : s.SlotsTaken) : s'.SlotsTaken := by
  cases hm with
  | mainInit ref count cap index active hinit hslot =>
      have hlt := hslot.frontier_lt
      exact Nat.le_succ_of_le (Nat.le_trans h hlt)
  | spawned n r entry rest ref count cap index active rq hrun hk hpool hslot hrq =>
      have hlt := hslot.frontier_lt
      exact Nat.succ_le_succ (Nat.le_trans h hlt)
  | _ => exact h

namespace SlotsFresh

/-- No slot is handed out, and no thread comes. -/
theorem act (ha : Act i s s') : SlotsFresh s s' where
  frontier := (congrArg Prod.snd ha.slotCounters).ge
  given := fun _ hx hnew => absurd (ha.handles.1 ▸ hx) hnew

/-- The threads that have come keep their slots. -/
theorem frame (h : SlotsFresh s s₁) (hsub : s'.handles ⊆ s₁.handles)
    (hslot : ∀ x ∈ s'.handles, s'.slotOf x = s₁.slotOf x)
    (hfrontier : s'.slotFrontier = s₁.slotFrontier) : SlotsFresh s s' where
  frontier := by
    rw [hfrontier]
    exact h.frontier
  given := by
    intro x hx hnew
    rw [hslot x hx, hfrontier]
    exact h.given x (hsub hx) hnew

theorem move (h : SlotsFresh s s₁) (hinv : Inv s₁) (hm : Move i s₁ s') : SlotsFresh s s' := by
  cases hm with
  | claimed t code stored head sp mp tp hp hrun ht hne hdead hzombie hpoint hstored heq =>
      refine h.frame List.erase_subset (fun x hx => ?_) rfl
      have hxt : x ≠ t := (hinv.sched.handles_nodup.mem_erase_iff.mp hx).1
      exact (congrArg Thread.headJoiner (Function.update_of_ne hxt _ _)).trans
        (proj_update Thread.headJoiner (by rfl) x)
  | spawned n r entry rest ref count cap index active rq hrun hk hpool hslot hrq =>
      have hlt := hslot.frontier_lt
      refine ⟨h.frontier.trans hlt.le, fun x hx hnew => ?_⟩
      by_cases hxn : x = n
      · subst x
        refine ⟨ref, by simp [State.slotOf, State.spawn], h.frontier.trans hslot.2.1, ?_⟩
        exact hslot.2.2.1
      · obtain ⟨r', hr', hle, hlt'⟩ := h.given x ((List.mem_cons.mp hx).resolve_left hxn) hnew
        have hsame : ((s₁.slotGiven n ref count cap index active).spawn n entry rest ref rq).slotOf
            x = s₁.slotOf x := spawn_proj Thread.headJoiner rfl hxn
        exact ⟨r', hsame.trans hr', hle, hlt'.trans hlt⟩
  | mainInit ref count cap index active hinit hslot =>
      have hlt := hslot.frontier_lt
      refine ⟨h.frontier.trans hlt.le, fun x hx hnew => ?_⟩
      obtain ⟨r, hr, hle, hlt'⟩ := h.given x hx hnew
      have hxm : x ≠ mainThread := by
        rintro rfl
        rw [State.slotOf, hinv.main.1 hinit] at hr
        cases hr
      have hsame : (Function.update s₁.threads mainThread
          { s₁.threads mainThread with headJoiner := some ref } x).headJoiner = s₁.slotOf x :=
        congrArg Thread.headJoiner (Function.update_of_ne hxm _ _)
      exact ⟨r, hsame.trans hr, hle, hlt'.trans hlt⟩
  | scribble n th hdead hmain =>
      refine h.frame (List.Subset.refl _) (fun x hx => ?_) rfl
      have hne : x ≠ n := fun e => hdead (e ▸ hx)
      exact congrArg Thread.headJoiner (Function.update_of_ne hne _ _)
  | reprioritize f rq hrq => exact h.frame (List.Subset.refl _) (fun _ _ => rfl) rfl
  | _ =>
      first
      | exact h.frame (List.Subset.refl _) (fun _ _ => rfl) rfl
      | exact h.frame (List.Subset.refl _)
          (fun x _ => proj_update Thread.headJoiner (by rfl) x) rfl

theorem step {b : Build} (hsettled : Settled s) (hg : Regular s i)
    (hs : UserThreads.step b s i = some s') : SlotsFresh s s' := by
  have hstart : SlotsFresh s s := ⟨Nat.le_refl _, fun x hx hnew => absurd hx hnew⟩
  exact (hsettled.step (I := SlotsFresh s) hstart hg hs (fun _ ha => act ha)
    fun hwf hI hm => hI.move hwf.inv hm).2

end SlotsFresh

end Slots

/-- The chunks of slots in use. -/
theorem State.SlotsOk.frontier_le {s : State} (h : s.SlotsOk) :
    s.slotFrontier ≤ s.headRefChunksCount * headRefChunkSize := by
  unfold State.slotFrontier
  split
  next => exact Nat.le_refl _
  next chunk hchunk =>
    obtain ⟨hlt, hle⟩ := h chunk hchunk
    unfold headRefChunkSize at *
    omega

/-! The law. -/

/-- The steps of a run with at most `structs` structs and `maps` stacks in use
at a time. -/
def Frugal (structs maps : Nat) (s : State) (i : Input) : Prop :=
  Regular s i ∧ s.structsInUse ≤ structs ∧ s.stacksInUse ≤ maps

instance (structs maps : Nat) (s : State) (i : Input) : Decidable (Frugal structs maps s i) :=
  inferInstanceAs (Decidable (_ ∧ _ ∧ _))

/-- Memory for threads is bounded by what is in use at a time, and one more. There
are slots for all the threads ever created, which `next_thread_id` counts: a new
thread gets a slot above all that have been handed out. -/
structure FootprintLaw (b : Build) (structs maps : Nat) (s : State) : Prop where
  heap : s.heap.length ≤ structs + 1
  mappings : s.mappings.length ≤ maps + 1
  slots : s.nextThreadId - 1 ≤ s.headRefChunksCount * headRefChunkSize
  used : ∀ x ∈ s.handles, ∀ r, s.slotOf x = some r → r < s.slotFrontier
  fresh : ∀ i s', Regular s i → step b s i = some s' → SlotsFresh s s'

/-- However many threads a run creates and joins, it takes no more stacks and
structs than it uses at a time. -/
theorem footprintLaw_of_reach {b : Build} {structs maps : Nat} {s : State}
    (h : Reach (step b) (Frugal structs maps) State.initial s) :
    FootprintLaw b structs maps s := by
  have hregular : RegularReach b s := h.mono fun _ _ hg => hg.1
  have hsound := hregular.sound
  obtain ⟨hsettled, hslots⟩ := Settled.reach (I := State.SlotsTaken) h (fun _ _ hg => hg.1)
    settled_initial (Nat.le_refl 1) (fun _ _ hI _ ha => hI.of_eq ha.slotCounters)
    fun _ hI hm => hm.slotsTaken hI
  have hmemory : s.heap.length ≤ structs + 1 ∧ s.mappings.length ≤ maps + 1 := by
    refine h.invariant (I := fun s => s.heap.length ≤ structs + 1 ∧ s.mappings.length ≤ maps + 1)
      ⟨Nat.zero_le _, Nat.zero_le _⟩ ?_
    rintro s s' i hreach ⟨hheap, hmappings⟩ hg hs
    have hsound : Sound s := RegularReach.sound (hreach.mono fun _ _ hg => hg.1)
    have hmem := (hsound.step hg.1 hs).inv.mem
    obtain ⟨hstructs, hstacks⟩ := step_takes hsound hs
    have hheap' := hstructs.length_le hmem.heap_nodup
    have hmappings' := hstacks.length_le hmem.mappings_nodup
    obtain ⟨-, hless, hless'⟩ := hg
    omega
  refine ⟨hmemory.1, hmemory.2, ?_, (slotInv_of_reach hregular).used,
    fun i s' hg hs => .step hsettled hg hs⟩
  have hfrontier := hsound.inv.slots.frontier_le
  unfold State.SlotsTaken at hslots
  omega

/-- Three threads have been created, one after the other, with one struct and one
stack. -/
theorem footprintLaw_of_reach_recycled : ∃ s, Reach (step .fifo) (Frugal 1 1) State.initial s ∧
    s.nextThreadId = 4 ∧ s.heap.length = 1 ∧ s.mappings.length = 1 ∧
      FootprintLaw .fifo 1 1 s := by
  obtain ⟨s, hreach, hnext, hheap, hmappings⟩ := exists_reach_of_run (step .fifo) (Frugal 1 1)
    State.initial
    [.create 1, .plain (.threadJoin (some 1) true), .go, .plain (.threadExit 7), .go,
      .create 2, .plain (.threadJoin (some 1) true), .go, .plain (.threadExit 8), .go,
      .create 3]
    (fun s => s.nextThreadId = 4 ∧ s.heap.length = 1 ∧ s.mappings.length = 1) (by decide +kernel)
  exact ⟨s, hreach, hnext, hheap, hmappings, footprintLaw_of_reach hreach⟩

end UserThreads
