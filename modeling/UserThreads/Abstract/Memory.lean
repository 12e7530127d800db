import UserThreads.Abstract.Scheduling

/-!
# Every move keeps each struct and each stack in one place

The two permutations of `MemInv` are followed by counting: a move takes one
address out of one list and puts it into another, or into the free memory of
the C library and the kernel.
-/

namespace UserThreads

open Transition

section Counting

variable {α : Type*} {l l₁ l₁' l₂ l₃ l₃' : List α} {a : α}

/-- An element of the first part goes to the front of the second. -/
theorem first_to_second (h : l.Perm (l₁ ++ (l₂ ++ l₃)))
    (h₁ : l₁.Perm (a :: l₁')) : l.Perm (l₁' ++ (a :: l₂ ++ l₃)) :=
  (h.trans (h₁.append_right _)).trans List.perm_middle.symm

variable [DecidableEq α]

/-- A new element enters the whole and the third part. -/
theorem third_enter (h : l.Perm (l₁ ++ (l₂ ++ l₃))) (h₃ : l₃'.Perm (a :: l₃)) :
    (a :: l).Perm (l₁ ++ (l₂ ++ l₃')) := by
  rw [List.perm_iff_count] at *
  intro x
  have hx := h x
  have hx₃ := h₃ x
  simp only [List.count_append, List.count_cons] at *
  omega

/-- An element goes from the third part to the front of the second. -/
theorem third_to_second (h : l.Perm (l₁ ++ (l₂ ++ l₃))) (h₃ : l₃.Perm (a :: l₃')) :
    l.Perm (l₁ ++ (a :: l₂ ++ l₃')) := by
  rw [List.perm_iff_count] at *
  intro x
  have hx := h x
  have hx₃ := h₃ x
  simp only [List.count_append, List.count_cons] at *
  omega

/-- An element goes from the third part to the front of the first. -/
theorem third_to_first (h : l.Perm (l₁ ++ (l₂ ++ l₃))) (h₃ : l₃.Perm (a :: l₃')) :
    l.Perm (a :: l₁ ++ (l₂ ++ l₃')) :=
  (third_to_second h h₃).trans List.perm_middle

/-- The front of the first part goes to the third. -/
theorem first_to_third (h : l.Perm (a :: l₁ ++ (l₂ ++ l₃))) (h₃ : l₃'.Perm (a :: l₃)) :
    l.Perm (l₁ ++ (l₂ ++ l₃')) := by
  have hcons : (a :: (l₁ ++ (l₂ ++ l₃))).Perm (l₁ ++ (l₂ ++ l₃')) :=
    third_enter (List.Perm.refl _) h₃
  exact h.trans hcons

/-- An element of the third part leaves the whole. -/
theorem third_erase (h : l.Perm (l₁ ++ (l₂ ++ l₃))) (h₃ : l₃.Perm (a :: l₃')) :
    (l.erase a).Perm (l₁ ++ (l₂ ++ l₃')) := by
  have hcons : l.Perm (a :: (l₁ ++ (l₂ ++ l₃'))) :=
    (third_to_second h h₃).trans List.perm_middle
  simpa using hcons.erase a

/-- The front of the second part leaves the whole. -/
theorem second_erase (h : l.Perm (l₁ ++ a :: (l₂ ++ l₃))) :
    (l.erase a).Perm (l₁ ++ (l₂ ++ l₃)) := by
  simpa using (h.trans List.perm_middle).erase a

end Counting

namespace MemInv

variable {s s' : State}

/-- Records may change as long as nothing that is held or owned moves. -/
theorem congr (h : MemInv s) (hplaces : s'.places = s.places)
    (hheld : ∀ t ∈ s.handles, (s'.threads t).point.held = (s.threads t).point.held)
    (howned : ∀ t ∈ s.handles, (s'.threads t).stackMap = (s.threads t).stackMap) : MemInv s' := by
  simp only [State.places, Prod.mk.injEq] at hplaces
  obtain ⟨hhandles, hheap, hpool, hmap, hstack, hdef⟩ := hplaces
  have hheld' : s'.heldStructs = s.heldStructs := by
    unfold State.heldStructs
    rw [hhandles]
    exact gather_congr hheld
  have howned' : s'.ownedStacks = s.ownedStacks := by
    unfold State.ownedStacks
    rw [hhandles]
    exact gather_congr howned
  constructor
  · rw [hheap, hhandles, hpool, hheld']
    exact h.structs
  · exact hheap ▸ h.heap_nodup
  · exact hheap ▸ h.main_static
  · rw [hmap, hstack, hdef, howned']
    exact h.mapped
  · exact hmap ▸ h.mappings_nodup
  · intro hmain
    rw [hhandles] at hmain
    rw [howned _ hmain]
    exact h.main_stack hmain
  · exact hpool ▸ h.threadPool_le
  · exact hstack ▸ h.stackPool_le
  · exact hdef ▸ h.deferred_le

/-- A record write that moves neither a struct nor a stack. -/
theorem write (h : MemInv s) {t : Tid} {a : Thread} (hplaces : s'.places = s.places)
    (hthreads : s'.threads = Function.update s.threads t a)
    (hheld : t ∈ s.handles → a.point.held = (s.threads t).point.held)
    (howned : t ∈ s.handles → a.stackMap = (s.threads t).stackMap) : MemInv s' := by
  apply h.congr hplaces <;> rw [hthreads]
  · exact forall_update (P := fun u (th : Thread) => th.point.held = (s.threads u).point.held)
      (fun _ _ => rfl) hheld
  · exact forall_update (P := fun u (th : Thread) => th.stackMap = (s.threads u).stackMap)
      (fun _ _ => rfl) howned

theorem wakeHead (h : MemInv s) {q : QueueId} {t : Tid} {rest rq : List Tid} :
    MemInv (s.wakeHead q t rest rq) :=
  h.write rfl rfl (fun _ => rfl) fun _ => rfl

theorem parkAt (h : MemInv s) {q : QueueId} {k : Point} (hold : s.running.point.Settled)
    (hk : k.queue = some q) : MemInv (s.parkAt q k) :=
  h.write rfl rfl (fun _ => (Point.of_queue hk).2.2.1.trans hold.2.symm) fun _ => rfl

theorem joinAt (h : MemInv s) {t : Tid} {slot : SlotRef} {retval : Bool}
    (huser : s.running.point = .user) (hne : t ≠ s.currentThread) :
    MemInv (s.joinAt t slot retval) := by
  have hjoined : MemInv (s.modifyThread t fun th =>
      { th with joinedBy := some s.currentThread }) :=
    h.write rfl rfl (fun _ => rfl) fun _ => rfl
  have hr : (s.threads s.currentThread).point = .user := huser
  refine hjoined.write rfl rfl (fun _ => ?_) fun _ => ?_
  · simp [State.modifyThread, hne.symm, hr, Point.held]
  · simp [State.modifyThread, hne.symm, State.running]

/-- The running thread takes hold of a struct. -/
theorem held_enter (hs : SchedInv s) {n : Tid} {r : Nat}
    (hold : s.running.point.held = none) :
    (s.setPoint s.currentThread (.create n r)).heldStructs.Perm (n :: s.heldStructs) := by
  refine gather_enter hs.handles_nodup hs.current_mem hold ?_ ?_
  · simp [State.setPoint, State.modifyThread, Point.held]
  · intro u _ hu
    simp [State.setPoint, State.modifyThread, hu]

/-- The running thread lets go of the struct it holds. -/
theorem held_leave (hs : SchedInv s) {n : Tid} (hold : s.running.point.held = some n) :
    s.heldStructs.Perm (n :: (s.setPoint s.currentThread .user).heldStructs) := by
  refine gather_enter hs.handles_nodup hs.current_mem ?_ hold ?_
  · simp [State.setPoint, State.modifyThread, Point.held]
  · intro u _ hu
    simp [State.setPoint, State.modifyThread, hu]

theorem owned_setPoint (k : Point) : (s.setPoint s.currentThread k).ownedStacks = s.ownedStacks :=
  gather_congr fun u _ => by
    by_cases hu : u = s.currentThread
    · subst u
      simp [State.setPoint, State.modifyThread]
    · simp [State.setPoint, State.modifyThread, hu]

theorem main_stack_setPoint (h : MemInv s) (k : Point) (hmain : mainThread ∈ s.handles) :
    ((s.setPoint s.currentThread k).threads mainThread).stackMap = none := by
  rw [← h.main_stack hmain]
  by_cases hu : mainThread = s.currentThread
  · rw [hu]
    simp [State.setPoint, State.modifyThread]
  · simp [State.setPoint, State.modifyThread, hu]

theorem takeStruct (h : MemInv s) (hs : SchedInv s) {n : Tid} {rest : List Tid}
    (huser : s.running.point = .user) (hpool : s.threadPool = n :: rest) :
    MemInv ({ s with threadPool := rest }.setPoint s.currentThread (.create n 0)) := by
  have hheld := held_enter hs (n := n) (r := 0) (by rw [huser]; rfl)
  refine ⟨?_, h.heap_nodup, h.main_static, ?_, h.mappings_nodup, h.main_stack_setPoint _, ?_,
    h.stackPool_le, h.deferred_le⟩
  · refine h.structs.trans (List.Perm.append_left _ ?_)
    rw [hpool]
    exact List.perm_middle.symm.trans (List.Perm.append_left rest hheld.symm)
  · have howned := owned_setPoint (s := s) (.create n 0)
    exact howned ▸ h.mapped
  · have hle := h.threadPool_le
    rw [hpool] at hle
    exact Nat.le_of_succ_le hle

theorem mallocStruct (h : MemInv s) (hs : SchedInv s) {n : Tid} (huser : s.running.point = .user)
    (hmain : n ≠ mainThread) (hfresh : n ∉ s.heap) :
    MemInv ({ s with heap := n :: s.heap }.setPoint s.currentThread (.create n 0)) := by
  have hheld := held_enter hs (n := n) (r := 0) (by rw [huser]; rfl)
  refine ⟨?_, List.nodup_cons.mpr ⟨hfresh, h.heap_nodup⟩, ?_, ?_, h.mappings_nodup,
    h.main_stack_setPoint _, h.threadPool_le, h.stackPool_le, h.deferred_le⟩
  · exact third_enter h.structs hheld
  · exact fun hmem => (List.mem_cons.mp hmem).elim hmain.symm h.main_static
  · have howned := owned_setPoint (s := s) (.create n 0)
    exact howned ▸ h.mapped

/-- A struct on its way out of the library goes to the pool, or to `free`. -/
theorem free_struct (h : MemInv s) {t : Tid} {l₁ l₃ : List Tid}
    (hp : s.heap.Perm (l₁ ++ (t :: s.threadPool ++ l₃))) :
    let pool := if s.threadPool.length < maxPooledThreads then t :: s.threadPool else s.threadPool
    let heap := if s.threadPool.length < maxPooledThreads then s.heap else s.heap.erase t
    heap.Perm (l₁ ++ (pool ++ l₃)) ∧ heap.Nodup ∧ mainThread ∉ heap ∧
      pool.length ≤ maxPooledThreads := by
  by_cases hroom : s.threadPool.length < maxPooledThreads
  · simp only [hroom, if_true]
    exact ⟨hp, h.heap_nodup, h.main_static, hroom⟩
  · simp only [hroom, if_false]
    exact ⟨second_erase hp, h.heap_nodup.erase t,
      fun hmem => h.main_static (List.mem_of_mem_erase hmem), h.threadPool_le⟩

theorem dropStruct (h : MemInv s) (hs : SchedInv s) {n : Tid}
    (hk : s.running.point.held = some n) :
    MemInv (threadFree (s.setPoint s.currentThread .user) n) := by
  have hstructs := h.free_struct (third_to_second h.structs (held_leave hs hk))
  have howned := owned_setPoint (s := s) .user
  rw [threadFree_eq]
  exact ⟨hstructs.1, hstructs.2.1, hstructs.2.2.1, howned ▸ h.mapped, h.mappings_nodup,
    h.main_stack_setPoint _, hstructs.2.2.2, h.stackPool_le, h.deferred_le⟩

theorem reclaim (h : MemInv s) {e : StackEntry} {rest : List StackEntry}
    (hd : s.deferredStacks = e :: rest) :
    MemInv (stackPoolPush { s with deferredStacks := rest } e) := by
  have hstacks := h.mapped
  have hle := h.deferred_le
  rw [hd] at hstacks hle
  simp only [List.map_cons, List.cons_append] at hstacks
  rw [stackPoolPush_eq]
  by_cases hfull : maxPooledStacks ≤ s.stackPool.length
  · simp only [hfull, if_true]
    refine ⟨h.structs, h.heap_nodup, h.main_static, ?_, h.mappings_nodup.erase _, h.main_stack,
      h.threadPool_le, h.stackPool_le, Nat.le_of_succ_le hle⟩
    exact second_erase hstacks
  · simp only [hfull, if_false]
    refine ⟨h.structs, h.heap_nodup, h.main_static, ?_, h.mappings_nodup, h.main_stack,
      h.threadPool_le, Nat.lt_of_not_le hfull, Nat.le_of_succ_le hle⟩
    exact hstacks.trans List.perm_middle

theorem mapStack (h : MemInv s) {e : StackEntry} (hpool : s.stackPool = [])
    (hfresh : e.map ∉ s.mappings) :
    MemInv { s with mappings := e.map :: s.mappings, stackPool := [e] } := by
  refine ⟨h.structs, h.heap_nodup, h.main_static, ?_,
    List.nodup_cons.mpr ⟨hfresh, h.mappings_nodup⟩, h.main_stack, h.threadPool_le,
    by simp [maxPooledStacks], h.deferred_le⟩
  have hstacks := h.mapped
  rw [hpool] at hstacks
  simpa [State.ownedStacks] using hstacks

/-- The stack of a thread leaves its record. -/
theorem owned_leave (hs : SchedInv s) {t : Tid} {map : Addr} {a : Thread} (ht : t ∈ s.handles)
    (hmap : (s.threads t).stackMap = some map) (ha : a.stackMap = none) :
    s.ownedStacks.Perm
      (map :: { s with threads := Function.update s.threads t a }.ownedStacks) := by
  refine gather_enter hs.handles_nodup ht ?_ hmap ?_
  · simp [ha]
  · intro u _ hu
    simp [hu]

theorem deferStack (h : MemInv s) (hs : SchedInv s) {t : Tid} (ht : t ∈ s.handles) :
    MemInv (deferStackReclaim s t) := by
  unfold deferStackReclaim
  split
  · exact h
  next map hmap =>
    split
    next hroom =>
      have howned := owned_leave hs (a := { s.threads t with stackMap := none, stackBase := 0 })
        ht hmap rfl
      refine ⟨?_, h.heap_nodup, h.main_static, ?_, h.mappings_nodup, ?_, h.threadPool_le,
        h.stackPool_le, hroom⟩
      · have hheld : ∀ u ∈ s.handles, (Function.update s.threads t
            { s.threads t with stackMap := none, stackBase := 0 } u).point.held =
              (s.threads u).point.held :=
          forall_update (P := fun u (th : Thread) => th.point.held = (s.threads u).point.held)
            (fun _ _ => rfl) fun _ => rfl
        have hsame := gather_congr hheld
        simp only [State.heldStructs, State.modifyThread]
        rw [hsame]
        exact h.structs
      · exact third_to_second h.mapped howned
      · intro hmain
        have hnone := h.main_stack hmain
        by_cases hmt : mainThread = t
        · rw [hmt, hmap] at hnone
          cases hnone
        · simpa [State.modifyThread, hmt] using hnone
    · exact h

/-- Nothing is held by the claimed thread, and nothing by the claimer. -/
theorem held_claim (hs : SchedInv s) {t : Tid} {f : Tid → Thread}
    (ht : t ∈ s.handles) (hdead : (s.threads t).state = .terminated)
    (hold : s.running.point.held = none) (hcur : (f s.currentThread).point = .user)
    (hsame : ∀ u, u ≠ t → u ≠ s.currentThread → f u = s.threads u) :
    s.heldStructs.Perm ((s.handles.erase t).filterMap fun u => (f u).point.held) := by
  have hdt : (s.threads t).point.held = none := by
    rw [(hs.threads_ok t ht).dead hdead]
    rfl
  refine (gather_erase_none ht hdt).trans (List.Perm.of_eq (gather_congr ?_).symm)
  intro u hu
  have hut := (hs.handles_nodup.mem_erase_iff.mp hu).1
  by_cases huc : u = s.currentThread
  · subst u
    rw [hcur]
    exact hold.symm
  · rw [hsame u hut huc]

/-- The other threads keep their stacks when `t` is claimed. -/
theorem owned_claim (hs : SchedInv s) {t : Tid} {f : Tid → Thread}
    (hcur : (f s.currentThread).stackMap = s.running.stackMap)
    (hsame : ∀ u, u ≠ t → u ≠ s.currentThread → f u = s.threads u) :
    ((s.handles.erase t).filterMap fun u => (s.threads u).stackMap) =
      (s.handles.erase t).filterMap fun u => (f u).stackMap := by
  apply gather_congr
  intro u hu
  have hut := (hs.handles_nodup.mem_erase_iff.mp hu).1
  by_cases huc : u = s.currentThread
  · subst u
    exact hcur.symm
  · rw [hsame u hut huc]

/-- The stack of a thread on its way out goes to the pool, or to `munmap`. -/
theorem free_stack (h : MemInv s) {th : Thread} {owned : List Addr}
    (hsome : ∀ {map}, th.stackMap = some map → s.ownedStacks.Perm (map :: owned))
    (hnone : th.stackMap = none → s.ownedStacks.Perm owned) :
    let pool :=
      if th.stackMap = none ∨ maxPooledStacks ≤ s.stackPool.length then s.stackPool
      else
        { map := th.stackMap.getD 0
          stack := th.stackBase
          valgrindId := th.valgrindStackId } :: s.stackPool
    let mappings :=
      match th.stackMap with
      | none => s.mappings
      | some map => if maxPooledStacks ≤ s.stackPool.length then s.mappings.erase map
          else s.mappings
    mappings.Perm (pool.map (·.map) ++ (s.deferredStacks.map (·.map) ++ owned)) ∧
      mappings.Nodup ∧ pool.length ≤ maxPooledStacks := by
  cases hmap : th.stackMap with
  | none =>
      exact ⟨h.mapped.trans (((hnone hmap).append_left _).append_left _), h.mappings_nodup,
        h.stackPool_le⟩
  | some map =>
      by_cases hfull : maxPooledStacks ≤ s.stackPool.length
      · simp only [hfull, or_true, if_true]
        exact ⟨third_erase h.mapped (hsome hmap), h.mappings_nodup.erase map, h.stackPool_le⟩
      · simp only [hfull, reduceCtorEq, or_false, if_false]
        exact ⟨third_to_first h.mapped (hsome hmap), h.mappings_nodup, Nat.lt_of_not_le hfull⟩

theorem claim (h : MemInv s) (hs : SchedInv s) {t : Tid} {code : Int} {stored : Option Value}
    (ht : t ∈ s.handles) (hne : t ≠ s.currentThread) (hdead : (s.threads t).state = .terminated)
    (hzombie : (s.threads t).inZombieQueue = false) (hold : s.running.point.held = none) :
    MemInv (s.claim t code stored) := by
  have hsame : ∀ u, u ≠ t → u ≠ s.currentThread →
      (s.claim t code stored).threads u = s.threads u :=
    fun u => State.claim_threads_other hne hzombie code stored
  have hback := State.claim_threads_current hne hzombie code stored
  have hheld := held_claim hs ht hdead hold (by rw [hback]) hsame
  have howned := owned_claim hs (by rw [hback]) hsame
  have hmainStack : mainThread ∈ s.handles.erase t →
      ((s.claim t code stored).threads mainThread).stackMap = none := by
    intro hmem
    obtain ⟨hmt, hmem⟩ := hs.handles_nodup.mem_erase_iff.mp hmem
    rw [← h.main_stack hmem]
    by_cases hmc : mainThread = s.currentThread
    · rw [hmc, hback]
      rfl
    · rw [hsame _ hmt hmc]
  by_cases hmain : t = mainThread
  · subst t
    have hfilter : (s.handles.filter (· ≠ mainThread)).Perm
        ((s.handles.erase mainThread).filter (· ≠ mainThread)) := by
      simpa using (List.perm_cons_erase ht).filter (· ≠ mainThread)
    have hmap := gather_erase_none (g := fun u => (s.threads u).stackMap) ht (h.main_stack ht)
    rw [howned] at hmap
    rw [State.claim_main] at hheld hmap hmainStack ⊢
    refine ⟨?_, h.heap_nodup, h.main_static, ?_, h.mappings_nodup, hmainStack, h.threadPool_le,
      h.stackPool_le, h.deferred_le⟩
    · exact h.structs.trans (hfilter.append (hheld.append_left _))
    · exact h.mapped.trans ((hmap.append_left _).append_left _)
  · have hfilter : (s.handles.filter (· ≠ mainThread)).Perm
        (t :: (s.handles.erase t).filter (· ≠ mainThread)) := by
      simpa [hmain] using (List.perm_cons_erase ht).filter (· ≠ mainThread)
    have hstructs := h.free_struct
      (first_to_second (h.structs.trans ((hheld.append_left _).append_left _)) hfilter)
    have hstacks := h.free_stack (gather_erase (g := fun u => (s.threads u).stackMap) ht)
      (gather_erase_none (g := fun u => (s.threads u).stackMap) ht)
    rw [howned] at hstacks
    rw [State.claim_eq hmain hne hzombie, claimTarget_eq hmain hzombie]
      at hstructs hstacks hmainStack ⊢
    exact ⟨hstructs.1, hstructs.2.1, hstructs.2.2.1, hstacks.1, hstacks.2.1, hmainStack,
      hstructs.2.2.2, hstacks.2.2, h.deferred_le⟩

theorem spawn (h : MemInv s) (hs : SchedInv s) {n : Tid} {entry : StackEntry}
    {rest : List StackEntry} (ref : SlotRef) (rq : List Tid)
    (hk : s.running.point.held = some n) (hpool : s.stackPool = entry :: rest) :
    MemInv (s.spawn n entry rest ref rq) := by
  obtain ⟨hn, hmain, -⟩ := h.held_fresh hs.current_mem hk
  have hsame : ∀ u ∈ s.handles, (s.spawn n entry rest ref rq).threads u =
      (s.setPoint s.currentThread .user).threads u := by
    intro u hu
    have hun : u ≠ n := fun e => hn (e ▸ hu)
    simp [State.spawn, State.setPoint, State.modifyThread, State.running, hun]
  have hheld : (s.spawn n entry rest ref rq).heldStructs =
      (s.setPoint s.currentThread .user).heldStructs := by
    have hnew : ((s.spawn n entry rest ref rq).threads n).point.held = none := by
      simp [State.spawn, Point.held]
    change (n :: s.handles).filterMap _ = _
    rw [List.filterMap_cons, hnew]
    refine gather_congr fun u hu => ?_
    rw [hsame u hu]
  have howned : (s.spawn n entry rest ref rq).ownedStacks = entry.map :: s.ownedStacks := by
    have hnew : ((s.spawn n entry rest ref rq).threads n).stackMap = some entry.map := by
      simp [State.spawn, Thread.fresh]
    rw [← owned_setPoint (s := s) .user]
    change (n :: s.handles).filterMap _ = _
    rw [List.filterMap_cons, hnew]
    refine congrArg _ (gather_congr fun u hu => ?_)
    rw [hsame u hu]
  have hstacks := h.mapped
  have hle := h.stackPool_le
  rw [hpool] at hstacks hle
  refine ⟨?_, h.heap_nodup, h.main_static, ?_, h.mappings_nodup, ?_, h.threadPool_le,
    Nat.le_of_succ_le hle, h.deferred_le⟩
  · have hfilter : (n :: s.handles).filter (· ≠ mainThread) =
        n :: s.handles.filter (· ≠ mainThread) := by
      simp [hmain]
    rw [hheld]
    change s.heap.Perm ((n :: s.handles).filter (· ≠ mainThread) ++ _)
    rw [hfilter]
    exact third_to_first h.structs (held_leave hs hk)
  · rw [howned]
    exact first_to_third hstacks (List.Perm.refl _)
  · intro hmem
    have hmem' : mainThread ∈ s.handles := (List.mem_cons.mp hmem).resolve_left hmain.symm
    rw [hsame _ hmem']
    exact h.main_stack_setPoint _ hmem'

/-- Every move keeps each struct and each stack in one place. -/
theorem move {i : Input} (inv : Inv s) (hm : Move i s s') : MemInv s' := by
  have h := inv.mem
  have hs := inv.sched
  cases hm with
  | errno e => exact h.congr rfl (fun _ _ => rfl) fun _ _ => rfl
  | returned c code => exact h.congr rfl (fun _ _ => rfl) fun _ _ => rfl
  | restate hrun => exact h.congr rfl (fun _ _ => rfl) fun _ _ => rfl
  | sigwaitGiveUp hrun => exact h.congr rfl (fun _ _ => rfl) fun _ _ => rfl
  | reprioritize f rq hrq => exact h.congr rfl (fun _ _ => rfl) fun _ _ => rfl
  | semPostCount sm hq => exact h.congr rfl (fun _ _ => rfl) fun _ _ => rfl
  | semTake sm hpos => exact h.congr rfl (fun _ _ => rfl) fun _ _ => rfl
  | endProcess => exact h.congr rfl (fun _ _ => rfl) fun _ _ => rfl
  | mapStack e hpool hfresh => exact h.mapStack hpool hfresh
  | stackReclaimed e rest pool mappings hd heq =>
      rw [← heq]
      exact h.reclaim hd
  | toUser hrun hk => exact h.write rfl rfl (fun _ => hk.2.symm) fun _ => rfl
  | semPark sm hrun huser hcount =>
      exact h.parkAt (by rw [huser]; exact Point.settled_user) rfl
  | yieldAt k rq hrun hold huser hrq =>
      refine h.write rfl rfl (fun _ => ?_) fun _ => rfl
      rcases hold with rfl | ⟨hold, c, rfl⟩
      · rfl
      · exact hold.2.symm
  | dispatch next rq hrun hrq => exact h.write rfl rfl (fun _ => rfl) fun _ => rfl
  | condWake c t rest rq hq hrq => exact h.wakeHead
  | semPostWake sm t rest rq hq hrq =>
      have hpost : MemInv (s.emit (.semPosted sm s.self)) :=
        h.congr rfl (fun _ _ => rfl) fun _ _ => rfl
      exact hpost.wakeHead
  | claimed t code stored head sp mp tp hp hrun ht hne hdead hzombie hpoint hstored heq =>
      rw [← heq]
      refine h.claim hs ht hne hdead hzombie ?_
      rcases hpoint with htar | ⟨huser, -⟩
      · exact (Point.of_target htar).2.2.1
      · rw [huser]
        rfl
  | terminate v hrun huser => exact h.write rfl rfl (fun _ => rfl) fun _ => rfl
  | overflow hrun => exact h.write rfl rfl (fun _ => rfl) fun _ => rfl
  | stackDeferred t map base deferred ht hdead heq =>
      rw [← heq]
      exact h.deferStack hs ht
  | zombieAdd t ht hmain hdead hout => exact h.write rfl rfl (fun _ => rfl) fun _ => rfl
  | zombieLeft t queue heq =>
      rw [← heq]
      unfold threadZombieRemove
      split
      · exact h.write rfl rfl (fun _ => rfl) fun _ => rfl
      · exact h
  | wakeJoiner d j rq hd hdead hj hblocked hrq => exact h.write rfl rfl (fun _ => rfl) fun _ => rfl
  | sigwaitAt set hrun hold hpending =>
      exact h.write rfl rfl (fun _ => hold.2.symm) fun _ => rfl
  | signalSend t sig hsig ht hno => exact h.write rfl rfl (fun _ => rfl) fun _ => rfl
  | signalWake t sig rq hsig ht hblocked hwait hset hrq =>
      exact h.write rfl rfl (fun _ => rfl) fun _ => rfl
  | signalConsume set sig hrun hsig hpos => exact h.write rfl rfl (fun _ => rfl) fun _ => rfl
  | mainInit ref count cap index active hinit hslot =>
      exact h.write rfl rfl (fun _ => rfl) fun _ => rfl
  | takeStruct n rest hrun huser hpool => exact h.takeStruct hs huser hpool
  | mallocStruct n hrun huser hmain hfresh => exact h.mallocStruct hs huser hmain hfresh
  | retry n r r' hrun hk =>
      exact h.write rfl rfl (fun _ => (congrArg Point.held hk).symm) fun _ => rfl
  | scribble n th hdead hmain =>
      exact h.write rfl rfl (fun hn => absurd hn hdead) fun hn => absurd hn hdead
  | structDropped n r pool heap hrun hk heq =>
      rw [← heq]
      exact h.dropStruct hs (congrArg Point.held hk)
  | spawned n r entry rest ref count cap index active rq hrun hk hpool hslot hrq =>
      have hspawn := h.spawn hs ref rq (congrArg Point.held hk) hpool
      exact ⟨hspawn.structs, hspawn.heap_nodup, hspawn.main_static, hspawn.mapped,
        hspawn.mappings_nodup, hspawn.main_stack, hspawn.threadPool_le, hspawn.stackPool_le,
        hspawn.deferred_le⟩

end MemInv

end UserThreads
