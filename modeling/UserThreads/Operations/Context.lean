import UserThreads.Abstract.Switching

/-!
# What the assembly routines do

The two architectures meet the specification of a context switch: the words
that `fast_swap_context` stores are those that the restoring half loads, and
`fast_ctx_init` prepares the same layout.
-/

namespace UserThreads

/-- Clearing the low four bits rounds down to a multiple of 16. -/
theorem toNat_aligned (x : Word) : (x &&& ~~~15#64).toNat = x.toNat / 16 * 16 := by
  have hbit : ∀ i < 64, (15#64).getLsbD i = decide (i < 4) := by decide
  have hshift : x &&& ~~~15#64 = (x >>> 4) <<< 4 := by
    apply BitVec.eq_of_getLsbD_eq
    intro i hi
    simp only [BitVec.getLsbD_and, BitVec.getLsbD_not, BitVec.getLsbD_shiftLeft,
      BitVec.getLsbD_ushiftRight, hbit i hi, hi]
    by_cases hlow : i < 4
    · simp [hlow]
    · have hback : 4 + (i - 4) = i := by omega
      simp [hlow, hback]
  have hlt := x.isLt
  rw [hshift]
  simp only [BitVec.toNat_shiftLeft, BitVec.toNat_ushiftRight, Nat.shiftLeft_eq,
    Nat.shiftRight_eq_div_pow]
  omega

namespace X86

def arch (resume : Word) : Arch where
  Reg := Reg
  stackPointer := .rsp
  calleeSaved := calleeSaved
  words := 8
  swap := callSwap resume
  restore := callRestore resume
  init := fastCtxInit
  pushes := fun m => [m.regs .rsp - 8#64]
  entryAlignment := 8
  IsFunction := fun a => a ≠ resume

/-- The eight words of a context. -/
structure Frame (mem : Word → Word) (ctx rip rsp : Word) (regs : Reg → Word) : Prop where
  rip : mem ctx = rip
  rsp : mem (ctx + 8#64) = rsp
  rbx : mem (ctx + 16#64) = regs .rbx
  rbp : mem (ctx + 24#64) = regs .rbp
  r12 : mem (ctx + 32#64) = regs .r12
  r13 : mem (ctx + 40#64) = regs .r13
  r14 : mem (ctx + 48#64) = regs .r14
  r15 : mem (ctx + 56#64) = regs .r15

section

variable {resume : Word} {m : Machine Reg}

/-- A word outside the object is none of its eight words. -/
theorem not_mem_object {ctx a : Word} (h : a ∉ (arch resume).object ctx) (k : Nat) (hk : k < 8) :
    a ≠ ctx + BitVec.ofNat 64 (8 * k) :=
  fun heq => h ⟨k, hk, heq⟩

theorem Frame.congr {mem mem' : Word → Word} {ctx rip rsp : Word} {regs : Reg → Word}
    (h : Frame mem ctx rip rsp regs) (hsame : ∀ a ∈ (arch resume).object ctx, mem' a = mem a) :
    Frame mem' ctx rip rsp regs := by
  have hword : ∀ k < 8,
      mem' (ctx + BitVec.ofNat 64 (8 * k)) = mem (ctx + BitVec.ofNat 64 (8 * k)) :=
    fun k hk => hsame _ ⟨k, hk, rfl⟩
  have hfirst : mem' ctx = mem ctx := by simpa using hword 0 (by decide)
  exact ⟨hfirst.trans h.rip, (hword 1 (by decide)).trans h.rsp, (hword 2 (by decide)).trans h.rbx,
    (hword 3 (by decide)).trans h.rbp, (hword 4 (by decide)).trans h.r12,
    (hword 5 (by decide)).trans h.r13, (hword 6 (by decide)).trans h.r14,
    (hword 7 (by decide)).trans h.r15⟩

/-- The restoring half loads the eight words and changes nothing in memory. -/
theorem exec_restoreFrom (resume : Word) {b : Reg} (hb : b = .rdi ∨ b = .rsi) {rip rsp : Word}
    {regs : Reg → Word} (hf : Frame m.mem (m.regs b) rip rsp regs) :
    (exec resume (restoreFrom b) m).pc = rip ∧ (exec resume (restoreFrom b) m).regs .rsp = rsp ∧
      ∀ r ∈ calleeSaved, (exec resume (restoreFrom b) m).regs r = regs r := by
  obtain ⟨hrip, hrsp, hrbx, hrbp, hr12, hr13, hr14, hr15⟩ := hf
  rcases hb with rfl | rfl
  · simp [exec, restoreFrom, Instr.exec, Machine.set, Machine.address, calleeSaved, *]
  · simp [exec, restoreFrom, Instr.exec, Machine.set, Machine.address, calleeSaved, *]

theorem exec_restoreFrom_mem (resume : Word) (m : Machine Reg) (b : Reg) :
    (exec resume (restoreFrom b) m).mem = m.mem := rfl

/-- The saving half stores the label, the stack pointer and the registers. -/
theorem exec_saveTo (resume : Word) (m : Machine Reg) :
    Frame (exec resume (saveTo .rdi) m).mem (m.regs .rdi) resume (m.regs .rsp) m.regs := by
  constructor
  all_goals simp [exec, saveTo, Instr.exec, Machine.set, Machine.store, Machine.address]

theorem exec_saveTo_frame {a : Word} (ha : a ∉ (arch resume).object (m.regs .rdi)) :
    (exec resume (saveTo .rdi) m).mem a = m.mem a := by
  have h0 := not_mem_object ha 0 (by decide)
  have h1 := not_mem_object ha 1 (by decide)
  have h2 := not_mem_object ha 2 (by decide)
  have h3 := not_mem_object ha 3 (by decide)
  have h4 := not_mem_object ha 4 (by decide)
  have h5 := not_mem_object ha 5 (by decide)
  have h6 := not_mem_object ha 6 (by decide)
  have h7 := not_mem_object ha 7 (by decide)
  simp only [Nat.mul_zero, Nat.reduceMul, BitVec.add_zero] at h0 h1 h2 h3 h4 h5 h6 h7
  simp_all [exec, saveTo, Instr.exec, Machine.set, Machine.store, Machine.address]

/-- When a context in memory is good for a snapshot: a suspended one resumes at
the label, with its return address on the stack. -/
def Holds (resume ctx : Word) (mem : Word → Word) : Snapshot (arch resume) → Prop
  | .suspended regs ret =>
      Frame mem ctx resume (regs Reg.rsp - 8#64) regs ∧ mem (regs Reg.rsp - 8#64) = ret
  | .fresh stackTop entry =>
      Frame mem ctx entry ((stackTop &&& ~~~15#64) - 8#64) (fun _ => 0) ∧ entry ≠ resume ∧
        24 ≤ stackTop.toNat

/-- The stack word that a suspended context depends on. -/
def needs (resume : Word) : Snapshot (arch resume) → Set Word
  | .suspended regs _ => {regs Reg.rsp - 8#64}
  | .fresh _ _ => ∅

/-- The stack pointer that `fast_ctx_init` prepares. -/
theorem initial_rsp {stackTop : Word} (h : 24 ≤ stackTop.toNat) :
    ((stackTop &&& ~~~15#64) - 8#64).toNat = stackTop.toNat / 16 * 16 - 8 := by
  have haligned := toNat_aligned stackTop
  have hlt := stackTop.isLt
  rw [BitVec.toNat_sub, haligned]
  simp only [BitVec.toNat_ofNat]
  omega

/-- Restoring a good context resumes its thread. -/
theorem resumed_of_holds {b : Reg} (hb : b = .rdi ∨ b = .rsi) {snap : Snapshot (arch resume)}
    (h : Holds resume (m.regs b) m.mem snap) :
    (arch resume).Resumed (land resume (exec resume (restoreFrom b) m)) snap := by
  cases snap with
  | suspended regs ret =>
      obtain ⟨hframe, hret⟩ := h
      obtain ⟨hpc, hrsp, hregs⟩ := exec_restoreFrom resume hb hframe
      have hmem := exec_restoreFrom_mem resume m b
      have hland : land resume (exec resume (restoreFrom b) m) =
          Instr.exec resume (exec resume (restoreFrom b) m) .ret := if_pos hpc
      rw [hland]
      refine ⟨?_, ?_, fun r hr => ?_⟩
      · simp only [Instr.exec]
        rw [hrsp, hmem, hret]
      · simp only [Instr.exec, Machine.set, arch, Function.update_self]
        rw [hrsp]
        exact BitVec.sub_add_cancel _ _
      · have hout : Reg.rsp ∉ calleeSaved := by decide
        have hne : r ≠ Reg.rsp := fun heq => hout (heq ▸ hr)
        exact (Function.update_of_ne hne _ _).trans (hregs r hr)
  | fresh stackTop entry =>
      obtain ⟨hframe, hentry, htop⟩ := h
      obtain ⟨hpc, hrsp, hregs⟩ := exec_restoreFrom resume hb hframe
      have hland : land resume (exec resume (restoreFrom b) m) =
          exec resume (restoreFrom b) m := if_neg (by rw [hpc]; exact hentry)
      have hsp := initial_rsp htop
      rw [← hrsp] at hsp
      rw [hland]
      refine ⟨hpc, hregs, ?_, ?_, ?_⟩
      · simp only [arch]
        omega
      · simp only [arch]
        omega
      · simp only [arch]
        omega

theorem callSwap_mem (save restore ret : Word) :
    (callSwap resume save restore ret m).mem =
      (exec resume (saveTo .rdi) (call ((m.set .rdi save).set .rsi restore) ret)).mem := by
  have happend : exec resume fastSwapContext (call ((m.set .rdi save).set .rsi restore) ret) =
      exec resume (restoreFrom .rsi)
        (exec resume (saveTo .rdi) (call ((m.set .rdi save).set .rsi restore) ret)) :=
    List.foldl_append
  unfold callSwap land
  rw [happend]
  split
  · rfl
  · rfl

theorem callRestore_mem (ctx ret : Word) :
    (callRestore resume ctx ret m).mem = (call (m.set .rdi ctx) ret).mem := by
  unfold callRestore land
  split
  · rfl
  · rfl

/-- After the call, the context of the caller is good for its return. -/
theorem callSwap_holds {save restore ret : Word}
    (hpush : m.regs .rsp - 8#64 ∉ (arch resume).object save) :
    Holds resume save (callSwap resume save restore ret m).mem (.suspended m.regs ret) := by
  rw [callSwap_mem]
  constructor
  · obtain ⟨hrip, hrsp, hrbx, hrbp, hr12, hr13, hr14, hr15⟩ :=
      exec_saveTo resume (call ((m.set .rdi save).set .rsi restore) ret)
    exact ⟨hrip, hrsp, hrbx, hrbp, hr12, hr13, hr14, hr15⟩
  · rw [exec_saveTo_frame (by exact hpush)]
    exact Function.update_self _ _ _

theorem callSwap_resumed {save restore ret : Word} {snap : Snapshot (arch resume)}
    (h : Holds resume restore (callSwap resume save restore ret m).mem snap) :
    (arch resume).Resumed (callSwap resume save restore ret m) snap := by
  have hrsi : (exec resume (saveTo .rdi)
      (call ((m.set .rdi save).set .rsi restore) ret)).regs .rsi = restore := rfl
  have happend : callSwap resume save restore ret m = land resume (exec resume (restoreFrom .rsi)
      (exec resume (saveTo .rdi) (call ((m.set .rdi save).set .rsi restore) ret))) :=
    congrArg (land resume) List.foldl_append
  rw [callSwap_mem] at h
  rw [happend]
  refine resumed_of_holds (Or.inr rfl) ?_
  rw [hrsi]
  exact h

theorem callRestore_resumed {ctx ret : Word} {snap : Snapshot (arch resume)}
    (h : Holds resume ctx (callRestore resume ctx ret m).mem snap) :
    (arch resume).Resumed (callRestore resume ctx ret m) snap := by
  rw [callRestore_mem] at h
  exact resumed_of_holds (Or.inl rfl) h

theorem holds_frame {ctx : Word} {mem mem' : Word → Word} {snap : Snapshot (arch resume)}
    (h : Holds resume ctx mem snap) (hobject : ∀ a ∈ (arch resume).object ctx, mem' a = mem a)
    (hneeds : ∀ a ∈ needs resume snap, mem' a = mem a) : Holds resume ctx mem' snap := by
  cases snap with
  | suspended regs ret => exact ⟨h.1.congr hobject, (hneeds _ rfl).trans h.2⟩
  | fresh stackTop entry => exact ⟨h.1.congr hobject, h.2⟩

/-- The header's offsets are those of consecutive words. -/
theorem Field.offset_eq (f : Field) : ∃ k < 8, f.offset = 8 * k := by
  cases f with
  | rip => exact ⟨0, by decide, rfl⟩
  | rsp => exact ⟨1, by decide, rfl⟩
  | rbx => exact ⟨2, by decide, rfl⟩
  | rbp => exact ⟨3, by decide, rfl⟩
  | r12 => exact ⟨4, by decide, rfl⟩
  | r13 => exact ⟨5, by decide, rfl⟩
  | r14 => exact ⟨6, by decide, rfl⟩
  | r15 => exact ⟨7, by decide, rfl⟩

theorem fastCtxInit_frame {ctx stackTop entry a : Word} {mem : Word → Word}
    (hobject : a ∉ (arch resume).object ctx) (hsp : a ≠ (stackTop &&& ~~~15#64) - 8#64) :
    fastCtxInit ctx stackTop entry mem a = mem a := by
  have hfield : ∀ f : Field, a ≠ f.addr ctx := fun f => by
    obtain ⟨k, hk, hoffset⟩ := f.offset_eq
    unfold Field.addr
    rw [hoffset]
    exact not_mem_object hobject k hk
  unfold fastCtxInit
  generalize (stackTop &&& ~~~15#64) - 8#64 = sp at hsp ⊢
  simp [hfield, hsp]

theorem fastCtxInit_holds {ctx stackTop entry : Word} {mem : Word → Word} (hentry : entry ≠ resume)
    (htop : 24 ≤ stackTop.toNat) :
    Holds resume ctx (fastCtxInit ctx stackTop entry mem) (.fresh stackTop entry) := by
  refine ⟨?_, hentry, htop⟩
  constructor
  all_goals simp [fastCtxInit, Field.addr, Field.offset]

/-- The x86-64 routines meet the specification. -/
def spec (resume : Word) : (arch resume).Spec where
  Holds := Holds resume
  needs := needs resume
  frame := holds_frame
  needs_fresh := fun _ _ => rfl
  needs_suspended := fun m ret a ha => by
    have heq : a = m.regs Reg.rsp - 8#64 := ha
    exact List.mem_singleton.mpr heq
  init_holds := fun hentry hcovers _ => fastCtxInit_holds hentry hcovers.1
  init_frame := fun {ctx stackTop entry region mem a} hcovers hobject hregion => by
    refine fastCtxInit_frame hobject fun heq => hregion ?_
    have hsp := initial_rsp hcovers.1
    rw [← heq] at hsp
    have htop := hcovers.1
    exact hcovers.2 a (by omega) (by omega)
  swap_frame := fun {save restore ret m a} hobject hpush => by
    have hne : a ≠ m.regs Reg.rsp - 8#64 := fun heq => hpush (List.mem_singleton.mpr heq)
    refine (congrFun (callSwap_mem save restore ret) a).trans ?_
    rw [exec_saveTo_frame (by exact hobject)]
    exact Function.update_of_ne hne _ _
  swap_holds := fun {save restore ret m} hpush =>
    callSwap_holds (hpush _ (List.mem_singleton.mpr rfl))
  swap_resumed := callSwap_resumed
  restore_frame := fun {ctx ret m a} hpush => by
    have hne : a ≠ m.regs Reg.rsp - 8#64 := fun heq => hpush (List.mem_singleton.mpr heq)
    refine (congrFun (callRestore_mem ctx ret) a).trans ?_
    exact Function.update_of_ne hne _ _
  restore_resumed := callRestore_resumed

end

end X86

namespace AArch64

def arch : Arch where
  Reg := Reg
  stackPointer := .sp
  calleeSaved := calleeSaved
  words := 13
  swap := callSwap
  restore := callRestore
  init := fastCtxInit
  pushes := fun _ => []
  entryAlignment := 0
  IsFunction := fun _ => True

/-- The thirteen words of a context. -/
structure Frame (mem : Word → Word) (ctx lr sp : Word) (regs : Reg → Word) : Prop where
  lr : mem ctx = lr
  sp : mem (ctx + 8#64) = sp
  x19 : mem (ctx + 16#64) = regs (.x 19)
  x20 : mem (ctx + 24#64) = regs (.x 20)
  x21 : mem (ctx + 32#64) = regs (.x 21)
  x22 : mem (ctx + 40#64) = regs (.x 22)
  x23 : mem (ctx + 48#64) = regs (.x 23)
  x24 : mem (ctx + 56#64) = regs (.x 24)
  x25 : mem (ctx + 64#64) = regs (.x 25)
  x26 : mem (ctx + 72#64) = regs (.x 26)
  x27 : mem (ctx + 80#64) = regs (.x 27)
  x28 : mem (ctx + 88#64) = regs (.x 28)
  fp : mem (ctx + 96#64) = regs (.x 29)

section

variable {m : Machine Reg}

theorem not_mem_object {ctx a : Word} (h : a ∉ arch.object ctx) (k : Nat) (hk : k < 13) :
    a ≠ ctx + BitVec.ofNat 64 (8 * k) :=
  fun heq => h ⟨k, hk, heq⟩

theorem Frame.congr {mem mem' : Word → Word} {ctx lr sp : Word} {regs : Reg → Word}
    (h : Frame mem ctx lr sp regs) (hsame : ∀ a ∈ arch.object ctx, mem' a = mem a) :
    Frame mem' ctx lr sp regs := by
  have hword : ∀ k < 13,
      mem' (ctx + BitVec.ofNat 64 (8 * k)) = mem (ctx + BitVec.ofNat 64 (8 * k)) :=
    fun k hk => hsame _ ⟨k, hk, rfl⟩
  have hfirst : mem' ctx = mem ctx := by simpa using hword 0 (by decide)
  exact ⟨hfirst.trans h.lr, (hword 1 (by decide)).trans h.sp, (hword 2 (by decide)).trans h.x19,
    (hword 3 (by decide)).trans h.x20, (hword 4 (by decide)).trans h.x21,
    (hword 5 (by decide)).trans h.x22, (hword 6 (by decide)).trans h.x23,
    (hword 7 (by decide)).trans h.x24, (hword 8 (by decide)).trans h.x25,
    (hword 9 (by decide)).trans h.x26, (hword 10 (by decide)).trans h.x27,
    (hword 11 (by decide)).trans h.x28, (hword 12 (by decide)).trans h.fp⟩

/-- The restoring half loads the thirteen words and changes nothing in memory. -/
theorem exec_restoreFrom {b : Reg} (hb : b = .x 0 ∨ b = .x 1) {lr sp : Word} {regs : Reg → Word}
    (hf : Frame m.mem (m.regs b) lr sp regs) :
    (exec (restoreFrom b) m).pc = lr ∧ (exec (restoreFrom b) m).regs .sp = sp ∧
      ∀ r ∈ calleeSaved, (exec (restoreFrom b) m).regs r = regs r := by
  obtain ⟨hlr, hsp, h19, h20, h21, h22, h23, h24, h25, h26, h27, h28, hfp⟩ := hf
  rcases hb with rfl | rfl
  · simp [exec, restoreFrom, Instr.exec, Machine.set, Machine.address, calleeSaved, *]
  · simp [exec, restoreFrom, Instr.exec, Machine.set, Machine.address, calleeSaved, *]

theorem exec_restoreFrom_mem (b : Reg) : (exec (restoreFrom b) m).mem = m.mem := rfl

/-- The saving half stores the link register, the stack pointer and the
registers. -/
theorem exec_saveTo :
    Frame (exec (saveTo (.x 0)) m).mem (m.regs (.x 0)) (m.regs (.x 30)) (m.regs .sp) m.regs := by
  constructor
  all_goals simp [exec, saveTo, Instr.exec, Machine.set, Machine.store, Machine.address]

theorem exec_saveTo_frame {a : Word} (ha : a ∉ arch.object (m.regs (.x 0))) :
    (exec (saveTo (.x 0)) m).mem a = m.mem a := by
  have h0 := not_mem_object ha 0 (by decide)
  have h1 := not_mem_object ha 1 (by decide)
  have h2 := not_mem_object ha 2 (by decide)
  have h3 := not_mem_object ha 3 (by decide)
  have h4 := not_mem_object ha 4 (by decide)
  have h5 := not_mem_object ha 5 (by decide)
  have h6 := not_mem_object ha 6 (by decide)
  have h7 := not_mem_object ha 7 (by decide)
  have h8 := not_mem_object ha 8 (by decide)
  have h9 := not_mem_object ha 9 (by decide)
  have h10 := not_mem_object ha 10 (by decide)
  have h11 := not_mem_object ha 11 (by decide)
  have h12 := not_mem_object ha 12 (by decide)
  simp only [Nat.mul_zero, Nat.reduceMul, BitVec.add_zero]
    at h0 h1 h2 h3 h4 h5 h6 h7 h8 h9 h10 h11 h12
  simp_all [exec, saveTo, Instr.exec, Machine.set, Machine.store, Machine.address]

/-- When a context in memory is good for a snapshot. -/
def Holds (ctx : Word) (mem : Word → Word) : Snapshot arch → Prop
  | .suspended regs ret => Frame mem ctx ret (regs Reg.sp) regs
  | .fresh stackTop entry =>
      Frame mem ctx entry (stackTop &&& ~~~15#64) (fun _ => 0) ∧ 24 ≤ stackTop.toNat

/-- Restoring a good context resumes its thread. -/
theorem resumed_of_holds {b : Reg} (hb : b = .x 0 ∨ b = .x 1) {snap : Snapshot arch}
    (h : Holds (m.regs b) m.mem snap) : arch.Resumed (exec (restoreFrom b) m) snap := by
  cases snap with
  | suspended regs ret => exact exec_restoreFrom hb h
  | fresh stackTop entry =>
      obtain ⟨hframe, htop⟩ := h
      obtain ⟨hpc, hsp, hregs⟩ := exec_restoreFrom hb hframe
      have haligned := toNat_aligned stackTop
      rw [← hsp] at haligned
      refine ⟨hpc, hregs, ?_, ?_, ?_⟩
      · simp only [arch]
        omega
      · simp only [arch]
        omega
      · simp only [arch]
        omega

theorem callSwap_eq (save restore ret : Word) :
    callSwap save restore ret m = exec (restoreFrom (.x 1))
      (exec (saveTo (.x 0)) (call ((m.set (.x 0) save).set (.x 1) restore) ret)) :=
  List.foldl_append

theorem callSwap_mem (save restore ret : Word) :
    (callSwap save restore ret m).mem =
      (exec (saveTo (.x 0)) (call ((m.set (.x 0) save).set (.x 1) restore) ret)).mem := by
  rw [callSwap_eq]
  rfl

/-- After the call, the context of the caller is good for its return. -/
theorem callSwap_holds {save restore ret : Word} :
    Holds save (callSwap save restore ret m).mem (.suspended m.regs ret) := by
  rw [callSwap_mem]
  obtain ⟨hlr, hsp, h19, h20, h21, h22, h23, h24, h25, h26, h27, h28, hfp⟩ :=
    exec_saveTo (m := call ((m.set (.x 0) save).set (.x 1) restore) ret)
  exact ⟨hlr, hsp, h19, h20, h21, h22, h23, h24, h25, h26, h27, h28, hfp⟩

theorem callSwap_resumed {save restore ret : Word} {snap : Snapshot arch}
    (h : Holds restore (callSwap save restore ret m).mem snap) :
    arch.Resumed (callSwap save restore ret m) snap := by
  have hx1 : (exec (saveTo (.x 0))
      (call ((m.set (.x 0) save).set (.x 1) restore) ret)).regs (.x 1) = restore := rfl
  rw [callSwap_mem] at h
  rw [callSwap_eq]
  refine resumed_of_holds (Or.inr rfl) ?_
  rw [hx1]
  exact h

theorem callRestore_resumed {ctx ret : Word} {snap : Snapshot arch}
    (h : Holds ctx (callRestore ctx ret m).mem snap) :
    arch.Resumed (callRestore ctx ret m) snap :=
  resumed_of_holds (Or.inl rfl) h

theorem holds_frame {ctx : Word} {mem mem' : Word → Word} {snap : Snapshot arch}
    (h : Holds ctx mem snap) (hobject : ∀ a ∈ arch.object ctx, mem' a = mem a) :
    Holds ctx mem' snap := by
  cases snap with
  | suspended regs ret => exact Frame.congr h hobject
  | fresh stackTop entry => exact ⟨h.1.congr hobject, h.2⟩

/-- The header's offsets are those of consecutive words. -/
theorem Field.offset_eq (f : Field) : ∃ k < 13, f.offset = 8 * k := by
  cases f with
  | lr => exact ⟨0, by decide, rfl⟩
  | sp => exact ⟨1, by decide, rfl⟩
  | x19 => exact ⟨2, by decide, rfl⟩
  | x20 => exact ⟨3, by decide, rfl⟩
  | x21 => exact ⟨4, by decide, rfl⟩
  | x22 => exact ⟨5, by decide, rfl⟩
  | x23 => exact ⟨6, by decide, rfl⟩
  | x24 => exact ⟨7, by decide, rfl⟩
  | x25 => exact ⟨8, by decide, rfl⟩
  | x26 => exact ⟨9, by decide, rfl⟩
  | x27 => exact ⟨10, by decide, rfl⟩
  | x28 => exact ⟨11, by decide, rfl⟩
  | fp => exact ⟨12, by decide, rfl⟩

theorem fastCtxInit_frame {ctx stackTop entry a : Word} {mem : Word → Word}
    (hobject : a ∉ arch.object ctx) : fastCtxInit ctx stackTop entry mem a = mem a := by
  have hfield : ∀ f : Field, a ≠ f.addr ctx := fun f => by
    obtain ⟨k, hk, hoffset⟩ := f.offset_eq
    unfold Field.addr
    rw [hoffset]
    exact not_mem_object hobject k hk
  simp [fastCtxInit, hfield]

theorem fastCtxInit_holds {ctx stackTop entry : Word} {mem : Word → Word}
    (htop : 24 ≤ stackTop.toNat) :
    Holds ctx (fastCtxInit ctx stackTop entry mem) (.fresh stackTop entry) := by
  refine ⟨?_, htop⟩
  constructor
  all_goals simp [fastCtxInit, Field.addr, Field.offset]

/-- The vector registers are neither saved nor loaded. -/
theorem callSwap_d (save restore ret : Word) (n : Fin 32) :
    (callSwap save restore ret m).regs (.d n) = m.regs (.d n) := by
  simp [callSwap, exec, fastSwapContext, saveTo, restoreFrom, call, Instr.exec, Machine.set,
    Machine.store]

theorem callRestore_d (ctx ret : Word) (n : Fin 32) :
    (callRestore ctx ret m).regs (.d n) = m.regs (.d n) := by
  simp [callRestore, exec, fastRestoreContext, restoreFrom, call, Instr.exec, Machine.set]

/-- The AArch64 routines meet the specification. -/
def spec : arch.Spec where
  Holds := Holds
  needs := fun _ => ∅
  frame := fun h hobject _ => holds_frame h hobject
  needs_fresh := fun _ _ => rfl
  needs_suspended := fun _ _ a ha => absurd ha (Set.notMem_empty a)
  init_holds := fun _ hcovers _ => fastCtxInit_holds hcovers.1
  init_frame := fun _ hobject _ => fastCtxInit_frame hobject
  swap_frame := fun {save restore ret m a} hobject _ => by
    refine (congrFun (callSwap_mem save restore ret) a).trans ?_
    rw [exec_saveTo_frame (by exact hobject)]
    rfl
  swap_holds := fun _ => callSwap_holds
  swap_resumed := callSwap_resumed
  restore_frame := fun _ => rfl
  restore_resumed := callRestore_resumed

end

end AArch64

end UserThreads
