import Mathlib.Logic.Function.Basic

/-!
# The context switch

`context.S` and the `fast_ctx` part of `context.h`, for both architectures.
The routines are lists of instructions with the offsets written in the
assembly; `fast_ctx_init` writes the fields of the struct at the offsets that
the header's layout gives them.

## Implementation notes

Memory is a function from the address of an 8-byte word to its value. Every
access of this code is to an aligned word. The address of the local label
`.Lresume` is a parameter.
-/

namespace UserThreads

abbrev Word := BitVec 64

/-- The registers, the memory and the address of the next instruction. -/
structure Machine (R : Type) where
  regs : R → Word
  mem : Word → Word
  pc : Word

namespace Machine

variable {R : Type} [DecidableEq R]

def set (m : Machine R) (r : R) (v : Word) : Machine R :=
  { m with regs := Function.update m.regs r v }

def store (m : Machine R) (a v : Word) : Machine R :=
  { m with mem := Function.update m.mem a v }

/-- The word at `off` bytes from the address in `base`. -/
def address (m : Machine R) (base : R) (off : Nat) : Word := m.regs base + BitVec.ofNat 64 off

end Machine

namespace X86

inductive Reg where
  | rax | rbx | rcx | rdx | rsi | rdi | rbp | rsp
  | r8 | r9 | r10 | r11 | r12 | r13 | r14 | r15
  deriving DecidableEq

/-- The general registers that a function must preserve. -/
def calleeSaved : List Reg := [.rbx, .rbp, .r12, .r13, .r14, .r15]

/-- The instructions of the x86-64 routines; `lea` has the label `.Lresume` as
its operand. -/
inductive Instr where
  | lea (dst : Reg)
  | store (src : Reg) (off : Nat) (base : Reg)
  | load (off : Nat) (base dst : Reg)
  | jmp (off : Nat) (base : Reg)
  | ret
  deriving DecidableEq

def Instr.exec (resume : Word) (m : Machine Reg) : Instr → Machine Reg
  | .lea dst => m.set dst resume
  | .store src off base => m.store (m.address base off) (m.regs src)
  | .load off base dst => m.set dst (m.mem (m.address base off))
  | .jmp off base => { m with pc := m.mem (m.address base off) }
  | .ret => { m.set .rsp (m.regs .rsp + 8#64) with pc := m.mem (m.regs .rsp) }

def exec (resume : Word) (code : List Instr) (m : Machine Reg) : Machine Reg :=
  code.foldl (Instr.exec resume) m

/-- The first half of `fast_swap_context`. -/
def saveTo (ctx : Reg) : List Instr :=
  [.lea .rax,
    .store .rax 0 ctx,
    .store .rsp 8 ctx,
    .store .rbx 16 ctx,
    .store .rbp 24 ctx,
    .store .r12 32 ctx,
    .store .r13 40 ctx,
    .store .r14 48 ctx,
    .store .r15 56 ctx]

/-- The second half of `fast_swap_context`, and all of `fast_restore_context`. -/
def restoreFrom (ctx : Reg) : List Instr :=
  [.load 16 ctx .rbx,
    .load 24 ctx .rbp,
    .load 32 ctx .r12,
    .load 40 ctx .r13,
    .load 48 ctx .r14,
    .load 56 ctx .r15,
    .load 8 ctx .rsp,
    .jmp 0 ctx]

def fastSwapContext : List Instr := saveTo .rdi ++ restoreFrom .rsi

def fastRestoreContext : List Instr := restoreFrom .rdi

/-- The `call` instruction pushes the address of the instruction after it. -/
def call (m : Machine Reg) (ret : Word) : Machine Reg :=
  (m.set .rsp (m.regs .rsp - 8#64)).store (m.regs .rsp - 8#64) ret

/-- A jump to `.Lresume` runs into the `ret` that stands there. -/
def land (resume : Word) (m : Machine Reg) : Machine Reg :=
  if m.pc = resume then Instr.exec resume m .ret else m

/-- A call of `fast_swap_context(save, restore)`, up to the instruction that
runs next on the restored stack. -/
def callSwap (resume save restore ret : Word) (m : Machine Reg) : Machine Reg :=
  land resume (exec resume fastSwapContext (call ((m.set .rdi save).set .rsi restore) ret))

/-- A call of `fast_restore_context(ctx)`. -/
def callRestore (resume ctx ret : Word) (m : Machine Reg) : Machine Reg :=
  land resume (exec resume fastRestoreContext (call (m.set .rdi ctx) ret))

/-- The fields of `struct fast_ctx`, in the order of the header. -/
inductive Field where
  | rip | rsp | rbx | rbp | r12 | r13 | r14 | r15
  deriving DecidableEq

/-- The offsets of the header: each field is a `uint64_t`. -/
def Field.offset : Field → Nat
  | .rip => 0
  | .rsp => 8
  | .rbx => 16
  | .rbp => 24
  | .r12 => 32
  | .r13 => 40
  | .r14 => 48
  | .r15 => 56

def Field.addr (f : Field) (ctx : Word) : Word := ctx + BitVec.ofNat 64 f.offset

/-- `fast_ctx_init`, on the memory. -/
def fastCtxInit (ctx stackTop entry : Word) (mem : Word → Word) : Word → Word :=
  let sp := stackTop &&& ~~~15#64
  let sp := sp - 8#64
  let mem := Function.update mem sp 0
  let mem := Function.update mem (Field.rip.addr ctx) entry
  let mem := Function.update mem (Field.rsp.addr ctx) sp
  [Field.r15, .r14, .r13, .r12, .rbp, .rbx].foldl
    (fun mem f => Function.update mem (f.addr ctx) 0) mem

end X86

namespace AArch64

/-- The general registers `x0` to `x30`, the stack pointer, and the low halves
`d0` to `d31` of the vector registers. -/
inductive Reg where
  | x (n : Fin 31)
  | sp
  | d (n : Fin 32)
  deriving DecidableEq

/-- The general registers that a function must preserve. -/
def calleeSaved : List Reg :=
  [.x 19, .x 20, .x 21, .x 22, .x 23, .x 24, .x 25, .x 26, .x 27, .x 28, .x 29]

inductive Instr where
  | str (src base : Reg) (off : Nat)
  | stp (src src' base : Reg) (off : Nat)
  | ldr (dst base : Reg) (off : Nat)
  | ldp (dst dst' base : Reg) (off : Nat)
  | mov (dst src : Reg)
  | ret
  deriving DecidableEq

def Instr.exec (m : Machine Reg) : Instr → Machine Reg
  | .str src base off => m.store (m.address base off) (m.regs src)
  | .stp src src' base off =>
      (m.store (m.address base off) (m.regs src)).store (m.address base (off + 8)) (m.regs src')
  | .ldr dst base off => m.set dst (m.mem (m.address base off))
  | .ldp dst dst' base off =>
      (m.set dst (m.mem (m.address base off))).set dst' (m.mem (m.address base (off + 8)))
  | .mov dst src => m.set dst (m.regs src)
  | .ret => { m with pc := m.regs (.x 30) }

def exec (code : List Instr) (m : Machine Reg) : Machine Reg :=
  code.foldl Instr.exec m

/-- The first half of `fast_swap_context`. -/
def saveTo (ctx : Reg) : List Instr :=
  [.str (.x 30) ctx 0,
    .mov (.x 9) .sp,
    .str (.x 9) ctx 8,
    .stp (.x 19) (.x 20) ctx 16,
    .stp (.x 21) (.x 22) ctx 32,
    .stp (.x 23) (.x 24) ctx 48,
    .stp (.x 25) (.x 26) ctx 64,
    .stp (.x 27) (.x 28) ctx 80,
    .str (.x 29) ctx 96]

/-- The second half of `fast_swap_context`, and all of `fast_restore_context`. -/
def restoreFrom (ctx : Reg) : List Instr :=
  [.ldp (.x 19) (.x 20) ctx 16,
    .ldp (.x 21) (.x 22) ctx 32,
    .ldp (.x 23) (.x 24) ctx 48,
    .ldp (.x 25) (.x 26) ctx 64,
    .ldp (.x 27) (.x 28) ctx 80,
    .ldr (.x 29) ctx 96,
    .ldr (.x 9) ctx 8,
    .mov .sp (.x 9),
    .ldr (.x 30) ctx 0,
    .ret]

def fastSwapContext : List Instr := saveTo (.x 0) ++ restoreFrom (.x 1)

def fastRestoreContext : List Instr := restoreFrom (.x 0)

/-- The `bl` instruction puts the address of the instruction after it in the
link register. -/
def call (m : Machine Reg) (ret : Word) : Machine Reg := m.set (.x 30) ret

/-- A call of `fast_swap_context(save, restore)`, up to the instruction that
runs next on the restored stack. -/
def callSwap (save restore ret : Word) (m : Machine Reg) : Machine Reg :=
  exec fastSwapContext (call ((m.set (.x 0) save).set (.x 1) restore) ret)

/-- A call of `fast_restore_context(ctx)`. -/
def callRestore (ctx ret : Word) (m : Machine Reg) : Machine Reg :=
  exec fastRestoreContext (call (m.set (.x 0) ctx) ret)

/-- The fields of `struct fast_ctx`, in the order of the header. -/
inductive Field where
  | lr | sp | x19 | x20 | x21 | x22 | x23 | x24 | x25 | x26 | x27 | x28 | fp
  deriving DecidableEq

/-- The offsets of the header: each field is a `uint64_t`. -/
def Field.offset : Field → Nat
  | .lr => 0
  | .sp => 8
  | .x19 => 16
  | .x20 => 24
  | .x21 => 32
  | .x22 => 40
  | .x23 => 48
  | .x24 => 56
  | .x25 => 64
  | .x26 => 72
  | .x27 => 80
  | .x28 => 88
  | .fp => 96

def Field.addr (f : Field) (ctx : Word) : Word := ctx + BitVec.ofNat 64 f.offset

/-- `fast_ctx_init`, on the memory. -/
def fastCtxInit (ctx stackTop entry : Word) (mem : Word → Word) : Word → Word :=
  let sp := stackTop &&& ~~~15#64
  let mem := Function.update mem (Field.lr.addr ctx) entry
  let mem := Function.update mem (Field.sp.addr ctx) sp
  [Field.fp, .x28, .x27, .x26, .x25, .x24, .x23, .x22, .x21, .x20, .x19].foldl
    (fun mem f => Function.update mem (f.addr ctx) 0) mem

end AArch64

end UserThreads
