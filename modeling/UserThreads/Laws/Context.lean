import UserThreads.Operations.Context

/-!
# What a thread finds when it is resumed

The general registers, the stack pointer and the return address are those of
the call, on both architectures and under every interleaving. On AArch64 the
registers `d8` to `d15` are not part of the context, so a thread finds in them
what the others left there.
-/

namespace UserThreads

/-- The architectures of `context.S`; on x86-64 with the address of `.Lresume`. -/
inductive Isa where
  | x8664 (resume : Word)
  | aarch64

def Isa.arch : Isa → Arch
  | .x8664 resume => X86.arch resume
  | .aarch64 => AArch64.arch

def Isa.spec : (isa : Isa) → isa.arch.Spec
  | .x8664 resume => X86.spec resume
  | .aarch64 => AArch64.spec

/-- The low halves of vector registers that a function must preserve. -/
def AArch64.floatSaved : List AArch64.Reg :=
  [.d 8, .d 9, .d 10, .d 11, .d 12, .d 13, .d 14, .d 15]

namespace Coroutines

section

variable {T : Type} [DecidableEq T] {ctx : T → Word}

/-- Every switch, in every interleaving, resumes its thread as it must: out of
the call that saved the context with the registers of the call, or into the
function of a fresh context. -/
theorem resumed_of_switch (isa : Isa) {x x' : Coroutines isa.arch T} {snap : Snapshot isa.arch}
    (hdistinct : DistinctContexts isa.arch ctx) (h : Reachable ctx (fun _ => True) x)
    (hs : Switch ctx x snap x') : isa.arch.Resumed x'.machine snap :=
  ((intact_of_reachable hdistinct isa.spec h).switch hdistinct hs).1

end

/-! Two threads, whose contexts are at fixed addresses. -/

def twoContexts (t : Bool) : Word := if t then 0x1000#64 else 0x2000#64

def firstStack : Set Word := {a | 0x9000 ≤ a.toNat ∧ a.toNat < 0xa000}

def secondStack : Set Word := {a | 0x7000 ≤ a.toNat ∧ a.toNat < 0x8000}

/-- The first thread runs. -/
def started (A : Arch) : Coroutines A Bool where
  machine := ⟨fun _ => 0x9800#64, fun _ => 0, 0⟩
  current := true
  saved := fun _ => none
  found := fun _ => 0x9800#64
  stack := fun _ => firstStack

/-- The first thread has set up a context for the second. -/
def created (A : Arch) : Coroutines A Bool where
  machine := ⟨fun _ => 0x9800#64, A.init (twoContexts false) 0x8000#64 0x4000#64 fun _ => 0, 0⟩
  current := true
  saved := Function.update (fun _ => none) false (some (.fresh 0x8000#64 0x4000#64))
  found := fun _ => 0x9800#64
  stack := Function.update (fun _ => firstStack) false secondStack

section

variable {A : Arch} (hwords : A.words ≤ 13)
include hwords

theorem toNat_of_mem_twoContexts {t : Bool} {a : Word} (h : a ∈ A.object (twoContexts t)) :
    (twoContexts t).toNat ≤ a.toNat ∧ a.toNat < (twoContexts t).toNat + 104 := by
  obtain ⟨k, hk, rfl⟩ := h
  have hoffset : (BitVec.ofNat 64 (8 * k)).toNat = 8 * k := by
    rw [BitVec.toNat_ofNat]
    omega
  have hbase : (twoContexts t).toNat ≤ 0x2000 := by
    cases t <;> decide
  rw [BitVec.toNat_add, hoffset]
  omega

theorem distinct_twoContexts : DistinctContexts A twoContexts := by
  intro t u hne a ht hu
  have hfirst := toNat_of_mem_twoContexts hwords ht
  have hsecond := toNat_of_mem_twoContexts hwords hu
  have htrue : (twoContexts true).toNat = 0x1000 := rfl
  have hfalse : (twoContexts false).toNat = 0x2000 := rfl
  cases t <;> cases u
  · exact hne rfl
  · omega
  · omega
  · exact hne rfl

theorem toNat_lt_of_mem_twoContexts {t : Bool} {a : Word} (h : a ∈ A.object (twoContexts t)) :
    a.toNat < 0x7000 := by
  have hbound := toNat_of_mem_twoContexts hwords h
  have hbase : (twoContexts t).toNat ≤ 0x2000 := by
    cases t <;> decide
  omega

theorem created_of_started (hentry : A.IsFunction 0x4000#64) (guard : Coroutines A Bool → Prop) :
    Reachable twoContexts guard (created A) := by
  refine ⟨started A, ⟨fun _ => rfl, rfl, ?_⟩, .single (.work _ ?_)⟩
  · intro t a ha hmem
    have hlow := toNat_lt_of_mem_twoContexts hwords ha
    have hhigh : 0x9000 ≤ a.toNat := hmem.1
    omega
  · refine Work.init (x := started A) false secondStack 0x8000#64 0x4000#64 Bool.false_ne_true
      hentry ⟨by decide, ?_⟩ ?_ ?_
    · intro a hlow hhigh
      have htop : (0x8000#64).toNat = 0x8000 := rfl
      exact ⟨by omega, by omega⟩
    · intro u _ _ a ha hmem
      have hlow : a.toNat < 0x8000 := ha.2
      have hhigh : 0x9000 ≤ a.toNat := hmem.1
      omega
    · intro u a ha hmem
      have hlow := toNat_lt_of_mem_twoContexts hwords ha
      have hhigh : 0x7000 ≤ a.toNat := hmem.1
      omega

end

/-- The second thread has the machine. -/
def handed (A : Arch) : Coroutines A Bool where
  machine := A.swap (twoContexts true) (twoContexts false) 0x4100#64 (created A).machine
  current := false
  saved := Function.update (Function.update (created A).saved true
    (some (.suspended (created A).machine.regs 0x4100#64))) false none
  found := (A.swap (twoContexts true) (twoContexts false) 0x4100#64 (created A).machine).regs
  stack := (created A).stack

theorem handed_of_created {A : Arch} {guard : Coroutines A Bool → Prop}
    (h : Reachable twoContexts guard (created A)) (hguard : guard (created A))
    (hpush : ∀ a ∈ A.pushes (created A).machine, a ∈ firstStack) :
    Reachable twoContexts guard (handed A) := by
  have hswap : Switch twoContexts (created A) (.fresh 0x8000#64 0x4000#64) (handed A) :=
    .swap false 0x4100#64 _ hpush rfl
  exact h.step (.switch _ _ hguard hswap)

/-- From the second thread back to the first. -/
theorem exists_switch_back {A : Arch} {x : Coroutines A Bool} {snap : Snapshot A}
    (hcurrent : x.current = false) (hsaved : x.saved true = some snap)
    (hpush : ∀ a ∈ A.pushes x.machine, a ∈ x.stack false) :
    ∃ x', Switch twoContexts x snap x' := by
  rw [← hcurrent] at hpush
  refine ⟨_, .swap true 0x4200#64 snap hpush ?_⟩
  rw [Function.update_of_ne (by rw [hcurrent]; decide), hsaved]

theorem resumed_of_switch_two : ∃ (x x' : Coroutines (Isa.x8664 0x500#64).arch Bool)
    (regs : X86.Reg → Word) (ret : Word), Reachable twoContexts (fun _ => True) x ∧
      Switch twoContexts x (.suspended regs ret) x' ∧
        (Isa.x8664 0x500#64).arch.Resumed x'.machine (.suspended regs ret) := by
  have hdistinct : DistinctContexts (Isa.x8664 0x500#64).arch twoContexts :=
    distinct_twoContexts (by decide)
  have hreach : Reachable twoContexts (fun _ => True) (handed (Isa.x8664 0x500#64).arch) := by
    refine handed_of_created ?_ trivial ?_
    · exact created_of_started (by decide) (show 0x4000#64 ≠ 0x500#64 by decide) _
    · intro a ha
      obtain rfl : a = 0x97f8#64 := List.mem_singleton.mp ha
      exact ⟨by decide, by decide⟩
  have hpush : ∀ a ∈ (Isa.x8664 0x500#64).arch.pushes (handed (Isa.x8664 0x500#64).arch).machine,
      a ∈ secondStack := by
    intro a ha
    obtain rfl : a = 0x7ff0#64 := List.mem_singleton.mp ha
    exact ⟨by decide, by decide⟩
  obtain ⟨x', hback⟩ := exists_switch_back rfl rfl hpush
  exact ⟨_, _, _, _, hreach, hback, resumed_of_switch _ hdistinct hreach hback⟩

/-! The vector registers on AArch64. -/

section

variable {T : Type} [DecidableEq T] {ctx : T → Word} {x x' : Coroutines AArch64.arch T}

/-- Every thread to which the running one can hand the machine back returns
from its call of `fast_swap_context`, with the `d8` to `d15` of the call. -/
def FloatsReturned (ctx : T → Word) (x : Coroutines AArch64.arch T) : Prop :=
  ∀ regs ret x', Switch ctx x (.suspended regs ret) x' →
    AArch64.arch.Resumed x'.machine (.suspended regs ret) ∧
      ∀ r ∈ AArch64.floatSaved, x'.machine.regs r = regs r

/-- The running thread has `d8` to `d15` as it found them, unless no other
thread waits for the return of a call. -/
def FloatsUntouched (x : Coroutines AArch64.arch T) : Prop :=
  (∀ r ∈ AArch64.floatSaved, x.machine.regs r = x.found r) ∨
    ∀ t regs ret, x.saved t ≠ some (.suspended regs ret)

/-- Every waiting call was made with the `d8` to `d15` that the running thread
found. -/
def FloatsFound (x : Coroutines AArch64.arch T) : Prop :=
  ∀ t regs ret, x.saved t = some (.suspended regs ret) →
    ∀ r ∈ AArch64.floatSaved, regs r = x.found r

theorem AArch64.eq_d_of_mem {r : AArch64.Reg} (h : r ∈ AArch64.floatSaved) :
    ∃ n, r = AArch64.Reg.d n := by
  simp only [AArch64.floatSaved, List.mem_cons, List.not_mem_nil, or_false] at h
  rcases h with rfl | rfl | rfl | rfl | rfl | rfl | rfl | rfl
  all_goals exact ⟨_, rfl⟩

/-- A switch leaves `d8` to `d15` to the thread that it resumes. -/
theorem Switch.floats {snap : Snapshot AArch64.arch} (h : Switch ctx x snap x') :
    x'.found = x'.machine.regs ∧
      ∀ r ∈ AArch64.floatSaved, x'.machine.regs r = x.machine.regs r := by
  cases h with
  | swap t ret snap hpush hsaved =>
      refine ⟨rfl, fun r hr => ?_⟩
      obtain ⟨n, rfl⟩ := AArch64.eq_d_of_mem hr
      exact AArch64.callSwap_d _ _ _ n
  | restore t ret snap hpush hsaved =>
      refine ⟨rfl, fun r hr => ?_⟩
      obtain ⟨n, rfl⟩ := AArch64.eq_d_of_mem hr
      exact AArch64.callRestore_d _ _ n

/-- The call that a switch returns from, and those that wait after it, are that
of the running thread or were waiting before. -/
theorem Switch.calls {snap : Snapshot AArch64.arch} (h : Switch ctx x snap x')
    {regs : AArch64.Reg → Word} {ret : Word}
    (hcall : snap = .suspended regs ret ∨ ∃ t, x'.saved t = some (.suspended regs ret)) :
    regs = x.machine.regs ∨ ∃ t, x.saved t = some (.suspended regs ret) := by
  cases h with
  | swap t ret₀ snap hpush hsaved =>
      have hmade : ∃ u, Function.update x.saved x.current
          (some (.suspended x.machine.regs ret₀)) u = some (.suspended regs ret) := by
        rcases hcall with rfl | ⟨u, hu⟩
        · exact ⟨t, hsaved⟩
        · exact ⟨u, saved_of_given hu⟩
      obtain ⟨u, hu⟩ := hmade
      by_cases hcurrent : u = x.current
      · rw [hcurrent, Function.update_self] at hu
        injection hu with hu
        injection hu with hregs _
        exact Or.inl hregs.symm
      · rw [Function.update_of_ne hcurrent] at hu
        exact Or.inr ⟨u, hu⟩
  | restore t ret₀ snap hpush hsaved =>
      rcases hcall with rfl | ⟨u, hu⟩
      · exact Or.inr ⟨t, hsaved⟩
      · exact Or.inr ⟨u, saved_of_given hu⟩

/-- With the registers untouched, whatever call is returned from or waits
after the switch was made with them. -/
theorem FloatsFound.call (h : FloatsFound x) (huntouched : FloatsUntouched x)
    {snap : Snapshot AArch64.arch} (hs : Switch ctx x snap x') {regs : AArch64.Reg → Word}
    {ret : Word}
    (hcall : snap = .suspended regs ret ∨ ∃ t, x'.saved t = some (.suspended regs ret)) :
    ∀ r ∈ AArch64.floatSaved, x'.machine.regs r = regs r := by
  intro r hr
  have hkept := hs.floats.2 r hr
  rcases hs.calls hcall with rfl | ⟨t, ht⟩
  · exact hkept
  · rcases huntouched with hsame | hnone
    · exact (hkept.trans (hsame r hr)).trans (h t regs ret ht r hr).symm
    · exact absurd ht (hnone t regs ret)

theorem FloatsFound.step (h : FloatsFound x) (hs : Step ctx FloatsUntouched x x') :
    FloatsFound x' := by
  cases hs with
  | work x' hwork =>
      cases hwork with
      | compute m hobject hstack => exact h
      | init t region stackTop entry hne hentry hcovers hfree hobject =>
          intro u regs ret hu
          by_cases hut : u = t
          · subst u
            simp at hu
          · simp only [Function.update_of_ne hut] at hu
            exact h u regs ret hu
  | switch snap x' huntouched hswitch =>
      intro t regs ret ht r hr
      rw [hswitch.floats.1]
      exact (h.call huntouched hswitch (Or.inr ⟨t, ht⟩) r hr).symm

theorem floatsFound_of_reachable (h : Reachable ctx FloatsUntouched x) : FloatsFound x := by
  obtain ⟨x₀, ⟨hnone, _, _⟩, hsteps⟩ := h
  induction hsteps with
  | refl =>
      intro t regs ret ht
      rw [hnone] at ht
      cases ht
  | tail _ hstep ih => exact ih.step hstep

/-- In every run whose switches were made with `d8` to `d15` untouched, the
threads that can be resumed next get their registers back exactly if the
running thread has not touched them either. -/
theorem floatsReturned_iff_of_reachable (hdistinct : DistinctContexts AArch64.arch ctx)
    (h : Reachable ctx FloatsUntouched x) : FloatsReturned ctx x ↔ FloatsUntouched x := by
  have hfound := floatsFound_of_reachable h
  constructor
  · intro hreturned
    by_contra htouched
    obtain ⟨hchanged, hwaits⟩ := not_or.mp htouched
    push Not at hchanged hwaits
    obtain ⟨r, hr, hne⟩ := hchanged
    obtain ⟨t, regs, ret, ht⟩ := hwaits
    have hpush : ∀ a ∈ AArch64.arch.pushes x.machine, a ∈ x.stack x.current :=
      fun a ha => absurd ha List.not_mem_nil
    obtain ⟨x', hswitch⟩ : ∃ x', Switch ctx x (.suspended regs ret) x' :=
      ⟨_, .restore t 0 _ hpush ht⟩
    have hback := (hreturned regs ret x' hswitch).2 r hr
    rw [hswitch.floats.2 r hr, hfound t regs ret ht r hr] at hback
    exact hne hback
  · intro huntouched regs ret x' hswitch
    refine ⟨?_, hfound.call huntouched hswitch (Or.inl rfl)⟩
    exact ((intact_of_reachable hdistinct AArch64.spec h).switch hdistinct hswitch).1

end

theorem floatsReturned_iff_of_reachable_two :
    Reachable twoContexts FloatsUntouched (handed AArch64.arch) ∧
      FloatsReturned twoContexts (handed AArch64.arch) ∧
        ∃ regs ret x', Switch twoContexts (handed AArch64.arch) (.suspended regs ret) x' := by
  have hdistinct : DistinctContexts AArch64.arch twoContexts := distinct_twoContexts (by decide)
  have hreach : Reachable twoContexts FloatsUntouched (handed AArch64.arch) := by
    refine handed_of_created ?_ (Or.inl fun _ _ => rfl) fun a ha => absurd ha List.not_mem_nil
    exact created_of_started (by decide) trivial _
  obtain ⟨x', hback⟩ := exists_switch_back (x := handed AArch64.arch) rfl rfl
    fun a ha => absurd ha List.not_mem_nil
  refine ⟨hreach, ?_, _, _, x', hback⟩
  exact (floatsReturned_iff_of_reachable hdistinct hreach).mpr (Or.inl fun _ _ => rfl)

/-- The second thread puts 2 into `d8`. -/
def overwritten : Coroutines AArch64.arch Bool :=
  { handed AArch64.arch with machine := (handed AArch64.arch).machine.set (AArch64.Reg.d 8) 2#64 }

/-- The first thread called with another value in `d8` than it returns with. -/
theorem not_floatsReturned_of_reachable : DistinctContexts AArch64.arch twoContexts ∧
    ∃ x, Reachable twoContexts (fun _ => True) x ∧ ¬ FloatsReturned twoContexts x := by
  refine ⟨distinct_twoContexts (by decide), overwritten, ?_, fun hreturned => ?_⟩
  · have hreach : Reachable twoContexts (fun _ => True) (handed AArch64.arch) := by
      refine handed_of_created ?_ trivial fun a ha => absurd ha List.not_mem_nil
      exact created_of_started (by decide) trivial _
    exact hreach.step (.work _ (.compute _ (fun _ _ _ => rfl) fun _ _ _ _ _ => rfl))
  · obtain ⟨x', hback⟩ := exists_switch_back (x := overwritten) rfl rfl
      fun a ha => absurd ha List.not_mem_nil
    have hd8 := (hreturned _ _ x' hback).2 (AArch64.Reg.d 8) (by decide)
    rw [hback.floats.2 _ (by decide)] at hd8
    exact absurd hd8 (by decide)

end Coroutines

end UserThreads
