import Mathlib.Data.List.Basic
import Mathlib.Logic.Function.Basic

/-!
# Reading a history

A history is a list of entries, the latest first. Three readings of it: the
verdict of the latest entry that gives one, the part since the last reset, and
the order in which keys appear.
-/

namespace Transition

variable {ε β κ : Type*}

/-- The verdict of the latest entry that gives one, else the default. -/
def latest (verdict : ε → Option β) (default : β) : List ε → β
  | [] => default
  | e :: rest => (verdict e).getD (latest verdict default rest)

section Latest

variable {verdict : ε → Option β} {d b : β} {e : ε} {rest hist : List ε}

theorem latest_cons_some (h : verdict e = some b) : latest verdict d (e :: rest) = b := by
  simp [latest, h]

theorem latest_cons_none (h : verdict e = none) :
    latest verdict d (e :: rest) = latest verdict d rest := by
  simp [latest, h]

theorem latest_append_none {l : List ε} (h : ∀ e ∈ l, verdict e = none) :
    latest verdict d (l ++ hist) = latest verdict d hist := by
  induction l with
  | nil => rfl
  | cons e l ih =>
      rw [List.cons_append, latest_cons_none (h e List.mem_cons_self)]
      exact ih fun e' he' => h e' (List.mem_cons_of_mem e he')

/-- A history without verdicts leaves the default. -/
theorem latest_silent (h : ∀ e ∈ hist, verdict e = none) : latest verdict d hist = d := by
  calc latest verdict d hist = latest verdict d (hist ++ []) := by rw [List.append_nil]
    _ = d := latest_append_none h

/-- A verdict that is not the default was given by an entry. -/
theorem exists_of_latest_ne (h : latest verdict d hist ≠ d) :
    ∃ e ∈ hist, verdict e = some (latest verdict d hist) := by
  induction hist with
  | nil => exact absurd rfl h
  | cons e rest ih =>
      cases he : verdict e with
      | none =>
          rw [latest_cons_none he] at h ⊢
          obtain ⟨e', he', hv⟩ := ih h
          exact ⟨e', List.mem_cons_of_mem e he', hv⟩
      | some b =>
          rw [latest_cons_some he]
          exact ⟨e, List.mem_cons_self, he⟩

/-- Where no entry can give the default, the default means that none did. -/
theorem silent_of_latest_eq (hd : ∀ e, verdict e ≠ some d) (h : latest verdict d hist = d) :
    ∀ e ∈ hist, verdict e = none := by
  induction hist with
  | nil => simp
  | cons e rest ih =>
      cases he : verdict e with
      | none =>
          rw [latest_cons_none he] at h
          intro e' he'
          rcases List.mem_cons.mp he' with rfl | he'
          · exact he
          · exact ih h e' he'
      | some b =>
          rw [latest_cons_some he] at h
          exact absurd (h ▸ he) (hd e)

end Latest

/-- Every entry satisfies `P` after the entries before it. -/
def Throughout (P : List ε → ε → Prop) : List ε → Prop
  | [] => True
  | e :: past => P past e ∧ Throughout P past

section Throughout

variable {P : List ε → ε → Prop} {e : ε} {hist : List ε}

theorem Throughout.append {l : List ε} (h : Throughout P hist)
    (hnew : ∀ past, ∀ e ∈ l, P past e) : Throughout P (l ++ hist) := by
  induction l with
  | nil => exact h
  | cons e l ih =>
      refine ⟨hnew _ e List.mem_cons_self, ih fun past e' he' => ?_⟩
      exact hnew past e' (List.mem_cons_of_mem e he')

theorem Throughout.mono {Q : List ε → ε → Prop} (h : Throughout P hist)
    (weaker : ∀ past e, P past e → Q past e) : Throughout Q hist := by
  induction hist with
  | nil => trivial
  | cons e past ih => exact ⟨weaker past e h.1, ih h.2⟩

theorem Throughout.of_mem (h : Throughout P hist) (he : e ∈ hist) :
    ∃ past, (e :: past) <:+ hist ∧ P past e := by
  induction hist with
  | nil => cases he
  | cons e' past ih =>
      rcases List.mem_cons.mp he with rfl | he
      · exact ⟨past, List.suffix_refl _, h.1⟩
      · obtain ⟨past', hsuffix, hP⟩ := ih h.2 he
        exact ⟨past', hsuffix.trans (List.suffix_cons _ _), hP⟩

end Throughout

/-- The entries after the last reset. -/
def since (reset : ε → Bool) (hist : List ε) : List ε := hist.takeWhile fun e => !reset e

section Since

variable {reset : ε → Bool} {e : ε} {hist : List ε}

theorem since_cons_reset (h : reset e = true) : since reset (e :: hist) = [] := by
  simp [since, h]

theorem since_cons_keep (h : reset e = false) :
    since reset (e :: hist) = e :: since reset hist := by
  simp [since, h]

theorem since_append_keep {l : List ε} (h : ∀ e ∈ l, reset e = false) :
    since reset (l ++ hist) = l ++ since reset hist := by
  induction l with
  | nil => rfl
  | cons e l ih =>
      rw [List.cons_append, since_cons_keep (h e List.mem_cons_self),
        ih fun e' he' => h e' (List.mem_cons_of_mem e he')]
      rfl

end Since

/-- The keys of the entries that have one, the oldest first. -/
def order (key : ε → Option κ) (hist : List ε) : List κ := (hist.filterMap key).reverse

section Order

variable {key : ε → Option κ} {e : ε} {k : κ} {hist : List ε}

theorem order_cons_some (h : key e = some k) : order key (e :: hist) = order key hist ++ [k] := by
  simp [order, h]

theorem order_cons_none (h : key e = none) : order key (e :: hist) = order key hist := by
  simp [order, h]

theorem order_append_none {l : List ε} (h : ∀ e ∈ l, key e = none) :
    order key (l ++ hist) = order key hist := by
  induction l with
  | nil => rfl
  | cons e l ih =>
      rw [List.cons_append, order_cons_none (h e List.mem_cons_self)]
      exact ih fun e' he' => h e' (List.mem_cons_of_mem e he')

end Order

/-! Records that agree with a history. -/

section Mirrors

variable {ι α : Type*}

/-- The field `π` of each live record is what the history says about its key. -/
def Mirrors (live : List ι) (record : ι → α) (k : α → κ) (π : α → β)
    (verdict : κ → ε → Option β) (d : β) (hist : List ε) : Prop :=
  ∀ t ∈ live, π (record t) = latest (verdict (k (record t))) d hist

variable {live live' : List ι} {record record' : ι → α} {k : α → κ} {π : α → β}
  {verdict : κ → ε → Option β} {d : β} {hist l : List ε}

/-- Entries without a verdict, and writes outside the key and the field. -/
theorem Mirrors.silent (h : Mirrors live record k π verdict d hist) (hsub : live' ⊆ live)
    (hkey : ∀ t ∈ live, k (record' t) = k (record t))
    (hfield : ∀ t ∈ live, π (record' t) = π (record t))
    (hnew : ∀ x, ∀ e ∈ l, verdict x e = none) :
    Mirrors live' record' k π verdict d (l ++ hist) := by
  intro t ht
  rw [hkey t (hsub ht), hfield t (hsub ht), latest_append_none (hnew _)]
  exact h t (hsub ht)

/-- One entry about one live record, whose field takes the new value. -/
theorem Mirrors.set [DecidableEq ι] (h : Mirrors live record k π verdict d hist) {t : ι} {a : α}
    {e : ε} (hinj : ∀ u ∈ live, k (record u) = k (record t) → u = t)
    (hkey : k a = k (record t)) (hself : verdict (k (record t)) e = some (π a))
    (hother : ∀ x, x ≠ k (record t) → verdict x e = none) :
    Mirrors live (Function.update record t a) k π verdict d (e :: hist) := by
  intro u hu
  by_cases hut : u = t
  · subst u
    rw [Function.update_self, hkey, latest_cons_some hself]
  · have hne : k (record u) ≠ k (record t) := fun heq => hut (hinj u hu heq)
    rw [Function.update_of_ne hut, latest_cons_none (hother _ hne)]
    exact h u hu

/-- A new record, about whose key the history has one entry. -/
theorem Mirrors.cons (h : Mirrors live record k π verdict d hist) {t : ι}
    (hkey : ∀ u ∈ live, k (record' u) = k (record u))
    (hfield : ∀ u ∈ live, π (record' u) = π (record u))
    (hnew : ∀ u ∈ live, ∀ e ∈ l, verdict (k (record u)) e = none)
    (hself : π (record' t) = latest (verdict (k (record' t))) d (l ++ hist)) :
    Mirrors (t :: live) record' k π verdict d (l ++ hist) := by
  intro u hu
  rcases List.mem_cons.mp hu with rfl | hu
  · exact hself
  · rw [hkey u hu, hfield u hu, latest_append_none (hnew u hu)]
    exact h u hu

end Mirrors

/-! Histories that balance. -/

/-- Since the last reset, what has come in, with the amount at the reset, is
there or has gone out. -/
def InBalance (reset credit debit : ε → Bool) (base amount : Int) (hist : List ε) : Prop :=
  base + (since reset hist).countP credit = amount + (since reset hist).countP debit

section InBalance

variable {reset credit debit : ε → Bool} {base amount amount' : Int} {hist l : List ε}

theorem inBalance_reset {e : ε} (he : reset e = true) :
    InBalance reset credit debit base base (e :: hist) := by
  unfold InBalance
  rw [since_cons_reset he]
  rfl

theorem InBalance.append (h : InBalance reset credit debit base amount hist)
    (hkeep : ∀ e ∈ l, reset e = false)
    (hchange : amount' + l.countP debit = amount + l.countP credit) :
    InBalance reset credit debit base amount' (l ++ hist) := by
  unfold InBalance at h ⊢
  rw [since_append_keep hkeep, List.countP_append, List.countP_append]
  push_cast
  omega

end InBalance

end Transition
