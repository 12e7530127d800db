import Mathlib.Logic.Function.Basic
import Mathlib.Logic.Relation

/-!
# Chains kept in slots

Members of a relation are kept in slots, and every slot has a head. The
discipline is that the head of a slot leads to each of its members without
leaving the slot. It survives the ways in which chains grow and shrink: a
member at the end of its chain leaves, a new member gets a slot of its own,
and a member with nothing after it becomes the head of another slot.
-/

namespace Transition

open Relation

variable {ι σ : Type*}

section Paths

variable {R P : ι → ι → Prop} {a c t x : ι}

/-- Every link of a path has another link after it, unless it ends the path. -/
theorem reflTransGen_of_links (h : ReflTransGen R a x)
    (hlink : ∀ u v, R u v → v = x ∨ (∃ w, R v w) → P u v) : ReflTransGen P a x := by
  induction h with
  | refl => exact .refl
  | tail hpath hlast ih =>
      refine .tail (ih fun u v huv hv => hlink u v huv ?_) (hlink _ _ hlast (Or.inl rfl))
      rcases hv with rfl | hnext
      · exact Or.inr ⟨_, hlast⟩
      · exact Or.inr hnext

theorem transGen_of_links (h : TransGen R a x)
    (hlink : ∀ u v, R u v → v = x ∨ (∃ w, R v w) → P u v) : TransGen P a x := by
  obtain ⟨b, hpath, hlast⟩ := TransGen.tail'_iff.mp h
  refine TransGen.tail' (reflTransGen_of_links hpath fun u v huv hv => hlink u v huv ?_)
    (hlink b x hlast (Or.inl rfl))
  rcases hv with rfl | hnext
  · exact Or.inr ⟨x, hlast⟩
  · exact Or.inr hnext

/-- A path to a member without predecessors is empty. -/
theorem eq_of_reflTransGen (h : ReflTransGen R a x) (hfirst : ∀ u, ¬ R u x) : a = x := by
  cases h with
  | refl => rfl
  | tail hpath hlast => exact absurd hlast (hfirst _)

/-- No member comes after itself. -/
def Acyclic (R : ι → ι → Prop) : Prop := ∀ x, ¬ TransGen R x x

theorem Acyclic.mono (h : Acyclic R) (hsub : ∀ u v, P u v → R u v) : Acyclic P :=
  fun x hcycle => h x (TransGen.mono hsub x x hcycle)

/-- A path that may use one more link uses it or not. -/
theorem transGen_insert (hsub : ∀ u v, P u v → R u v ∨ u = c ∧ v = t) (h : TransGen P a x) :
    TransGen R a x ∨ ReflTransGen R a c ∧ ReflTransGen R t x := by
  induction h with
  | single hlink =>
      rcases hsub _ _ hlink with hold | ⟨rfl, rfl⟩
      · exact Or.inl (.single hold)
      · exact Or.inr ⟨.refl, .refl⟩
  | tail hpath hlast ih =>
      rcases hsub _ _ hlast with hold | ⟨rfl, rfl⟩
      · rcases ih with hbefore | ⟨hto, hfrom⟩
        · exact Or.inl (.tail hbefore hold)
        · exact Or.inr ⟨hto, .tail hfrom hold⟩
      · rcases ih with hbefore | ⟨hto, hfrom⟩
        · exact Or.inr ⟨hbefore.to_reflTransGen, .refl⟩
        · exact Or.inr ⟨hto, .refl⟩

/-- A link from `c` to `t` closes a cycle only where `t` leads to `c`. -/
theorem Acyclic.insert (h : Acyclic R) (hsub : ∀ u v, P u v → R u v ∨ u = c ∧ v = t)
    (hno : ¬ ReflTransGen R t c) : Acyclic P := by
  intro x hcycle
  rcases transGen_insert hsub hcycle with hold | ⟨hto, hfrom⟩
  · exact h x hold
  · exact hno (hfrom.trans hto)

end Paths

section Slots

variable {R R' : ι → ι → Prop} {slot slot' : ι → Option σ} {head head' : σ → ι}
  {live live' : List ι} {c n t x : ι} {r : σ}

/-- The links of `R` between members of the slot `r`. -/
def Within (R : ι → ι → Prop) (slot : ι → Option σ) (r : σ) (x y : ι) : Prop :=
  R x y ∧ slot x = some r ∧ slot y = some r

/-- The head of each slot leads to all its members within the slot. -/
def Headed (live : List ι) (R : ι → ι → Prop) (slot : ι → Option σ) (head : σ → ι) : Prop :=
  ∀ x ∈ live, ∀ r, slot x = some r → ReflTransGen (Within R slot r) (head r) x

namespace Headed

/-- A member that nothing leads to is the head of its slot. -/
theorem head_eq (h : Headed live R slot head) (hx : x ∈ live) (hr : slot x = some r)
    (hfirst : ∀ u, ¬ R u x) : head r = x :=
  eq_of_reflTransGen (h x hx r hr) fun u hlink => hfirst u hlink.1

/-- Links and slots may change where no path needs them. -/
theorem keep (h : Headed live R slot head) (hsub : live' ⊆ live)
    (hslot : ∀ x ∈ live', slot' x = slot x)
    (hhead : ∀ x ∈ live', ∀ r, slot x = some r → head' r = head r)
    (hlink : ∀ r u v, Within R slot r u v → v ∈ live' ∨ (∃ w, R v w) → Within R' slot' r u v) :
    Headed live' R' slot' head' := by
  intro x hx r hr
  rw [hslot x hx] at hr
  rw [hhead x hx r hr]
  refine reflTransGen_of_links (h x (hsub hx) r hr) fun u v huv hv => hlink r u v huv ?_
  rcases hv with rfl | ⟨w, hw⟩
  · exact Or.inl hx
  · exact Or.inr ⟨w, hw.1⟩

/-- A new member gets a slot that nobody has. -/
theorem open_slot [DecidableEq σ] (h : Headed live R slot head)
    (hlive : ∀ x ∈ live', x = n ∨ x ∈ live) (hn : slot' n = some r)
    (hslot : ∀ x ∈ live, x ≠ n → slot' x = slot x) (hfree : ∀ x ∈ live, slot x ≠ some r)
    (hlink : ∀ r u v, Within R slot r u v → Within R' slot' r u v) :
    Headed live' R' slot' (Function.update head r n) := by
  intro x hx q hq
  by_cases hxn : x = n
  · subst x
    obtain rfl : r = q := Option.some.inj (hn.symm.trans hq)
    rw [Function.update_self]
  · have hold := (hlive x hx).resolve_left hxn
    rw [hslot x hold hxn] at hq
    have hne : q ≠ r := fun heq => hfree x hold (heq ▸ hq)
    rw [Function.update_of_ne hne]
    exact ReflTransGen.mono (hlink q) _ _ (h x hold q hq)

/-- A member `c` with nothing after it links to the head `t` of another slot,
moves there, and is the head from now on. What led to `c` before is left
behind in the slot that `c` had. -/
theorem attach [DecidableEq σ] (h : Headed live R slot head) (hend : ∀ y, ¬ R c y)
    (ht : slot t = some r) (hhead : head r = t) (hne : t ≠ c) (hc : slot' c = some r)
    (hslot : ∀ x, x ≠ c → slot' x = slot x) (hlink : R' c t) (hkeep : ∀ u v, R u v → R' u v) :
    Headed live R' slot' (Function.update head r c) := by
  intro x hx q hq
  by_cases hxc : x = c
  · subst x
    obtain rfl : r = q := Option.some.inj (hc.symm.trans hq)
    rw [Function.update_self]
  · rw [hslot x hxc] at hq
    -- The old path to `x` does not touch `c`, which has no link to go on with.
    have hpath : ReflTransGen (Within R' slot' q) (head q) x := by
      refine reflTransGen_of_links (h x hx q hq) ?_
      rintro u v ⟨huv, hu, hv⟩ hnext
      have huc : u ≠ c := fun heq => hend v (heq ▸ huv)
      have hvc : v ≠ c := by
        rcases hnext with rfl | ⟨w, hw, -, -⟩
        · exact hxc
        · exact fun heq => hend w (heq ▸ hw)
      exact ⟨hkeep u v huv, (hslot u huc).trans hu, (hslot v hvc).trans hv⟩
    by_cases hqr : q = r
    · subst q
      rw [Function.update_self]
      exact .head ⟨hlink, hc, (hslot t hne).trans ht⟩ (hhead ▸ hpath)
    · rw [Function.update_of_ne hqr]
      exact hpath

end Headed

end Slots

end Transition
