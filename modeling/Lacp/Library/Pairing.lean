import Mathlib.Data.Set.Insert
import Mathlib.Logic.Function.Basic

/-!
# Pairings

A partial function that names a partner for some elements of a set is a pairing of the set if every
partner is in the set and names the element in turn. So no element is the partner of two, and who has a
partner is known at both ends. An element may be its own partner.

The rules follow what a program does to the two ends: a pair is made, a pair is broken, new elements
arrive, and an element leaves after its partner was told.
-/

namespace Pairing

variable {V : Type*} {S T : Set V} {p q : V → Option V} {u v : V}

/-- In `S` a partner is in `S`, and is the partner's partner. -/
def PairingOn (S : Set V) (p : V → Option V) : Prop :=
  ∀ u ∈ S, ∀ v, p u = some v → v ∈ S ∧ p v = some u

/-- Only the elements of the set count. -/
theorem PairingOn.congr (h : PairingOn S p) (hpq : ∀ u ∈ S, q u = p u) : PairingOn S q := by
  intro u hu v huv
  rw [hpq u hu] at huv
  obtain ⟨hv, hvu⟩ := h u hu v huv
  exact ⟨hv, (hpq v hv).trans hvu⟩

/-- Elements without a partner arrive. -/
theorem PairingOn.union (h : PairingOn S p) (hnew : ∀ u ∈ T, p u = none) : PairingOn (S ∪ T) p := by
  rintro u (hu | hu) v huv
  · obtain ⟨hv, hvu⟩ := h u hu v huv
    exact ⟨.inl hv, hvu⟩
  · exact absurd ((hnew u hu).symm.trans huv) (by simp)

/-- An element that has no partner leaves. -/
theorem PairingOn.diff (h : PairingOn S p) (hu : u ∈ S) (hpu : p u = none) :
    PairingOn (S \ {u}) p := by
  rintro x ⟨hx, hxu⟩ v hxv
  obtain ⟨hv, hvx⟩ := h x hx v hxv
  refine ⟨⟨hv, ?_⟩, hvx⟩
  rintro rfl
  exact absurd (hpu.symm.trans hvx) (by simp)

section Update

variable [DecidableEq V]

open Function (update)

/-- Two elements without a partner become a pair. -/
theorem PairingOn.link (h : PairingOn S p) (hu : u ∈ S) (hv : v ∈ S) (hpu : p u = none)
    (hpv : p v = none) : PairingOn S (update (update p u (some v)) v (some u)) := by
  -- neither of the two was the partner of anybody
  have hfree : ∀ x ∈ S, ∀ y, p x = some y → y ≠ u ∧ y ≠ v := by
    intro x hx y hxy
    obtain ⟨-, hyx⟩ := h x hx y hxy
    constructor
    · rintro rfl
      exact absurd (hpu.symm.trans hyx) (by simp)
    · rintro rfl
      exact absurd (hpv.symm.trans hyx) (by simp)
  intro x hx y hxy
  by_cases hxv : x = v
  · subst hxv
    rw [Function.update_self] at hxy
    obtain rfl := Option.some.inj hxy
    refine ⟨hu, ?_⟩
    by_cases hux : u = x
    · subst hux
      exact Function.update_self ..
    · rw [Function.update_of_ne hux, Function.update_self]
  · rw [Function.update_of_ne hxv] at hxy
    by_cases hxu : x = u
    · subst hxu
      rw [Function.update_self] at hxy
      obtain rfl := Option.some.inj hxy
      exact ⟨hv, Function.update_self ..⟩
    · rw [Function.update_of_ne hxu] at hxy
      obtain ⟨hyu, hyv⟩ := hfree x hx y hxy
      rw [Function.update_of_ne hyv, Function.update_of_ne hyu]
      exact h x hx y hxy

/-- A pair is broken. -/
theorem PairingOn.unlink (h : PairingOn S p) (hu : u ∈ S) (hpu : p u = some v) :
    PairingOn S (update (update p u none) v none) := by
  obtain ⟨hv, hpv⟩ := h u hu v hpu
  intro x hx y hxy
  have hxv : x ≠ v := by
    rintro rfl
    simp at hxy
  rw [Function.update_of_ne hxv] at hxy
  have hxu : x ≠ u := by
    rintro rfl
    simp at hxy
  rw [Function.update_of_ne hxu] at hxy
  obtain ⟨hy, hyx⟩ := h x hx y hxy
  have hyv : y ≠ v := by
    rintro rfl
    exact hxu (Option.some.inj (hyx.symm.trans hpv))
  have hyu : y ≠ u := by
    rintro rfl
    exact hxv (Option.some.inj (hyx.symm.trans hpu))
  rw [Function.update_of_ne hyv, Function.update_of_ne hyu]
  exact ⟨hy, hyx⟩

/-- Breaking a pair gives nobody a partner. -/
theorem unlink_eq_none {x : V} (h : p x = none ∨ x = u) : update (update p u none) v none x = none := by
  by_cases hxv : x = v
  · subst hxv
    exact Function.update_self ..
  · rw [Function.update_of_ne hxv]
    rcases h with hnone | rfl
    · rw [Function.update_apply, hnone, ite_self]
    · exact Function.update_self ..

/-- An element leaves, and only its partner is told. -/
theorem PairingOn.leave (h : PairingOn S p) (hu : u ∈ S) (hpu : p u = some v) :
    PairingOn (S \ {u}) (update p v none) := by
  have hbroken := h.unlink hu hpu
  refine (hbroken.diff hu (unlink_eq_none (.inr rfl))).congr fun x hx => ?_
  by_cases hxv : x = v
  · subst hxv
    simp
  · rw [Function.update_of_ne hxv, Function.update_of_ne hxv, Function.update_of_ne hx.2]

end Update

end Pairing
