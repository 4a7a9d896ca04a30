import Mathlib.Logic.Relation
import Mathlib.Order.WellFounded

/-!
# Guarded components over a shared state

A `Family` is a finite list of components that share one state. A component either has an enabled
transition, which `fire` performs, or it has none. `settle` is the usual fixed-point scheduler:
take the first component that can move, run it until it cannot, and start over, until no component
can move at all.

The scheduler has no bound of its own, so it is written with fuel. The two facts a user needs are
independent of the fuel:

* `settle_hops_where` and `settle_quiescent`: whatever the scheduler returns is reached by single
  transitions, each of a component that no earlier one could precede, and enables none;
* `exists_settle`: a measure that every transition decreases makes the scheduler return.

Invariants are therefore stated about single transitions (`Hop`) and lifted by `hops_invariant`.
-/

namespace Guarded

/-- A list of components over a shared state. `fire s i` is the state after component `i` has taken
its enabled transition in `s`, and `none` when it has none. No transition changes the components. -/
structure Family (S ι : Type*) where
  comps : S → List ι
  fire : S → ι → Option S
  comps_fire : ∀ {s i t}, fire s i = some t → comps t = comps s

namespace Family

variable {S ι : Type*} (F : Family S ι)

/-- One transition of one component. -/
def Hop (s t : S) : Prop := ∃ i ∈ F.comps s, F.fire s i = some t

/-- No component has an enabled transition. -/
def Quiescent (s : S) : Prop := ∀ i ∈ F.comps s, F.fire s i = none

/-- The first component that can move. -/
def first (s : S) : Option ι := (F.comps s).find? fun i => (F.fire s i).isSome

/-- Run one component until it cannot move. -/
def exhaust : ℕ → S → ι → Option S
  | 0, _, _ => none
  | n + 1, s, i =>
    match F.fire s i with
    | none => some s
    | some t => exhaust n t i

/-- The fixed-point scheduler. -/
def settle : ℕ → S → Option S
  | 0, _ => none
  | n + 1, s =>
    match F.first s with
    | none => some s
    | some i => (F.exhaust n s i).bind (settle n)

/-! ## What the scheduler returns -/

/-- A transition of a component that satisfies `P`. -/
def HopWhere (P : S → ι → Prop) (s t : S) : Prop := ∃ i ∈ F.comps s, P s i ∧ F.fire s i = some t

theorem HopWhere.hop {P : S → ι → Prop} {s t : S} (h : F.HopWhere P s t) : F.Hop s t := by
  obtain ⟨i, hi, _, hfire⟩ := h
  exact ⟨i, hi, hfire⟩

theorem first_mem {s : S} {i : ι} (h : F.first s = some i) : i ∈ F.comps s :=
  List.mem_of_find?_eq_some h

theorem first_fires {s : S} {i : ι} (h : F.first s = some i) : ∃ t, F.fire s i = some t :=
  Option.isSome_iff_exists.mp (by simpa using List.find?_some h)

theorem first_eq_none {s : S} : F.first s = none ↔ F.Quiescent s := by
  simp [first, Quiescent, List.find?_eq_none]

section Where

variable {P : S → ι → Prop}

/-- A component that runs alone only performs its own transitions, and what lasts while it runs holds
of each of them. -/
theorem exhaust_hops_where (hrun : ∀ {s i t}, P s i → F.fire s i = some t → P t i) {n : ℕ}
    {s t : S} {i : ι} (hi : i ∈ F.comps s) (hP : P s i) (h : F.exhaust n s i = some t) :
    Relation.ReflTransGen (F.HopWhere P) s t := by
  induction n generalizing s with
  | zero => simp [exhaust] at h
  | succ n ih =>
    simp only [exhaust] at h
    cases hfire : F.fire s i with
    | none =>
      rw [hfire] at h
      obtain rfl := Option.some.inj h
      exact .refl
    | some u =>
      rw [hfire] at h
      have hu : i ∈ F.comps u := by rw [F.comps_fire hfire]; exact hi
      exact .head ⟨i, hi, hP, hfire⟩ (ih hu (hrun hP hfire) h)

/-- The scheduler only performs transitions of components that it picks. -/
theorem settle_hops_where (hrun : ∀ {s i t}, P s i → F.fire s i = some t → P t i)
    (hpick : ∀ {s i}, F.first s = some i → P s i) {n : ℕ} {s t : S} (h : F.settle n s = some t) :
    Relation.ReflTransGen (F.HopWhere P) s t := by
  induction n generalizing s with
  | zero => simp [settle] at h
  | succ n ih =>
    simp only [settle] at h
    cases hfirst : F.first s with
    | none =>
      rw [hfirst] at h
      obtain rfl := Option.some.inj h
      exact .refl
    | some i =>
      rw [hfirst] at h
      obtain ⟨u, hu, ht⟩ := Option.bind_eq_some_iff.mp h
      exact (F.exhaust_hops_where hrun (F.first_mem hfirst) (hpick hfirst) hu).trans (ih ht)

end Where

/-- A component that runs alone only performs its own transitions. -/
theorem exhaust_hops {n : ℕ} {s t : S} {i : ι} (hi : i ∈ F.comps s)
    (h : F.exhaust n s i = some t) : Relation.ReflTransGen F.Hop s t :=
  Relation.ReflTransGen.mono (fun _ _ => HopWhere.hop F) _ _
    (F.exhaust_hops_where (P := fun _ _ => True) (fun _ _ => trivial) hi trivial h)

/-- The scheduler stops only where nothing is enabled. -/
theorem settle_quiescent {n : ℕ} {s t : S} (h : F.settle n s = some t) : F.Quiescent t := by
  induction n generalizing s with
  | zero => simp [settle] at h
  | succ n ih =>
    simp only [settle] at h
    cases hfirst : F.first s with
    | none =>
      rw [hfirst] at h
      obtain rfl := Option.some.inj h
      exact F.first_eq_none.mp hfirst
    | some i =>
      rw [hfirst] at h
      obtain ⟨u, _, ht⟩ := Option.bind_eq_some_iff.mp h
      exact ih ht

/-- A quiescent state is left as it is. -/
theorem settle_of_quiescent {n : ℕ} {s : S} (h : F.Quiescent s) : F.settle (n + 1) s = some s := by
  simp only [settle, F.first_eq_none.mpr h]

/-- The invariant rule: what every transition preserves, the scheduler preserves. -/
theorem hops_invariant {P : S → Prop} (hP : ∀ {s t}, P s → F.Hop s t → P t) {s t : S}
    (h : Relation.ReflTransGen F.Hop s t) (hs : P s) : P t := by
  induction h with
  | refl => exact hs
  | tail _ hop ih => exact hP ih hop

/-! ## More fuel never changes a result -/

theorem exhaust_mono {n m : ℕ} (hnm : n ≤ m) {s t : S} {i : ι} (h : F.exhaust n s i = some t) :
    F.exhaust m s i = some t := by
  induction n generalizing s m with
  | zero => simp [exhaust] at h
  | succ n ih =>
    obtain ⟨m, rfl⟩ : ∃ k, m = k + 1 := ⟨m - 1, by omega⟩
    simp only [exhaust] at h ⊢
    cases hfire : F.fire s i with
    | none => simpa [hfire] using h
    | some u =>
      simp only [hfire] at h ⊢
      exact ih (by omega) h

theorem settle_mono {n m : ℕ} (hnm : n ≤ m) {s t : S} (h : F.settle n s = some t) :
    F.settle m s = some t := by
  induction n generalizing s m with
  | zero => simp [settle] at h
  | succ n ih =>
    obtain ⟨m, rfl⟩ : ∃ k, m = k + 1 := ⟨m - 1, by omega⟩
    simp only [settle] at h ⊢
    cases hfirst : F.first s with
    | none => simpa [hfirst] using h
    | some i =>
      simp only [hfirst] at h ⊢
      obtain ⟨u, hu, ht⟩ := Option.bind_eq_some_iff.mp h
      exact Option.bind_eq_some_iff.mpr ⟨u, F.exhaust_mono (by omega) hu, ih (by omega) ht⟩

/-! ## Termination by a measure -/

section Termination

variable {α : Type*} [Preorder α] [WellFoundedLT α] {P : S → Prop} {μ : S → α}

/-- A component that runs alone stops, and it has lowered the measure if it could move. -/
theorem exists_exhaust (hP : ∀ {s t}, P s → F.Hop s t → P t)
    (hμ : ∀ {s t}, P s → F.Hop s t → μ t < μ s) {s : S} {i : ι} (hs : P s)
    (hi : i ∈ F.comps s) :
    ∃ n t, F.exhaust n s i = some t ∧ P t ∧ μ t ≤ μ s ∧
      (F.fire s i ≠ none → μ t < μ s) := by
  induction hd : μ s using WellFoundedLT.induction generalizing s with
  | _ d ih =>
    cases hfire : F.fire s i with
    | none => exact ⟨1, s, by simp [exhaust, hfire], hs, hd.le, fun h => absurd rfl h⟩
    | some u =>
      have hop : F.Hop s u := ⟨i, hi, hfire⟩
      have hlt : μ u < d := hd ▸ hμ hs hop
      obtain ⟨n, t, hn, hPt, hle, _⟩ :=
        ih (μ u) hlt (hP hs hop) (by rw [F.comps_fire hfire]; exact hi) rfl
      have htd : μ t < d := lt_of_le_of_lt hle hlt
      exact ⟨n + 1, t, by simp [exhaust, hfire, hn], hPt, htd.le, fun _ => htd⟩

/-- If every transition lowers a well-founded measure, the scheduler returns. -/
theorem exists_settle (hP : ∀ {s t}, P s → F.Hop s t → P t)
    (hμ : ∀ {s t}, P s → F.Hop s t → μ t < μ s) {s : S} (hs : P s) :
    ∃ n t, F.settle n s = some t := by
  induction hd : μ s using WellFoundedLT.induction generalizing s with
  | _ d ih =>
    cases hfirst : F.first s with
    | none => exact ⟨1, s, by simp [settle, hfirst]⟩
    | some i =>
      obtain ⟨u, hu⟩ := F.first_fires hfirst
      obtain ⟨n, v, hn, hPv, _, hlt⟩ := F.exists_exhaust hP hμ hs (F.first_mem hfirst)
      have hvd : μ v < d := hd ▸ hlt (by simp [hu])
      obtain ⟨m, t, hm⟩ := ih (μ v) hvd hPv rfl
      refine ⟨max n m + 1, t, ?_⟩
      simp only [settle, hfirst]
      exact Option.bind_eq_some_iff.mpr
        ⟨v, F.exhaust_mono (Nat.le_max_left n m) hn, F.settle_mono (Nat.le_max_right n m) hm⟩

end Termination

end Family

end Guarded
