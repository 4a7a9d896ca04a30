import Mathlib.Data.List.Range
import Mathlib.Data.Nat.Notation

/-!
# Computations with fuel

A computation that may run for ever is a function of its fuel, with `none` for "not finished yet".
`ReturnsTo f x` says that it finishes with `x` on every large enough amount of fuel. The lemmas follow
the shape of the program: a constant, a `bind`, a `map`, and a loop over the first `n` numbers.

The next computation of a `bind` or of a loop only has to return on what the one before it can produce
with some amount of fuel, so facts about single results carry over.
-/

namespace Fuel

variable {α β : Type*}

/-- With enough fuel the result is `x`. -/
def ReturnsTo (f : ℕ → Option α) (x : α) : Prop := ∃ N, ∀ n ≥ N, f n = some x

/-- With enough fuel there is a result, always the same. -/
def Returns (f : ℕ → Option α) : Prop := ∃ x, ReturnsTo f x

section Rules

variable {f : ℕ → Option α} {g : ℕ → α → Option β} {x : α} {y : β}

theorem ReturnsTo.exists_eq_some (h : ReturnsTo f x) : ∃ n, f n = some x := by
  obtain ⟨N, hN⟩ := h
  exact ⟨N, hN N le_rfl⟩

theorem ReturnsTo.bind (hf : ReturnsTo f x) (hg : ReturnsTo (fun n => g n x) y) :
    ReturnsTo (fun n => (f n).bind (g n)) y := by
  obtain ⟨N, hN⟩ := hf
  obtain ⟨M, hM⟩ := hg
  refine ⟨max N M, fun n hn => ?_⟩
  show (f n).bind (g n) = some y
  rw [hN n (le_trans (Nat.le_max_left N M) hn), Option.bind_some]
  exact hM n (le_trans (Nat.le_max_right N M) hn)

theorem Returns.const (x : α) : Returns fun _ => some x := ⟨x, 0, fun _ _ => rfl⟩

theorem Returns.congr {f' : ℕ → Option α} (h : Returns f) (heq : ∀ n, f' n = f n) : Returns f' := by
  obtain ⟨x, N, hN⟩ := h
  exact ⟨x, N, fun n hn => (heq n).trans (hN n hn)⟩

theorem Returns.bind (hf : Returns f) (hg : ∀ n x, f n = some x → Returns fun n => g n x) :
    Returns fun n => (f n).bind (g n) := by
  obtain ⟨x, hx⟩ := hf
  obtain ⟨n, hn⟩ := hx.exists_eq_some
  obtain ⟨y, hy⟩ := hg n x hn
  exact ⟨y, hx.bind hy⟩

theorem Returns.map (hf : Returns f) (k : α → β) : Returns fun n => (f n).map k := by
  obtain ⟨x, N, hN⟩ := hf
  exact ⟨k x, N, fun n hn => congrArg (Option.map k) (hN n hn)⟩

end Rules

/-- What every round keeps, a loop that ends keeps. -/
theorem foldlM_invariant {σ : Type*} {P : σ → Prop} {f : σ → α → Option σ} {xs : List α} {s t : σ}
    (hround : ∀ x ∈ xs, ∀ s t, P s → f s x = some t → P t) (hs : P s)
    (hrun : xs.foldlM f s = some t) : P t := by
  induction xs generalizing s with
  | nil =>
    obtain rfl := Option.some.inj hrun
    exact hs
  | cons x xs ih =>
    obtain ⟨u, hu, hrest⟩ := Option.bind_eq_some_iff.mp hrun
    exact ih (fun y hy => hround y (List.mem_cons_of_mem _ hy)) (hround x List.mem_cons_self s u hs hu)
      hrest

/-- A loop returns if every round returns on what the rounds before it can produce. -/
theorem Returns.foldlM_range {σ : Type*} {f : ℕ → σ → ℕ → Option σ} {s : σ} {n : ℕ}
    (h : ∀ k < n, ∀ m t, (List.range k).foldlM (f m) s = some t → Returns fun m => f m t k) :
    Returns fun m => (List.range n).foldlM (f m) s := by
  induction n with
  | zero => exact .const s
  | succ n ih =>
    have hfirst := ih fun k hk => h k (Nat.lt_succ_of_lt hk)
    refine (hfirst.bind (g := fun m t => f m t n) (h n (Nat.lt_succ_self n))).congr fun m => ?_
    rw [List.range_succ, List.foldlM_append]
    simp only [List.foldlM_cons, List.foldlM_nil, Option.pure_def, Option.bind_eq_bind,
      Option.bind_fun_some]

end Fuel
