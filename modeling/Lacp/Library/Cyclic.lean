import Mathlib.Data.List.Cycle
import Mathlib.Data.Nat.Notation

/-!
# Loops around a list

A list without duplicates stands for the elements of a ring in their order, and Mathlib's `List.next` is
the element that comes next. `linkEach` is the loop that visits every element together with its next one.
What a round establishes about its pair holds at the end if it outlives the rounds of the other pairs
(`linkEach_next`): no element is the first of two pairs, and none is the second of two.
-/

namespace Cyclic

variable {σ α : Type*} {link : σ → α → α → σ} {first a b : α} {l : List α} {s : σ}

/-- The loop over the rest `l` of a list that begins with `first`, the element that follows the last. -/
def linkEach (link : σ → α → α → σ) (first : α) (s : σ) : List α → σ
  | [] => s
  | a :: l => linkEach link first (link s a (l.headD first)) l

/-- What every round keeps, the loop keeps. -/
theorem linkEach_invariant {P : σ → Prop} (hround : ∀ s a b, P s → P (link s a b)) (hs : P s) :
    P (linkEach link first s l) := by
  induction l generalizing s with
  | nil => exact hs
  | cons a l ih => exact ih (hround s a (l.headD first) hs)

section Pairs

variable {P : σ → Prop} {Q : α → α → σ → Prop}

theorem headD_ne (hnodup : l.Nodup) (hfirst : first ∉ l) :
    l.headD first ∉ l.tail ∧ (l ≠ [] → l.headD first ≠ first) := by
  cases l with
  | nil => exact ⟨List.not_mem_nil, fun hne => absurd rfl hne⟩
  | cons c l =>
    refine ⟨(List.nodup_cons.mp hnodup).1, fun _ heq => hfirst ?_⟩
    rw [← heq]
    exact List.mem_cons_self

/-- A pair outlives the rounds of the elements that come later. -/
theorem linkEach_frame (hround : ∀ s a b, P s → P (link s a b))
    (hframe : ∀ s a b c d, P s → Q a b s → c ≠ a → d ≠ b → Q a b (link s c d)) (hs : P s)
    (hq : Q a b s) (ha : a ∉ l) (hb : b ∉ l.tail ∧ (l ≠ [] → b ≠ first)) :
    Q a b (linkEach link first s l) := by
  induction l generalizing s with
  | nil => exact hq
  | cons c l ih =>
    obtain ⟨hac, ha⟩ := List.ne_and_not_mem_of_not_mem_cons ha
    have hbfirst : b ≠ first := hb.2 (List.cons_ne_nil c l)
    have hb : b ∉ l := hb.1
    have hdb : l.headD first ≠ b := by
      cases l with
      | nil => exact hbfirst.symm
      | cons d l => exact (List.ne_of_not_mem_cons hb).symm
    exact ih (hround s c _ hs) (hframe s a b c _ hs hq hac.symm hdb) ha
      ⟨fun hin => hb (List.mem_of_mem_tail hin), fun _ => hbfirst⟩

variable [DecidableEq α]

/-- Every pair outlives the loop, from any element of the list on. -/
theorem linkEach_nextOr (hround : ∀ s a b, P s → P (link s a b))
    (hlink : ∀ s a b, P s → Q a b (link s a b))
    (hframe : ∀ s a b c d, P s → Q a b s → c ≠ a → d ≠ b → Q a b (link s c d)) (hs : P s)
    (hnodup : l.Nodup) (hfirst : first ∉ l.tail) (ha : a ∈ l) :
    Q a (l.nextOr a first) (linkEach link first s l) := by
  induction l generalizing s with
  | nil => exact absurd ha List.not_mem_nil
  | cons c l ih =>
    obtain ⟨hc, hrest⟩ := List.nodup_cons.mp hnodup
    have hs' := hround s c (l.headD first) hs
    rcases List.mem_cons.mp ha with rfl | ha
    · have hnext : (a :: l).nextOr a first = l.headD first := by cases l <;> simp
      rw [hnext, linkEach]
      exact linkEach_frame hround hframe hs' (hlink s a _ hs) hc (headD_ne hrest hfirst)
    · rw [List.nextOr_cons_of_ne l c a first (ne_of_mem_of_not_mem ha hc)]
      exact ih hs' hrest (fun hin => hfirst (List.mem_of_mem_tail hin)) ha

/-- At the end of a loop around the list, every element is paired with the one that comes next. -/
theorem linkEach_next (hround : ∀ s a b, P s → P (link s a b))
    (hlink : ∀ s a b, P s → Q a b (link s a b))
    (hframe : ∀ s a b c d, P s → Q a b s → c ≠ a → d ≠ b → Q a b (link s c d)) (hs : P s)
    (hnodup : l.Nodup) (hfirst : l.head? = some first) (ha : a ∈ l) :
    Q a (l.next a ha) (linkEach link first s l) := by
  obtain ⟨rest, rfl⟩ := List.head?_eq_some_iff.mp hfirst
  exact linkEach_nextOr hround hlink hframe hs hnodup (List.nodup_cons.mp hnodup).1 ha

end Pairs

end Cyclic
