import Mathlib.Data.List.Infix
import Mathlib.Data.List.TakeWhile

/-!
# Words and keywords

The words of a text are what stands between its delimiters. A scanner that takes the first word finds the
other words in what is left (`words_eq_next`), and a text that was put together of words and blanks has these
words (`words_spaced`).

A dictionary finds the entry whose key a text starts with. Where no key is a prefix of another, there is at
most one such entry, so the order of the dictionary makes no difference (`find?_perm`). The entries that a
text abbreviates are those whose keys start with the text; an entry is the only one regardless of the order.
-/

namespace Words

variable {α β : Type*}

/-! ## Words -/

section Words

variable {p : α → Bool} {l r t : List α} {a : α}

/-- The words of a text; `p` says what a delimiter is. -/
def words (p : α → Bool) (l : List α) : List (List α) := (l.splitOnP p).filter fun t => !t.isEmpty

/-- The first word, and what follows the delimiter after it. -/
def next (p : α → Bool) (l : List α) : Option (List α × List α) :=
  match l.dropWhile p with
  | [] => none
  | a :: rest => some ((a :: rest).takeWhile (!p ·), ((a :: rest).dropWhile (!p ·)).tail)

@[simp] theorem words_nil (p : α → Bool) : words p [] = [] := by simp [words]

theorem words_append_cons (l r : List α) (ha : p a = true) :
    words p (l ++ a :: r) = words p l ++ words p r := by
  simp only [words, List.splitOnP_append_cons l r ha, List.filter_append]

theorem words_cons_delimiter (l : List α) (ha : p a = true) : words p (a :: l) = words p l := by
  simpa using words_append_cons [] l ha

/-- A text without a delimiter is a word. -/
theorem words_word (hne : t ≠ []) (ht : ∀ a ∈ t, p a = false) : words p t = [t] := by
  simp [words, List.splitOnP_eq_singleton ht, hne]

theorem words_word_cons (hne : t ≠ []) (ht : ∀ a ∈ t, p a = false) (r : List α) (ha : p a = true) :
    words p (t ++ a :: r) = t :: words p r := by
  rw [words_append_cons t r ha, words_word hne ht, List.singleton_append]

/-- Blanks in front make no difference. -/
theorem words_blank_append (hl : ∀ a ∈ l, p a = true) (r : List α) : words p (l ++ r) = words p r := by
  induction l with
  | nil => rfl
  | cons a l ih =>
    rw [List.cons_append, words_cons_delimiter _ (hl a List.mem_cons_self)]
    exact ih fun b hb => hl b (List.mem_cons_of_mem _ hb)

theorem words_dropWhile (l : List α) : words p (l.dropWhile p) = words p l := by
  rw [← words_blank_append (r := l.dropWhile p) fun a ha => List.mem_takeWhile_imp ha,
    List.takeWhile_append_dropWhile]

theorem eq_false_of_dropWhile_eq_cons (h : l.dropWhile p = a :: r) : p a = false := by
  simpa [h] using List.head?_dropWhile_not p l

/-- What a step of the scanner takes is the first word. -/
theorem words_eq_next (p : α → Bool) (l : List α) :
    words p l = (next p l).elim [] fun s => s.1 :: words p s.2 := by
  rw [← words_dropWhile]
  simp only [next]
  cases hrest : l.dropWhile p with
  | nil => rfl
  | cons a rest =>
    have ha := eq_false_of_dropWhile_eq_cons hrest
    simp only [Option.elim_some]
    have hword : ∀ b ∈ (a :: rest).takeWhile (!p ·), p b = false := fun b hb => by
      simpa using List.mem_takeWhile_imp hb
    have hne : (a :: rest).takeWhile (!p ·) ≠ [] := by simp [ha]
    conv_lhs => rw [← List.takeWhile_append_dropWhile (p := (!p ·)) (l := a :: rest)]
    cases hafter : (a :: rest).dropWhile (!p ·) with
    | nil => rw [List.append_nil, List.tail_nil, words_nil, words_word hne hword]
    | cons d after =>
      have hd : p d = true := by simpa using eq_false_of_dropWhile_eq_cons hafter
      rw [words_word_cons hne hword _ hd, List.tail_cons]

/-- A change of characters that keeps the delimiters keeps the words. -/
theorem words_map {f : α → α} (hf : ∀ a, p (f a) = p a) (l : List α) :
    words p (l.map f) = (words p l).map (List.map f) := by
  have hsplit : (l.map f).splitOnP p = (l.splitOnP p).map (List.map f) := by
    induction l with
    | nil => simp
    | cons a l ih =>
      rw [List.map_cons, List.splitOnP_cons_eq_if_modifyHead, List.splitOnP_cons_eq_if_modifyHead, hf, ih]
      split
      · simp
      · obtain ⟨t, ts, heq⟩ := List.exists_cons_of_ne_nil (List.splitOnP_ne_nil p l)
        simp [heq]
  rw [words, hsplit, words, List.filter_map]
  congr 1
  refine List.filter_congr fun t _ => ?_
  simp

/-- Words, each after a blank. -/
def spaced (ts : List (List α × List α)) : List α := ts.flatMap fun t => t.1 ++ t.2

/-- A text that was put together of words has these words. -/
theorem words_spaced {ts : List (List α × List α)}
    (hblank : ∀ t ∈ ts, t.1 ≠ [] ∧ ∀ a ∈ t.1, p a = true)
    (hword : ∀ t ∈ ts, t.2 ≠ [] ∧ ∀ a ∈ t.2, p a = false) {trail : List α} (htrail : ∀ a ∈ trail, p a = true)
    (l : List α) : words p (l ++ spaced ts ++ trail) = words p l ++ ts.map Prod.snd := by
  induction ts generalizing l with
  | nil =>
    rw [spaced, List.flatMap_nil, List.append_nil, List.map_nil, List.append_nil]
    cases trail with
    | nil => rw [List.append_nil]
    | cons a trail =>
      rw [words_append_cons _ _ (htrail a List.mem_cons_self), ← List.append_nil trail,
        words_blank_append fun b hb => htrail b (List.mem_cons_of_mem _ hb), words_nil, List.append_nil]
  | cons t ts ih =>
    obtain ⟨hne, hall⟩ := hblank t List.mem_cons_self
    obtain ⟨hne', hall'⟩ := hword t List.mem_cons_self
    obtain ⟨a, blank, ht⟩ := List.exists_cons_of_ne_nil hne
    have hblank' : ∀ b ∈ blank, p b = true := fun b hb => hall b (ht ▸ List.mem_cons_of_mem _ hb)
    have hsplit : l ++ spaced (t :: ts) ++ trail = l ++ a :: (blank ++ (t.2 ++ spaced ts ++ trail)) := by
      simp [spaced, ht]
    rw [hsplit, words_append_cons _ _ (hall a (ht ▸ List.mem_cons_self)), words_blank_append hblank',
      ih (fun u hu => hblank u (List.mem_cons_of_mem _ hu)) (fun u hu => hword u (List.mem_cons_of_mem _ hu)),
      words_word hne' hall', List.map_cons, List.singleton_append]

end Words

/-! ## Keywords -/

section Keywords

variable {key : β → List α} {entries entries' : List β} {e e' : β} {text : List α}

/-- No key is a prefix of the key of another entry. -/
def PrefixFree (key : β → List α) (entries : List β) : Prop :=
  ∀ e ∈ entries, ∀ e' ∈ entries, key e <+: key e' → e = e'

instance [DecidableEq α] [DecidableEq β] (key : β → List α) (entries : List β) : Decidable (PrefixFree key entries) :=
  inferInstanceAs (Decidable (∀ e ∈ entries, ∀ e' ∈ entries, key e <+: key e' → e = e'))

theorem PrefixFree.perm (h : PrefixFree key entries) (hperm : entries.Perm entries') :
    PrefixFree key entries' :=
  fun e he e' he' => h e (hperm.mem_iff.mpr he) e' (hperm.mem_iff.mpr he')

/-- A text starts with the key of at most one entry. -/
theorem PrefixFree.unique (h : PrefixFree key entries) (he : e ∈ entries) (he' : e' ∈ entries)
    (hhead : key e <+: text) (hhead' : key e' <+: text) : e = e' := by
  rcases List.prefix_or_prefix_of_prefix hhead hhead' with hle | hle
  · exact h e he e' he' hle
  · exact (h e' he' e he hle).symm

variable [DecidableEq α]

/-- The entry that is found is the one whose key the text starts with. -/
theorem PrefixFree.find?_eq_some_iff (h : PrefixFree key entries) :
    (entries.find? fun e => key e <+: text) = some e ↔ e ∈ entries ∧ key e <+: text := by
  constructor
  · intro hfind
    exact ⟨List.mem_of_find?_eq_some hfind, by simpa using List.find?_some hfind⟩
  · rintro ⟨he, hhead⟩
    cases hfind : entries.find? fun e => key e <+: text with
    | none => exact absurd hhead (by simpa using List.find?_eq_none.mp hfind e he)
    | some e' =>
      have hhead' : key e' <+: text := by simpa using List.find?_some hfind
      rw [h.unique (List.mem_of_find?_eq_some hfind) he hhead' hhead]

/-- The order of the dictionary makes no difference. -/
theorem PrefixFree.find?_perm (h : PrefixFree key entries) (hperm : entries.Perm entries') :
    (entries.find? fun e => key e <+: text) = entries'.find? fun e => key e <+: text := by
  refine Option.ext fun e => ?_
  rw [h.find?_eq_some_iff, (h.perm hperm).find?_eq_some_iff, hperm.mem_iff]

/-- The only entry of a list, if there is one. -/
def only : List β → Option β
  | [e] => some e
  | _ => none

theorem only_eq_some_iff {l : List β} : only l = some e ↔ l = [e] := by
  rcases l with _ | ⟨e', _ | ⟨e'', l⟩⟩ <;> simp [only]

theorem only_perm {l l' : List β} (hperm : l.Perm l') : only l = only l' := by
  refine Option.ext fun e => ?_
  rw [only_eq_some_iff, only_eq_some_iff]
  constructor
  · rintro rfl
    exact (List.singleton_perm.mp hperm).symm
  · rintro rfl
    exact List.perm_singleton.mp hperm

/-- The entries that a text abbreviates. -/
def abbreviated (key : β → List α) (entries : List β) (text : List α) : List β :=
  entries.filter fun e => text <+: key e

theorem abbreviated_perm (hperm : entries.Perm entries') :
    only (abbreviated key entries text) = only (abbreviated key entries' text) :=
  only_perm (hperm.filter _)

end Keywords

end Words
