import Mathlib.Data.Option.Basic

/-!
# Sessions over a queue

A line has another end, or none. One party connects and disconnects it, and forwards what the other end
sends; a second party learns of all this from one first-in first-out queue. `Trail sent v l v'` says what
the queue `l` is worth: it leads from `v`, the other end as the reader knows it, to `v'`, the other end as
the writer knows it, and whatever it carries was sent by the end that is connected at that point of the
queue. So a reader that has no connection or disconnection ahead of it knows the other end, and everything
ahead of it comes from there (`Trail.eq_of_plain`).

A line may be connected twice in a row to the same end.
-/

namespace Session

/-- What the reader of a queue gets. -/
inductive Signal (δ : Type*)
  | connect
  | disconnect
  | data (d : δ)

variable {ε ε' δ : Type*} {sent sent' : ε → δ → Prop} {v v' u : Option ε} {l l' : List (Signal δ)}

/-- The queue leads from the other end that the reader knows to the one that the writer knows. -/
inductive Trail (sent : ε → δ → Prop) : Option ε → List (Signal δ) → Option ε → Prop
  | nil (v : Option ε) : Trail sent v [] v
  | connect {v : Option ε} {s : ε} {l : List (Signal δ)} {v' : Option ε} (hv : v = none ∨ v = some s)
      (h : Trail sent (some s) l v') : Trail sent v (.connect :: l) v'
  | disconnect {v : Option ε} {l : List (Signal δ)} {v' : Option ε} (h : Trail sent none l v') :
      Trail sent v (.disconnect :: l) v'
  | data {s : ε} {d : δ} {l : List (Signal δ)} {v' : Option ε} (hd : sent s d)
      (h : Trail sent (some s) l v') : Trail sent (some s) (.data d :: l) v'

namespace Trail

/-- More is written at the end. -/
theorem append (h : Trail sent v l u) (h' : Trail sent u l' v') : Trail sent v (l ++ l') v' := by
  induction h with
  | nil => exact h'
  | connect hv _ ih => exact .connect hv (ih h')
  | disconnect _ ih => exact .disconnect (ih h')
  | data hd _ ih => exact .data hd (ih h')

/-- The ends send more. -/
theorem mono (hsent : ∀ s d, sent s d → sent' s d) (h : Trail sent v l v') : Trail sent' v l v' := by
  induction h with
  | nil => exact .nil _
  | connect hv _ ih => exact .connect hv ih
  | disconnect _ ih => exact .disconnect ih
  | data hd _ ih => exact .data (hsent _ _ hd) ih

/-- The ends have other names. -/
theorem map {f : ε → ε'} {sent' : ε' → δ → Prop} (hsent : ∀ s d, sent s d → sent' (f s) d)
    (h : Trail sent v l v') : Trail sent' (v.map f) l (v'.map f) := by
  induction h with
  | nil => exact .nil _
  | @connect v s _ _ hv _ ih =>
    refine .connect (s := f s) ?_ ih
    rcases hv with rfl | rfl
    · exact .inl rfl
    · exact .inr rfl
  | disconnect _ ih => exact .disconnect ih
  | data hd _ ih => exact .data (hsent _ _ hd) ih

/-- Without a connection or a disconnection ahead the reader knows what the writer knows. -/
theorem eq_of_plain (h : Trail sent v l v') (hplain : ∀ x ∈ l, ∃ d, x = .data d) : v = v' := by
  induction h with
  | nil => rfl
  | connect | disconnect =>
    obtain ⟨d, hd⟩ := hplain _ List.mem_cons_self
    cases hd
  | data _ _ ih => exact ih fun x hx => hplain x (List.mem_cons_of_mem _ hx)

/-! What the reader knows after one more message. -/

theorem of_connect (h : Trail sent v (.connect :: l) v') :
    ∃ s, (v = none ∨ v = some s) ∧ Trail sent (some s) l v' := by
  cases h with
  | connect hv h => exact ⟨_, hv, h⟩

theorem of_disconnect (h : Trail sent v (.disconnect :: l) v') : Trail sent none l v' := by
  cases h with
  | disconnect h => exact h

theorem of_data {d : δ} (h : Trail sent v (.data d :: l) v') :
    ∃ s, v = some s ∧ sent s d ∧ Trail sent v l v' := by
  cases h with
  | data hd h => exact ⟨_, rfl, hd, h⟩

end Trail

end Session
