import Lacp.Reachability

/-!
# The engine's history

Only the engine logs events, and it only adds to the history. What a port has done so far is read off
the events of its index: `muxEntries` are the states its mux machine entered, the last one first.
-/

namespace Lacp

/-! ## What an effect logs -/

section Trace

variable {R : World → Call → Prop} {c : Call} {E E' : Set ℕ} {w w' : World}

/-- Only hops log anything. -/
theorem Effect.hop_or_trace_eq (heffect : Effect R c (E, w) (E', w')) :
    EngineHop w w' ∨ w'.trace = w.trace := by
  cases heffect with
  | hop hop => exact .inl hop
  | rest hw | join _ _ _ _ _ _ _ hw | reselect _ _ _ hw | prio _ _ _ hw | stat _ _ hw
  | link _ _ _ _ hw | receive _ _ _ _ _ _ _ _ hw | setSys _ _ hw | tick _ _ hw | unlink _ _ _ _ hw
  | notify _ _ _ hw | leave _ _ _ _ _ hw => exact .inr hw.trace
  | store => exact .inr rfl
  | create _ _ hw =>
    obtain ⟨_, rfl⟩ := lacpPortCreate_eq_some hw
    exact .inr rfl
  | remove _ _ _ _ _ _ hw =>
    rw [hw]
    exact .inr rfl

theorem EngineHop.trace_suffix (hop : EngineHop w w') : w.trace <:+ w'.trace := by
  cases hop with
  | rx | sel => exact List.suffix_cons _ _
  | mux | tx => exact (List.suffix_cons _ _).trans (List.suffix_append _ _)

theorem hops_trace_suffix (h : Relation.ReflTransGen OrderedHop w w') : w.trace <:+ w'.trace := by
  induction h with
  | refl => exact List.suffix_refl _
  | tail _ hop ih => exact ih.trans hop.engineHop.trace_suffix

/-- The history only grows. -/
theorem Effects.trace_suffix {s t : Set ℕ × World} (h : Effects R c s t) :
    s.2.trace <:+ t.2.trace := by
  induction h with
  | refl => exact List.suffix_refl _
  | tail _ heffect ih =>
    rcases heffect.hop_or_trace_eq with hop | heq
    · exact ih.trans hop.trace_suffix
    · rw [heq]
      exact ih

end Trace

/-! ## The states a mux machine entered -/

/-- The state the mux machine of the port with index `i` entered, if that is what the event is. -/
def Event.muxEntry (i : ℕ) : Event → Option MuxState
  | .enter .mux port => if port.portIndex = i then some port.mux.state else none
  | _ => none

/-- The states the mux machines of the ports with index `i` entered, the last one first. -/
def muxEntries (i : ℕ) (trace : List Event) : List MuxState := trace.filterMap (Event.muxEntry i)

theorem muxEntries_cons {i : ℕ} {e : Event} {trace : List Event} (he : e.muxEntry i = none) :
    muxEntries i (e :: trace) = muxEntries i trace := List.filterMap_cons_none he

theorem muxEntries_append {i : ℕ} {new trace : List Event}
    (hnew : ∀ e ∈ new, e.muxEntry i = none) : muxEntries i (new ++ trace) = muxEntries i trace := by
  rw [muxEntries, List.filterMap_append, List.filterMap_eq_nil_iff.mpr hnew, List.nil_append]
  rfl

/-- The writes to the hardware are no entries. -/
theorem muxEntry_of_mem_muxWrites {p : LacpPort} {attr : PortAttr} {e : Event}
    (he : e ∈ muxWrites p attr) (i : ℕ) : e.muxEntry i = none := by
  obtain ⟨_, rfl⟩ := eq_hw_of_mem_muxWrites he
  rfl

/-- A mux hop makes one entry. -/
theorem muxEntries_muxHop (w : World) (a : Addr) (s : MuxState) (i : ℕ) :
    muxEntries i (muxHop w a s).trace =
      if (w.port a).portIndex = i then s :: muxEntries i w.trace else muxEntries i w.trace := by
  have hwrites : muxEntries i (muxHop w a s).trace =
      muxEntries i (.enter .mux { w.port a with mux := ⟨true, s⟩ } :: w.trace) :=
    muxEntries_append fun e he => muxEntry_of_mem_muxWrites he i
  rw [hwrites]
  by_cases hi : (w.port a).portIndex = i <;> simp [muxEntries, Event.muxEntry, hi]

end Lacp
