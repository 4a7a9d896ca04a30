import Lacp.CriticalSection
import Lacp.Preservation
import Lacp.Termination

/-!
# `lacp_sys_set_cfg`

Reference: `lacp_sys_set_cfg` and `lacp_remove_ports` of `LACP/lacp_api.c`, `lacp_port_create` and
`lacp_port_delete` of `LACP/lacp_port.c`.

Both deletion loops take the first node with each named index off the list. `lacp_remove_ports` skips an
index that no node has, `lacp_sys_set_cfg` follows the null pointer that the search returned. The
additions before the deletions create exactly the missing nodes, which is why asking for both is safe.

The scalar fields stand in one `else if` chain behind the deletions, so at most one of them is stored.
-/

namespace Lacp

/-! ## Taking indices off a list -/

/-- Take the first node with each named index below `n` off the list, one index after the other. -/
def eraseNamed (index : Addr → ℕ) (ports : LacpBitmap) (l : List Addr) (n : ℕ) : List Addr :=
  (List.range n).foldl
    (fun l i => if lacpBitmapGetBit ports i then l.eraseP fun a => index a == i else l) l

section Erase

variable {index index' : Addr → ℕ} {ports : LacpBitmap} {l news : List Addr} {n : ℕ} {a : Addr}

theorem eraseNamed_succ :
    eraseNamed index ports l (n + 1) =
      if lacpBitmapGetBit ports n then (eraseNamed index ports l n).eraseP fun a => index a == n
      else eraseNamed index ports l n := by
  unfold eraseNamed
  rw [List.range_succ, List.foldl_append, List.foldl_cons, List.foldl_nil]

theorem eraseNamed_subset : eraseNamed index ports l n ⊆ l := by
  induction n with
  | zero => exact List.Subset.refl l
  | succ n ih =>
    rw [eraseNamed_succ]
    split
    · exact fun a ha => ih (List.eraseP_subset ha)
    · exact ih

/-- A node whose index is not below `n` stays. -/
theorem mem_eraseNamed_of_le (h : n ≤ index a) : a ∈ eraseNamed index ports l n ↔ a ∈ l := by
  induction n with
  | zero => exact Iff.rfl
  | succ n ih =>
    rw [eraseNamed_succ]
    split
    · have hne : ¬ (index a == n) = true := by
        rw [beq_iff_eq]
        omega
      exact (List.mem_eraseP_of_neg (p := fun a => index a == n) hne).trans (ih (by omega))
    · exact ih (by omega)

theorem eraseP_index_congr (h : ∀ a ∈ l, index' a = index a) (n : ℕ) :
    (l.eraseP fun a => index' a == n) = l.eraseP fun a => index a == n := by
  induction l with
  | nil => rfl
  | cons b l ih =>
    rw [List.eraseP_cons, List.eraseP_cons, h b List.mem_cons_self,
      ih fun a ha => h a (List.mem_cons_of_mem b ha)]

/-- Only the indices of the listed nodes count. -/
theorem eraseNamed_congr (h : ∀ a ∈ l, index' a = index a) :
    eraseNamed index' ports l n = eraseNamed index ports l n := by
  induction n with
  | zero => rfl
  | succ n ih =>
    rw [eraseNamed_succ, eraseNamed_succ, ih]
    split
    · exact eraseP_index_congr (fun a ha => h a (eraseNamed_subset ha)) n
    · rfl

/-- Where no two nodes share an index, taking off the first node with it is taking off all. -/
theorem eraseP_eq_filter (hnodup : (l.map index).Nodup) (n : ℕ) :
    (l.eraseP fun a => index a == n) = l.filter fun a => index a != n := by
  induction l with
  | nil => rfl
  | cons b l ih =>
    rw [List.map_cons, List.nodup_cons] at hnodup
    rw [List.eraseP_cons, List.filter_cons]
    by_cases hb : index b = n
    · have hrest : ∀ a ∈ l, (index a != n) = true := by
        intro a ha
        rw [bne_iff_ne, ← hb]
        exact fun heq => hnodup.1 (heq ▸ List.mem_map_of_mem ha)
      rw [beq_iff_eq.mpr hb, cond_true, if_neg (by simpa using hb), List.filter_eq_self.mpr hrest]
    · rw [beq_eq_false_iff_ne.mpr hb, cond_false, if_pos (by simpa using hb), ih hnodup.2]

/-- A node that the loop leaves: its index is not below `n`, or is not named. -/
def keptBelow (index : Addr → ℕ) (ports : LacpBitmap) (n : ℕ) (a : Addr) : Bool :=
  !(decide (index a < n) && lacpBitmapGetBit ports (index a))

theorem keptBelow_iff :
    keptBelow index ports n a = true ↔ ¬ (index a < n ∧ lacpBitmapGetBit ports (index a) = true) := by
  rw [keptBelow, Bool.not_eq_true', ← Bool.not_eq_true, Bool.and_eq_true, decide_eq_true_iff]

theorem keptBelow_succ :
    keptBelow index ports (n + 1) a =
      (keptBelow index ports n a && !(lacpBitmapGetBit ports n && index a == n)) := by
  have hlt : index a < n + 1 ↔ index a < n ∨ index a = n := by omega
  unfold keptBelow
  by_cases ha : index a = n
  · rw [ha]
    simp
  · have hsame : index a < n + 1 ↔ index a < n := by omega
    simp [hsame, ha]

/-- New nodes in front of the list are gone after the loop where they are named; meanwhile they do not
stand in the way of the old ones. -/
theorem eraseNamed_append (hnodup : (news.map index).Nodup)
    (hnew : ∀ a ∈ news, index a ∉ l.map index) :
    eraseNamed index ports (news ++ l) n =
      news.filter (keptBelow index ports n) ++ eraseNamed index ports l n := by
  induction n with
  | zero =>
    have hall : ∀ a ∈ news, keptBelow index ports 0 a = true := fun _ _ => by simp [keptBelow]
    rw [List.filter_eq_self.mpr hall]
    rfl
  | succ n ih =>
    have hfilter : news.filter (keptBelow index ports (n + 1)) =
        (news.filter (keptBelow index ports n)).filter
          fun a => !(lacpBitmapGetBit ports n && index a == n) := by
      rw [List.filter_filter]
      refine List.filter_congr fun a _ => ?_
      rw [keptBelow_succ, Bool.and_comm]
    rw [eraseNamed_succ, eraseNamed_succ, ih, hfilter]
    by_cases hbit : lacpBitmapGetBit ports n = true
    · have hkept : ((news.filter (keptBelow index ports n)).map index).Nodup :=
        hnodup.sublist (List.filter_sublist.map index)
      simp only [hbit, Bool.true_and, if_true]
      show _ = (news.filter _).filter (fun a => index a != n) ++ _
      rw [← eraseP_eq_filter hkept, List.eraseP_append]
      split
      · -- a new node has the index, so no old one has
        rename_i hany
        obtain ⟨a, ha, hindex⟩ := List.any_eq_true.mp hany
        have hold : (eraseNamed index ports l n).eraseP (fun b => index b == n) =
            eraseNamed index ports l n := by
          refine List.eraseP_of_forall_not fun b hb hbn => hnew a (List.mem_of_mem_filter ha) ?_
          rw [beq_iff_eq.mp hindex, ← beq_iff_eq.mp hbn]
          exact List.mem_map_of_mem (eraseNamed_subset hb)
        rw [hold]
      · rename_i hnone
        have hpass : (news.filter (keptBelow index ports n)).eraseP (fun a => index a == n) =
            news.filter (keptBelow index ports n) :=
          List.eraseP_of_forall_not fun a ha hindex => hnone (List.any_eq_true.mpr ⟨a, ha, hindex⟩)
        rw [hpass]
    · simp [hbit]

/-- Where no two nodes share an index, exactly the named ones go. -/
theorem eraseNamed_eq_filter (hnodup : (l.map index).Nodup) :
    eraseNamed index ports l n = l.filter (keptBelow index ports n) := by
  have happend : eraseNamed index ports (l ++ []) n = _ :=
    eraseNamed_append hnodup fun _ _ => List.not_mem_nil
  have hnil : eraseNamed index ports [] n = [] := List.eq_nil_of_subset_nil eraseNamed_subset
  rw [List.append_nil, hnil, List.append_nil] at happend
  exact happend

end Erase

/-! ## The two deletion loops -/

section Delete

variable {w w' : World} {ports : LacpBitmap} {i n : ℕ}

/-- The index of the node at an address. -/
def World.indexAt (w : World) (a : Addr) : ℕ := (w.port a).portIndex

theorem lacpPortFind_eq_none_iff_notMem :
    lacpPortFind w i = none ↔ i ∉ w.sys.ports.map w.indexAt := by
  rw [lacpPortFind_eq_none, List.mem_map]
  exact ⟨fun h ⟨a, ha, hi⟩ => h a ha hi, fun h a ha hi => h ⟨a, ha, hi⟩⟩

/-- Deleting the node that was found takes the first one with the index off the list. -/
theorem lacpPortDelete_ports {a : Addr} (h : lacpPortFind w i = some a) :
    (lacpPortDelete w a).sys.ports = w.sys.ports.eraseP fun b => w.indexAt b == i := by
  rw [← (lacpPortFind_eq_some h).2]
  rfl

theorem removePortIndex_ports (ports : LacpBitmap) (w : World) (i : ℕ) :
    (removePortIndex ports w i).sys.ports =
      if lacpBitmapGetBit ports i then w.sys.ports.eraseP fun b => w.indexAt b == i
      else w.sys.ports := by
  unfold removePortIndex
  split
  · split
    · rename_i hfind
      refine (List.eraseP_of_forall_not fun a ha hindex => ?_).symm
      exact lacpPortFind_eq_none.mp hfind a ha (beq_iff_eq.mp hindex)
    · rename_i hfind
      exact lacpPortDelete_ports hfind
  · rfl

theorem removePortIndex_port (ports : LacpBitmap) (w : World) (i : ℕ) :
    (removePortIndex ports w i).port = w.port := by
  unfold removePortIndex
  split
  · split <;> rfl
  · rfl

/-- The loop of `lacp_remove_ports`. -/
theorem foldl_removePortIndex_ports (w : World) (ports : LacpBitmap) (n : ℕ) :
    ((List.range n).foldl (removePortIndex ports) w).sys.ports =
        eraseNamed w.indexAt ports w.sys.ports n ∧
      ((List.range n).foldl (removePortIndex ports) w).port = w.port := by
  induction n with
  | zero => exact ⟨rfl, rfl⟩
  | succ n ih =>
    obtain ⟨hports, hport⟩ := ih
    rw [List.range_succ, List.foldl_append, List.foldl_cons, List.foldl_nil, removePortIndex_ports,
      removePortIndex_port, eraseNamed_succ, hports]
    refine ⟨?_, hport⟩
    unfold World.indexAt
    rw [hport]

/-- A change of the port list alone. -/
def Relisted (w w' : World) : Prop := ∃ l, w' = { w with sys := { w.sys with ports := l } }

theorem Relisted.refl (w : World) : Relisted w w := ⟨w.sys.ports, rfl⟩

theorem Relisted.trans {u v w : World} (huv : Relisted u v) (hvw : Relisted v w) : Relisted u w := by
  obtain ⟨l, rfl⟩ := huv
  obtain ⟨l', rfl⟩ := hvw
  exact ⟨l', rfl⟩

theorem delPortIndex_relisted (h : delPortIndex ports w i = some w') : Relisted w w' := by
  unfold delPortIndex at h
  split at h
  · obtain ⟨a, _, rfl⟩ := Option.map_eq_some_iff.mp h
    exact ⟨_, rfl⟩
  · obtain rfl := Option.some.inj h
    exact .refl w

theorem delPortIndex_ports (h : delPortIndex ports w i = some w') :
    w'.sys.ports =
      if lacpBitmapGetBit ports i then w.sys.ports.eraseP fun b => w.indexAt b == i
      else w.sys.ports := by
  unfold delPortIndex at h
  split at h
  · rename_i hbit
    obtain ⟨a, hfind, rfl⟩ := Option.map_eq_some_iff.mp h
    rw [if_pos hbit]
    exact lacpPortDelete_ports hfind
  · rename_i hbit
    obtain rfl := Option.some.inj h
    rw [if_neg hbit]

/-- One round goes through if the index is not named or is there. -/
theorem delPortIndex_isSome_iff :
    (∃ w', delPortIndex ports w i = some w') ↔
      (lacpBitmapGetBit ports i = true → i ∈ w.sys.ports.map w.indexAt) := by
  unfold delPortIndex
  split
  · rename_i hbit
    cases hfind : lacpPortFind w i with
    | none =>
      refine iff_of_false (fun ⟨_, h⟩ => by cases h) fun h => ?_
      exact lacpPortFind_eq_none_iff_notMem.mp hfind (h hbit)
    | some a =>
      refine iff_of_true ⟨_, rfl⟩ fun _ => ?_
      obtain ⟨ha, hindex⟩ := lacpPortFind_eq_some hfind
      exact List.mem_map.mpr ⟨a, ha, hindex⟩
  · rename_i hbit
    exact iff_of_true ⟨w, rfl⟩ fun h => absurd h hbit

/-- What the deletion loop of `lacp_sys_set_cfg` leaves, where it gets to its end. -/
theorem foldlM_delPortIndex_ports (h : (List.range n).foldlM (delPortIndex ports) w = some w') :
    w'.sys.ports = eraseNamed w.indexAt ports w.sys.ports n ∧ Relisted w w' := by
  induction n generalizing w' with
  | zero =>
    obtain rfl := Option.some.inj h
    exact ⟨rfl, .refl w⟩
  | succ n ih =>
    rw [List.range_succ, List.foldlM_append, Option.bind_eq_bind, Option.bind_eq_some_iff] at h
    obtain ⟨v, hv, hlast⟩ := h
    obtain ⟨_, hdel, hend⟩ := Option.bind_eq_some_iff.mp hlast
    obtain rfl := Option.some.inj hend
    obtain ⟨hports, hrelisted⟩ := ih hv
    rw [delPortIndex_ports hdel, hports, eraseNamed_succ]
    refine ⟨?_, hrelisted.trans (delPortIndex_relisted hdel)⟩
    obtain ⟨l, rfl⟩ := hrelisted
    rfl

/-- It gets there exactly if every named index is in the list: taking the others off does not take this
one off. -/
theorem foldlM_delPortIndex_isSome_iff :
    (∃ w', (List.range n).foldlM (delPortIndex ports) w = some w') ↔
      ∀ i < n, lacpBitmapGetBit ports i = true → i ∈ w.sys.ports.map w.indexAt := by
  induction n with
  | zero => exact iff_of_true ⟨w, rfl⟩ fun i hi => absurd hi (Nat.not_lt_zero i)
  | succ n ih =>
    have hlast : ∀ v, (List.range n).foldlM (delPortIndex ports) w = some v →
        ((∃ w', delPortIndex ports v n = some w') ↔
          (lacpBitmapGetBit ports n = true → n ∈ w.sys.ports.map w.indexAt)) := by
      intro v hv
      obtain ⟨hports, l, hl⟩ := foldlM_delPortIndex_ports hv
      have hindex : v.indexAt = w.indexAt := by rw [hl]; rfl
      rw [delPortIndex_isSome_iff, hports, hindex, List.mem_map, List.mem_map]
      refine imp_congr_right fun _ => exists_congr fun a => and_congr_left fun ha => ?_
      exact mem_eraseNamed_of_le ha.ge
    rw [List.range_succ, List.foldlM_append]
    constructor
    · rintro ⟨w', h⟩ i hi hbit
      obtain ⟨v, hv, hrest⟩ := Option.bind_eq_some_iff.mp h
      obtain ⟨u, hu, _⟩ := Option.bind_eq_some_iff.mp hrest
      rcases Nat.lt_succ_iff_lt_or_eq.mp hi with hlt | rfl
      · exact ih.mp ⟨v, hv⟩ i hlt hbit
      · exact (hlast v hv).mp ⟨u, hu⟩ hbit
    · intro hall
      obtain ⟨v, hv⟩ := ih.mpr fun i hi => hall i (Nat.lt_succ_of_lt hi)
      obtain ⟨u, hu⟩ := (hlast v hv).mpr (hall n (Nat.lt_succ_self n))
      exact ⟨u, by simp [hv, hu]⟩

end Delete

/-! ## The additions -/

/-- Additions among the indices below `n` put new nodes in front of the list, one for each named index
that was not there. -/
structure AddedBelow (w : World) (ports : LacpBitmap) (n : ℕ) (w' : World) : Prop where
  news : ∃ news, w'.sys.ports = news ++ w.sys.ports ∧ (news.map w'.indexAt).Nodup ∧
    ∀ i, i ∈ news.map w'.indexAt ↔
      i < n ∧ lacpBitmapGetBit ports i = true ∧ i ∉ w.sys.ports.map w.indexAt
  old : ∀ a ∈ w.sys.ports, w'.port a = w.port a
  addr_lt : ∀ a ∈ w'.sys.ports, a < w'.brk
  sys : ∃ l, w'.sys = { w.sys with ports := l }

section Add

variable {w w' : World} {ports : LacpBitmap} {n : ℕ}

theorem AddedBelow.oldIndex (h : AddedBelow w ports n w') :
    ∀ a ∈ w.sys.ports, w'.indexAt a = w.indexAt a :=
  fun a ha => congrArg LacpPort.portIndex (h.old a ha)

theorem addedBelow_zero (hheap : ∀ a ∈ w.sys.ports, a < w.brk) : AddedBelow w ports 0 w where
  news := ⟨[], rfl, List.nodup_nil, fun i => iff_of_false List.not_mem_nil (by omega)⟩
  old := fun _ _ => rfl
  addr_lt := hheap
  sys := ⟨w.sys.ports, rfl⟩

/-- A round that creates nothing. -/
theorem AddedBelow.skip (h : AddedBelow w ports n w')
    (hn : lacpBitmapGetBit ports n = true → n ∈ w.sys.ports.map w.indexAt) :
    AddedBelow w ports (n + 1) w' := by
  obtain ⟨news, hports, hnodup, hmem⟩ := h.news
  refine ⟨⟨news, hports, hnodup, fun i => (hmem i).trans ?_⟩, h.old, h.addr_lt, h.sys⟩
  constructor
  · exact fun ⟨hi, hbit, hnew⟩ => ⟨by omega, hbit, hnew⟩
  · rintro ⟨hi, hbit, hnew⟩
    have hne : i ≠ n := by
      rintro rfl
      exact hnew (hn hbit)
    exact ⟨by omega, hbit, hnew⟩

/-- A round that creates a node. -/
theorem AddedBelow.create (h : AddedBelow w ports n w') (hbit : lacpBitmapGetBit ports n = true)
    (hfree : n ∉ w'.sys.ports.map w'.indexAt) (sysMac : LacpMac) :
    AddedBelow w ports (n + 1) (withCreated w' sysMac n) := by
  obtain ⟨news, hports, hnodup, hmem⟩ := h.news
  have hself : (withCreated w' sysMac n).indexAt w'.brk = n := by
    unfold World.indexAt
    rw [withCreated_port_self]
    rfl
  have hother : ∀ a ∈ w'.sys.ports, (withCreated w' sysMac n).port a = w'.port a := fun a ha =>
    if_neg (h.addr_lt a ha).ne
  have hnews : news.map (withCreated w' sysMac n).indexAt = news.map w'.indexAt :=
    List.map_congr_left fun a ha =>
      congrArg LacpPort.portIndex (hother a (hports ▸ List.mem_append_left _ ha))
  have hn : n ∉ w.sys.ports.map w.indexAt := by
    intro hold
    obtain ⟨a, ha, hindex⟩ := List.mem_map.mp hold
    refine hfree (List.mem_map.mpr ⟨a, hports ▸ List.mem_append_right _ ha, ?_⟩)
    rw [h.oldIndex a ha, hindex]
  constructor
  · refine ⟨w'.brk :: news, congrArg (w'.brk :: ·) hports, ?_, fun i => ?_⟩
    · rw [List.map_cons, hself, hnews, List.nodup_cons]
      exact ⟨fun hin => Nat.lt_irrefl n ((hmem n).mp hin).1, hnodup⟩
    · rw [List.map_cons, hself, hnews, List.mem_cons, hmem i]
      constructor
      · rintro (rfl | ⟨hi, hrest⟩)
        · exact ⟨Nat.lt_succ_self i, hbit, hn⟩
        · exact ⟨Nat.lt_succ_of_lt hi, hrest⟩
      · rintro ⟨hi, hrest⟩
        rcases Nat.lt_succ_iff_lt_or_eq.mp hi with hlt | heq
        · exact .inr ⟨hlt, hrest⟩
        · exact .inl heq
  · intro a ha
    rw [hother a (hports ▸ List.mem_append_right _ ha), h.old a ha]
  · intro a ha
    rcases List.mem_cons.mp ha with rfl | ha
    · exact Nat.lt_succ_self _
    · exact Nat.lt_succ_of_lt (h.addr_lt a ha)
  · obtain ⟨l, hsys⟩ := h.sys
    exact ⟨w'.brk :: w'.sys.ports, by rw [withCreated, hsys]⟩

theorem AddedBelow.add (h : AddedBelow w ports n w') (sysMac : ℕ → LacpMac) :
    AddedBelow w ports (n + 1) (addPortIndex sysMac ports w' n) := by
  unfold addPortIndex
  split
  · rename_i hbit
    cases hcreate : lacpPortCreate w' (sysMac n) n with
    | none =>
      -- the index is in the list, and not among the new ones
      rw [Option.getD_none]
      refine h.skip fun _ => ?_
      obtain ⟨a, ha, hindex⟩ := lacpPortCreate_eq_none_iff.mp hcreate
      obtain ⟨news, hports, _, hmem⟩ := h.news
      rw [hports] at ha
      rcases List.mem_append.mp ha with hnew | hold
      · exact absurd ((hmem n).mp (List.mem_map.mpr ⟨a, hnew, hindex⟩)).1 (Nat.lt_irrefl n)
      · exact List.mem_map.mpr ⟨a, hold, (h.oldIndex a hold).symm.trans hindex⟩
    | some v =>
      obtain ⟨hfree, rfl⟩ := lacpPortCreate_eq_some hcreate
      rw [Option.getD_some]
      refine h.create hbit (fun hin => ?_) (sysMac n)
      obtain ⟨a, ha, hindex⟩ := List.mem_map.mp hin
      exact hfree a ha hindex
  · rename_i hbit
    exact h.skip fun h => absurd h hbit

theorem addedBelow_foldl (hheap : ∀ a ∈ w.sys.ports, a < w.brk) (sysMac : ℕ → LacpMac)
    (ports : LacpBitmap) (n : ℕ) :
    AddedBelow w ports n ((List.range n).foldl (addPortIndex sysMac ports) w) := by
  induction n with
  | zero => exact addedBelow_zero hheap
  | succ n ih =>
    rw [List.range_succ, List.foldl_append, List.foldl_cons, List.foldl_nil]
    exact ih.add sysMac

/-- After the additions every named index is in the list. -/
theorem AddedBelow.named (h : AddedBelow w ports n w') {i : ℕ} (hi : i < n)
    (hbit : lacpBitmapGetBit ports i = true) : i ∈ w'.sys.ports.map w'.indexAt := by
  obtain ⟨news, hports, _, hmem⟩ := h.news
  rw [hports, List.map_append, List.mem_append, List.map_congr_left h.oldIndex]
  by_cases hold : i ∈ w.sys.ports.map w.indexAt
  · exact .inr hold
  · exact .inl ((hmem i).mpr ⟨hi, hbit, hold⟩)

/-- Adding the named nodes and deleting them leaves what deleting them would have left. -/
theorem AddedBelow.eraseNamed_eq (h : AddedBelow w ports n w') :
    eraseNamed w'.indexAt ports w'.sys.ports n = eraseNamed w.indexAt ports w.sys.ports n := by
  obtain ⟨news, hports, hnodup, hmem⟩ := h.news
  have holdindex : w.sys.ports.map w'.indexAt = w.sys.ports.map w.indexAt := List.map_congr_left h.oldIndex
  have hnew : ∀ a ∈ news, w'.indexAt a ∉ w.sys.ports.map w'.indexAt := by
    intro a ha
    rw [holdindex]
    exact ((hmem _).mp (List.mem_map_of_mem ha)).2.2
  have hgone : news.filter (keptBelow w'.indexAt ports n) = [] := by
    refine List.filter_eq_nil_iff.mpr fun a ha => ?_
    obtain ⟨hlt, hbit, _⟩ := (hmem _).mp (List.mem_map_of_mem ha)
    simp [keptBelow, hlt, hbit]
  rw [hports, eraseNamed_append hnodup hnew, hgone, List.nil_append, eraseNamed_congr h.oldIndex]

end Add

/-! ## Deleting through `lacp_sys_set_cfg` -/

section Deletion

variable {w w' : World} {sysMac : ℕ → LacpMac} {cfg : LacpSysCfg}

/-- Every index that is to be deleted is in the list when the deletions begin: it is there, or it is
added by the same call. -/
def LacpSysCfg.DeletesListed (w : World) (cfg : LacpSysCfg) : Prop :=
  cfg.cfgPbmpAdd = true ∨
    ∀ i < lacpPortMax, lacpBitmapGetBit cfg.ports i = true → i ∈ w.sys.ports.map w.indexAt

/-- The two deletion paths agree: `lacp_sys_set_cfg` follows no null pointer and gets to its engine run,
whenever it returns it leaves the ports `lacp_remove_ports` leaves, in the same order, and it does return
from a state at rest with a sound configuration. -/
structure DeletesLikeRemove (w : World) (sysMac : ℕ → LacpMac) (cfg : LacpSysCfg) : Prop where
  completes : (sysCfgChanged w sysMac cfg).isSome = true
  ports : ∀ fuel w', lacpSysSetCfg fuel w sysMac cfg = some w' →
    w'.sys.ports = (lacpRemovePorts w cfg.ports).sys.ports
  returns : Idle w → Configured w → Fuel.Returns fun fuel => lacpSysSetCfg fuel w sysMac cfg

/-- The additions of `lacp_sys_set_cfg`: all that are named, or none if none is asked for. -/
theorem sysCfgAdded_addedBelow (hheap : ∀ a ∈ w.sys.ports, a < w.brk) (sysMac : ℕ → LacpMac)
    (cfg : LacpSysCfg) :
    AddedBelow w cfg.ports (if cfg.cfgPbmpAdd then lacpPortMax else 0) (sysCfgAdded w sysMac cfg) := by
  unfold sysCfgAdded
  split
  · obtain ⟨news, old, addr_lt, sys⟩ :=
      addedBelow_foldl (w := lacpCriticalPathStart w) hheap sysMac cfg.ports lacpPortMax
    exact ⟨news, old, addr_lt, sys⟩
  · have hzero : AddedBelow (lacpCriticalPathStart w) cfg.ports 0 (lacpCriticalPathStart w) :=
      addedBelow_zero hheap
    exact ⟨hzero.news, hzero.old, hzero.addr_lt, hzero.sys⟩

/-- Without additions nothing is new, with them everything new is deleted again. -/
theorem eraseNamed_sysCfgAdded (hheap : ∀ a ∈ w.sys.ports, a < w.brk) (sysMac : ℕ → LacpMac)
    (cfg : LacpSysCfg) :
    eraseNamed (sysCfgAdded w sysMac cfg).indexAt cfg.ports (sysCfgAdded w sysMac cfg).sys.ports
      lacpPortMax = (lacpRemovePorts w cfg.ports).sys.ports := by
  have hremoved : (lacpRemovePorts w cfg.ports).sys.ports =
      eraseNamed w.indexAt cfg.ports w.sys.ports lacpPortMax :=
    (foldl_removePortIndex_ports w cfg.ports lacpPortMax).1
  rw [hremoved]
  by_cases hadd : cfg.cfgPbmpAdd = true
  · have hadded := sysCfgAdded_addedBelow hheap sysMac cfg
    rw [if_pos hadd] at hadded
    exact hadded.eraseNamed_eq
  · rw [sysCfgAdded, if_neg hadd]
    rfl

/-- With `BR_CFG_PBMP_DEL` the deletions are the last change before the propagation. -/
theorem sysCfgChanged_of_del (hdel : cfg.cfgPbmpDel = true) :
    sysCfgChanged w sysMac cfg =
      (List.range lacpPortMax).foldlM (delPortIndex cfg.ports) (sysCfgAdded w sysMac cfg) :=
  if_pos hdel

theorem sysCfgChanged_isSome_iff (hheap : ∀ a ∈ w.sys.ports, a < w.brk) (hdel : cfg.cfgPbmpDel = true) :
    (sysCfgChanged w sysMac cfg).isSome = true ↔ cfg.DeletesListed w := by
  rw [sysCfgChanged_of_del hdel, Option.isSome_iff_exists, foldlM_delPortIndex_isSome_iff]
  by_cases hadd : cfg.cfgPbmpAdd = true
  · have hadded := sysCfgAdded_addedBelow hheap sysMac cfg
    rw [if_pos hadd] at hadded
    exact iff_of_true (fun i hi hbit => hadded.named hi hbit) (.inl hadd)
  · rw [sysCfgAdded, if_neg hadd, LacpSysCfg.DeletesListed, or_iff_right hadd]
    rfl

/-- The ports are those that the deletions leave, and their records are those from before the call. -/
theorem sysCfgChanged_of_del_eq_some (hheap : ∀ a ∈ w.sys.ports, a < w.brk)
    (hdel : cfg.cfgPbmpDel = true) (h : sysCfgChanged w sysMac cfg = some w') :
    w'.sys.ports = (lacpRemovePorts w cfg.ports).sys.ports ∧ (∃ l, w'.sys = { w.sys with ports := l }) ∧
      ∀ a ∈ w.sys.ports, w'.port a = w.port a := by
  rw [sysCfgChanged_of_del hdel] at h
  obtain ⟨hports, l, rfl⟩ := foldlM_delPortIndex_ports h
  have hadded := sysCfgAdded_addedBelow hheap sysMac cfg
  obtain ⟨l', hsys⟩ := hadded.sys
  refine ⟨hports.trans (eraseNamed_sysCfgAdded hheap sysMac cfg), ⟨l, ?_⟩, hadded.old⟩
  rw [hsys]

/-- The propagation and the engine leave the list alone. -/
theorem lacpSysSetCfg_ports {v : World} {fuel : ℕ} (hchange : sysCfgChanged w sysMac cfg = some v)
    (hrun : lacpSysSetCfg fuel w sysMac cfg = some w') : w'.sys = v.sys := by
  rw [lacpSysSetCfg_eq, hchange, Option.bind_some] at hrun
  obtain ⟨u, hsettle, rfl⟩ := Option.map_eq_some_iff.mp hrun
  exact (lacpSysUpdate_surroundings hsettle).sys

/-! ### The engine run at the end of the call -/

/-- A state from which the engine comes to rest. -/
def Runnable (w : World) : Prop := Idle w ∧ Configured w

/-- A new port has its flags clear and does not run LACP. -/
theorem Runnable.withCreated (h : Runnable w) (sysMac : LacpMac) (i : ℕ) : Runnable (withCreated w sysMac i) := by
  obtain ⟨hidle, hcfg⟩ := h
  have hport : ∀ a ∈ (Lacp.withCreated w sysMac i).sys.ports,
      (Lacp.withCreated w sysMac i).port a = createdPort w sysMac i ∨
        a ∈ w.sys.ports ∧ (Lacp.withCreated w sysMac i).port a = w.port a := by
    intro a ha
    by_cases hnew : a = w.brk
    · exact .inl (if_pos hnew)
    · exact .inr ⟨(List.mem_cons.mp ha).resolve_left hnew, if_neg hnew⟩
  refine ⟨fun a ha m => ?_, { hcfg with aggId := fun a ha hlac => ?_ }⟩
  · rcases hport a ha with hnew | ⟨hold, hsame⟩
    · rw [hnew]
      cases m <;> rfl
    · rw [hsame]
      exact hidle a hold m
  · rcases hport a ha with hnew | ⟨hold, hsame⟩
    · rw [hnew] at hlac
      cases hlac
    · rw [hsame] at hlac ⊢
      exact hcfg.aggId a hold hlac

theorem Runnable.add (h : Runnable w) (sysMac : ℕ → LacpMac) (ports : LacpBitmap) (i : ℕ) :
    Runnable (addPortIndex sysMac ports w i) := by
  unfold addPortIndex
  split
  · cases hcreate : lacpPortCreate w (sysMac i) i with
    | none => exact h
    | some v =>
      obtain ⟨-, rfl⟩ := lacpPortCreate_eq_some hcreate
      exact h.withCreated (sysMac i) i
  · exact h

/-- A shorter list. -/
theorem Runnable.del {ports : LacpBitmap} {i : ℕ} (h : Runnable w) (hdel : delPortIndex ports w i = some w') :
    Runnable w' := by
  have hsubset : w'.sys.ports ⊆ w.sys.ports := by
    rw [delPortIndex_ports hdel]
    split
    · exact fun a ha => List.eraseP_subset ha
    · exact List.Subset.refl _
  obtain ⟨l, rfl⟩ := delPortIndex_relisted hdel
  obtain ⟨hidle, hcfg⟩ := h
  exact ⟨fun a ha => hidle a (hsubset ha), { hcfg with aggId := fun a ha => hcfg.aggId a (hsubset ha) }⟩

theorem Runnable.updateInfo (h : Runnable w) : Runnable (lacpPortUpdateInfo w) := by
  have hrecord : ∀ a ∈ w.sys.ports, (lacpPortUpdateInfo w).port a = updateInfoPort w.sys (w.port a) :=
    fun a ha => if_pos ha
  obtain ⟨hidle, hcfg⟩ := h
  refine ⟨fun a ha m => ?_, { hcfg with aggId := fun a ha => ?_ }⟩
  · rw [hrecord a ha]
    have hclear := hidle a ha m
    cases m <;> exact hclear
  · rw [hrecord a ha]
    exact hcfg.aggId a ha

theorem Runnable.added (h : Runnable w) (sysMac : ℕ → LacpMac) (cfg : LacpSysCfg) :
    Runnable (sysCfgAdded w sysMac cfg) := by
  have hstart : Runnable (lacpCriticalPathStart w) := ⟨h.1, { h.2 with }⟩
  unfold sysCfgAdded
  split
  · exact List.foldlRecOn _ _ hstart fun v hv i _ => hv.add sysMac cfg.ports i
  · exact hstart

/-- No period that the mask selects is zero in the width of its field. -/
def LacpSysCfg.KeepsPeriods (cfg : LacpSysCfg) : Prop :=
  (cfg.cfgLongPeriod = true → cfg.longPeriod.toUInt16 ≠ 0) ∧
    (cfg.cfgShortPeriod = true → cfg.shortPeriod.toUInt16 ≠ 0)

theorem Runnable.setSys (h : Runnable w) (hperiods : cfg.KeepsPeriods) :
    Runnable { w with sys := setSysScalar w.sys cfg } := by
  obtain ⟨hidle, hcfg⟩ := h
  have hslow : (setSysScalar w.sys cfg).slowPeriodicTime ≠ 0 := by
    have hold := hcfg.slowPeriodicTime
    unfold setSysScalar
    grind [LacpSysCfg.KeepsPeriods]
  have hfast : (setSysScalar w.sys cfg).fastPeriodicTime ≠ 0 := by
    have hold := hcfg.fastPeriodicTime
    unfold setSysScalar
    grind [LacpSysCfg.KeepsPeriods]
  have hkept : (setSysScalar w.sys cfg).ports = w.sys.ports ∧
      (setSysScalar w.sys cfg).shortTimeoutTime = w.sys.shortTimeoutTime ∧
      (setSysScalar w.sys cfg).longTimeoutTime = w.sys.longTimeoutTime ∧
      (setSysScalar w.sys cfg).aggregateWaitTime = w.sys.aggregateWaitTime := by
    unfold setSysScalar
    repeat' split
    all_goals exact ⟨rfl, rfl, rfl, rfl⟩
  obtain ⟨hports, hshort, hlong, hwait⟩ := hkept
  refine ⟨fun a ha => hidle a (hports ▸ ha), hfast, hslow, ?_, ?_, ?_, fun a ha => hcfg.aggId a (hports ▸ ha)⟩
  · exact hshort.trans_ne hcfg.shortTimeoutTime
  · exact hlong.trans_ne hcfg.longTimeoutTime
  · exact hwait.trans_ne hcfg.aggregateWaitTime

/-- From a state at rest the engine run that ends the call comes to an end, unless the call stores a period
of zero. -/
theorem returns_lacpSysSetCfg (hidle : Idle w) (hcfg : Configured w)
    (hchange : (sysCfgChanged w sysMac cfg).isSome = true) (hperiods : cfg.cfgPbmpDel = true ∨ cfg.KeepsPeriods) :
    Fuel.Returns fun fuel => lacpSysSetCfg fuel w sysMac cfg := by
  obtain ⟨v, hv⟩ := Option.isSome_iff_exists.mp hchange
  have hadded : Runnable (sysCfgAdded w sysMac cfg) := Runnable.added ⟨hidle, hcfg⟩ sysMac cfg
  have hrun : Runnable v := by
    by_cases hdel : cfg.cfgPbmpDel = true
    · rw [sysCfgChanged_of_del hdel] at hv
      exact Fuel.foldlM_invariant (P := Runnable) (fun _ _ _ _ hu hstep => hu.del hstep) hadded hv
    · obtain rfl := Option.some.inj ((if_neg hdel).symm.trans hv)
      exact hadded.setSys (hperiods.resolve_left hdel)
  obtain ⟨hidle', hcfg'⟩ := hrun.updateInfo
  refine ((returns_lacpSysUpdate hidle' hcfg').map lacpCriticalPathEnd).congr fun fuel => ?_
  rw [lacpSysSetCfg_eq, hv, Option.bind_some]

/-- `lacp_sys_set_cfg` deletes as `lacp_remove_ports` removes exactly if every port it is to delete is in
the list, or is added first. -/
theorem deletesLikeRemove_iff (hheap : ∀ a ∈ w.sys.ports, a < w.brk) (hdel : cfg.cfgPbmpDel = true)
    (sysMac : ℕ → LacpMac) : DeletesLikeRemove w sysMac cfg ↔ cfg.DeletesListed w := by
  have hlisted : (sysCfgChanged w sysMac cfg).isSome = true ↔ cfg.DeletesListed w :=
    sysCfgChanged_isSome_iff hheap hdel
  rw [← hlisted]
  constructor
  · exact DeletesLikeRemove.completes
  · intro hchange
    refine ⟨hchange, fun fuel w' hrun => ?_,
      fun hidle hcfg => returns_lacpSysSetCfg hidle hcfg hchange (.inl hdel)⟩
    obtain ⟨v, hv⟩ := Option.isSome_iff_exists.mp hchange
    rw [lacpSysSetCfg_ports hv hrun]
    exact (sysCfgChanged_of_del_eq_some hheap hdel hv).1

/-- Of four ports two are deleted. -/
theorem deletesLikeRemove_iff_two :
    let w := withCreated (withCreated (withCreated (withCreated (initWorld 0) .zero 0) .zero 1) .zero 2) .zero 3
    let cfg := { LacpSysCfg.zero with cfgPbmpDel := true, ports := lacpBitmapSetBit (portBit 0) 2 }
    DeletesLikeRemove w (fun _ => .zero) cfg ∧
      (lacpRemovePorts w cfg.ports).sys.ports.map w.indexAt = [3, 1] := by
  intro w cfg
  have hlisted : cfg.DeletesListed w := by
    refine .inr fun i _ hbit => ?_
    obtain hi | hi : i = 0 ∨ i = 2 := by simpa [cfg, portBit, or_comm] using hbit
    all_goals
      rw [hi]
      decide
  exact ⟨(deletesLikeRemove_iff (by decide) rfl _).mpr hlisted, by decide +kernel⟩

/-- A port that does not exist is named: `lacp_remove_ports` has nothing to do, `lacp_sys_set_cfg` never
returns. -/
theorem not_deletesLikeRemove :
    ¬ ∀ (w : World) (sysMac : ℕ → LacpMac) (cfg : LacpSysCfg), (∀ a ∈ w.sys.ports, a < w.brk) →
      cfg.cfgPbmpDel = true → DeletesLikeRemove w sysMac cfg := by
  intro hall
  have hdeletes := hall (initWorld 0) (fun _ => .zero)
    { LacpSysCfg.zero with cfgPbmpDel := true, ports := portBit 2 } (by decide) rfl
  exact absurd hdeletes.completes (by decide)

end Deletion

/-! ## What is stored -/

section Scalars

variable {w w' v : World} {sysMac : ℕ → LacpMac} {cfg : LacpSysCfg} {fuel : ℕ}

/-- Every selected scalar has its configured value, in the width of the field, and no other changed. -/
structure ScalarsApplied (w : World) (cfg : LacpSysCfg) (w' : World) : Prop where
  priority : w'.sys.priority = if cfg.cfgPrio then cfg.priority.toUInt16 else w.sys.priority
  slowPeriodicTime : w'.sys.slowPeriodicTime =
    if cfg.cfgLongPeriod then cfg.longPeriod.toUInt16 else w.sys.slowPeriodicTime
  fastPeriodicTime : w'.sys.fastPeriodicTime =
    if cfg.cfgShortPeriod then cfg.shortPeriod.toUInt16 else w.sys.fastPeriodicTime
  lacpTimeout : w'.sys.lacpTimeout = if cfg.cfgPeriod then cfg.period else w.sys.lacpTimeout

/-- The named indices are added to those in the list, and then taken away, as far as the mask selects
it. -/
def PortsApplied (w : World) (cfg : LacpSysCfg) (w' : World) : Prop :=
  ∀ i, i ∈ w'.sys.ports.map w'.indexAt ↔
    (i ∈ w.sys.ports.map w.indexAt ∨
      cfg.cfgPbmpAdd = true ∧ i < lacpPortMax ∧ lacpBitmapGetBit cfg.ports i = true) ∧
    ¬ (cfg.cfgPbmpDel = true ∧ i < lacpPortMax ∧ lacpBitmapGetBit cfg.ports i = true)

/-- Every selected scalar that the `else if` chain does not get to has its configured value already. -/
structure LacpSysCfg.OthersSet (sys : LacpSys) (cfg : LacpSysCfg) : Prop where
  priority : cfg.cfgPrio = true → cfg.cfgPbmpDel = true → sys.priority = cfg.priority.toUInt16
  slowPeriodicTime : cfg.cfgLongPeriod = true → cfg.cfgPbmpDel = true ∨ cfg.cfgPrio = true →
    sys.slowPeriodicTime = cfg.longPeriod.toUInt16
  fastPeriodicTime : cfg.cfgShortPeriod = true →
    cfg.cfgPbmpDel = true ∨ cfg.cfgPrio = true ∨ cfg.cfgLongPeriod = true →
    sys.fastPeriodicTime = cfg.shortPeriod.toUInt16
  lacpTimeout : cfg.cfgPeriod = true →
    cfg.cfgPbmpDel = true ∨ cfg.cfgPrio = true ∨ cfg.cfgLongPeriod = true ∨ cfg.cfgShortPeriod = true →
    sys.lacpTimeout = cfg.period

/-- The system record with the chain's scalar stored, unless ports were deleted. -/
def storedSys (sys : LacpSys) (cfg : LacpSysCfg) : LacpSys :=
  if cfg.cfgPbmpDel then sys else setSysScalar sys cfg

/-- The system record when the engine starts, but for its list. -/
theorem sysCfgChanged_sys (hheap : ∀ a ∈ w.sys.ports, a < w.brk) (hv : sysCfgChanged w sysMac cfg = some v) :
    ∃ l, v.sys = { storedSys w.sys cfg with ports := l } := by
  unfold storedSys
  by_cases hdel : cfg.cfgPbmpDel = true
  · rw [if_pos hdel]
    exact (sysCfgChanged_of_del_eq_some hheap hdel hv).2.1
  · rw [if_neg hdel]
    obtain rfl := Option.some.inj ((if_neg hdel).symm.trans hv)
    obtain ⟨l, hsys⟩ := (sysCfgAdded_addedBelow hheap sysMac cfg).sys
    refine ⟨l, ?_⟩
    show setSysScalar (sysCfgAdded w sysMac cfg).sys cfg = _
    rw [hsys]
    unfold setSysScalar
    repeat' split
    all_goals rfl

/-- The system record after a call, but for its list. -/
theorem lacpSysSetCfg_sys (hheap : ∀ a ∈ w.sys.ports, a < w.brk)
    (hrun : lacpSysSetCfg fuel w sysMac cfg = some w') :
    ∃ l, w'.sys = { storedSys w.sys cfg with ports := l } := by
  have hrun' := hrun
  rw [lacpSysSetCfg_eq] at hrun
  obtain ⟨v, hv, -⟩ := Option.bind_eq_some_iff.mp hrun
  rw [lacpSysSetCfg_ports hv hrun']
  exact sysCfgChanged_sys hheap hv

/-- A scalar that is stored where it is selected and nothing before it is. -/
theorem ite_stored_iff {α : Type} {selected passed : Prop} [Decidable selected]
    [Decidable (selected ∧ ¬ passed)] {old new stored : α}
    (hstored : stored = if selected ∧ ¬ passed then new else old) :
    stored = (if selected then new else old) ↔ (selected → passed → old = new) := by
  rw [hstored]
  by_cases hsel : selected
  · rw [if_pos hsel]
    by_cases hpassed : passed
    · rw [if_neg fun h => h.2 hpassed]
      exact ⟨fun heq _ _ => heq, fun h => h hsel hpassed⟩
    · rw [if_pos ⟨hsel, hpassed⟩]
      exact iff_of_true rfl fun _ h => absurd h hpassed
  · rw [if_neg hsel, if_neg fun h => hsel h.1]
    exact iff_of_true rfl fun h => absurd h hsel

theorem scalarsApplied_iff (hheap : ∀ a ∈ w.sys.ports, a < w.brk)
    (hv : sysCfgChanged w sysMac cfg = some v) : ScalarsApplied w cfg v ↔ cfg.OthersSet w.sys := by
  obtain ⟨l, hsys⟩ := sysCfgChanged_sys hheap hv
  have hprio : v.sys.priority = if cfg.cfgPrio = true ∧ ¬ cfg.cfgPbmpDel = true
      then cfg.priority.toUInt16 else w.sys.priority := by
    rw [hsys]
    unfold storedSys setSysScalar
    grind
  have hlong : v.sys.slowPeriodicTime = if cfg.cfgLongPeriod = true ∧
      ¬ (cfg.cfgPbmpDel = true ∨ cfg.cfgPrio = true)
      then cfg.longPeriod.toUInt16 else w.sys.slowPeriodicTime := by
    rw [hsys]
    unfold storedSys setSysScalar
    grind
  have hshort : v.sys.fastPeriodicTime = if cfg.cfgShortPeriod = true ∧
      ¬ (cfg.cfgPbmpDel = true ∨ cfg.cfgPrio = true ∨ cfg.cfgLongPeriod = true)
      then cfg.shortPeriod.toUInt16 else w.sys.fastPeriodicTime := by
    rw [hsys]
    unfold storedSys setSysScalar
    grind
  have hperiod : v.sys.lacpTimeout = if cfg.cfgPeriod = true ∧
      ¬ (cfg.cfgPbmpDel = true ∨ cfg.cfgPrio = true ∨ cfg.cfgLongPeriod = true ∨
        cfg.cfgShortPeriod = true) then cfg.period else w.sys.lacpTimeout := by
    rw [hsys]
    unfold storedSys setSysScalar
    grind
  constructor
  · intro h
    exact ⟨(ite_stored_iff hprio).mp h.priority, (ite_stored_iff hlong).mp h.slowPeriodicTime,
      (ite_stored_iff hshort).mp h.fastPeriodicTime, (ite_stored_iff hperiod).mp h.lacpTimeout⟩
  · intro h
    exact ⟨(ite_stored_iff hprio).mpr h.priority, (ite_stored_iff hlong).mpr h.slowPeriodicTime,
      (ite_stored_iff hshort).mpr h.fastPeriodicTime, (ite_stored_iff hperiod).mpr h.lacpTimeout⟩

/-- The propagation and the engine leave the indices alone. -/
theorem lacpSysSetCfg_indexAt (hchange : sysCfgChanged w sysMac cfg = some v)
    (hrun : lacpSysSetCfg fuel w sysMac cfg = some w') : w'.indexAt = v.indexAt := by
  rw [lacpSysSetCfg_eq, hchange, Option.bind_some] at hrun
  obtain ⟨u, hsettle, rfl⟩ := Option.map_eq_some_iff.mp hrun
  funext a
  have hengine : u.indexAt a = (lacpPortUpdateInfo v).indexAt a :=
    (lacpSysUpdate_surroundings hsettle).portIndex a
  have hpropagated : (lacpPortUpdateInfo v).indexAt a = v.indexAt a := by
    unfold World.indexAt
    rw [lacpPortUpdateInfo, forPorts_port]
    split <;> rfl
  exact hengine.trans hpropagated

/-- The indices in the list after the additions. -/
theorem AddedBelow.mem_map_indexAt {n i : ℕ} {ports : LacpBitmap} (h : AddedBelow w ports n w') :
    i ∈ w'.sys.ports.map w'.indexAt ↔
      i ∈ w.sys.ports.map w.indexAt ∨ i < n ∧ lacpBitmapGetBit ports i = true := by
  obtain ⟨news, hports, _, hmem⟩ := h.news
  rw [hports, List.map_append, List.mem_append, hmem, List.map_congr_left h.oldIndex]
  by_cases hold : i ∈ w.sys.ports.map w.indexAt
  · exact iff_of_true (.inr hold) (.inl hold)
  · constructor
    · exact fun hin => .inr (hin.elim (fun hnew => ⟨hnew.1, hnew.2.1⟩) fun hin => absurd hin hold)
    · exact fun hin => .inl ⟨(hin.resolve_left hold).1, (hin.resolve_left hold).2, hold⟩

/-- The additions introduce no index twice. -/
theorem AddedBelow.nodup {n : ℕ} {ports : LacpBitmap} (h : AddedBelow w ports n w')
    (hnodup : (w.sys.ports.map w.indexAt).Nodup) : (w'.sys.ports.map w'.indexAt).Nodup := by
  obtain ⟨news, hports, hnews, hmem⟩ := h.news
  rw [hports, List.map_append, List.map_congr_left h.oldIndex]
  refine List.nodup_append.mpr ⟨hnews, hnodup, fun i hi j hj hij => ?_⟩
  exact ((hmem i).mp hi).2.2 (hij ▸ hj)

theorem portsApplied (hheap : ∀ a ∈ w.sys.ports, a < w.brk)
    (hnodup : (w.sys.ports.map w.indexAt).Nodup)
    (hv : sysCfgChanged w sysMac cfg = some v) : PortsApplied w cfg v := by
  intro i
  have hadded := sysCfgAdded_addedBelow hheap sysMac cfg
  have hbefore : i ∈ (sysCfgAdded w sysMac cfg).sys.ports.map (sysCfgAdded w sysMac cfg).indexAt ↔
      i ∈ w.sys.ports.map w.indexAt ∨
        cfg.cfgPbmpAdd = true ∧ i < lacpPortMax ∧ lacpBitmapGetBit cfg.ports i = true := by
    rw [hadded.mem_map_indexAt]
    refine or_congr_right ?_
    by_cases hadd : cfg.cfgPbmpAdd = true
    · rw [if_pos hadd]
      exact ⟨fun h => ⟨hadd, h⟩, And.right⟩
    · rw [if_neg hadd]
      exact iff_of_false (fun h => Nat.not_lt_zero i h.1) fun h => hadd h.1
  rw [← hbefore]
  by_cases hdel : cfg.cfgPbmpDel = true
  · rw [sysCfgChanged_of_del hdel] at hv
    obtain ⟨hports, l, rfl⟩ := foldlM_delPortIndex_ports hv
    rw [hports, eraseNamed_eq_filter (hadded.nodup hnodup)]
    have hindex : ∀ a, ({ sysCfgAdded w sysMac cfg with
        sys := { (sysCfgAdded w sysMac cfg).sys with ports := l } } : World).indexAt a =
          (sysCfgAdded w sysMac cfg).indexAt a := fun _ => rfl
    simp only [List.mem_map, List.mem_filter, hindex, keptBelow_iff, hdel, true_and]
    constructor
    · rintro ⟨a, ⟨ha, hkept⟩, rfl⟩
      exact ⟨⟨a, ha, rfl⟩, hkept⟩
    · rintro ⟨⟨a, ha, rfl⟩, hkept⟩
      exact ⟨a, ⟨ha, hkept⟩, rfl⟩
  · obtain rfl := Option.some.inj ((if_neg hdel).symm.trans hv)
    have hports : ∀ sys : LacpSys, (setSysScalar sys cfg).ports = sys.ports := by
      intro sys
      unfold setSysScalar
      repeat' split
      all_goals rfl
    show i ∈ ((setSysScalar _ cfg).ports.map (sysCfgAdded w sysMac cfg).indexAt) ↔ _
    rw [hports]
    exact ⟨fun h => ⟨h, fun hboth => hdel hboth.1⟩, And.left⟩

/-- What is applied when the engine starts is so when the call returns. -/
theorem applied_of_returns (hv : sysCfgChanged w sysMac cfg = some v)
    (hrun : lacpSysSetCfg fuel w sysMac cfg = some w') (hscalars : ScalarsApplied w cfg v)
    (hports : PortsApplied w cfg v) : ScalarsApplied w cfg w' ∧ PortsApplied w cfg w' := by
  have hsys : w'.sys = v.sys := lacpSysSetCfg_ports hv hrun
  constructor
  · constructor <;> rw [hsys]
    · exact hscalars.priority
    · exact hscalars.slowPeriodicTime
    · exact hscalars.fastPeriodicTime
    · exact hscalars.lacpTimeout
  · intro i
    rw [hsys, lacpSysSetCfg_indexAt hv hrun]
    exact hports i

/-- A call applies its mask: it follows no null pointer and gets to its engine run with every field that
the mask selects applied and no other changed, it returns from a state at rest with a sound configuration,
and whenever it returns, that is what it leaves. -/
structure AppliesMask (w : World) (sysMac : ℕ → LacpMac) (cfg : LacpSysCfg) : Prop where
  completes : ∃ v, sysCfgChanged w sysMac cfg = some v ∧ ScalarsApplied w cfg v ∧ PortsApplied w cfg v
  leaves : ∀ fuel w', lacpSysSetCfg fuel w sysMac cfg = some w' → ScalarsApplied w cfg w' ∧ PortsApplied w cfg w'
  returns : Idle w → Configured w → cfg.KeepsPeriods → Fuel.Returns fun fuel => lacpSysSetCfg fuel w sysMac cfg

/-- A call applies every field its mask selects exactly if every port it is to delete is in the list, or is
added first, and every scalar that the chain passes over has its configured value already. -/
theorem lacpSysSetCfg_applies_iff (hheap : ∀ a ∈ w.sys.ports, a < w.brk)
    (hnodup : (w.sys.ports.map w.indexAt).Nodup) (sysMac : ℕ → LacpMac) (cfg : LacpSysCfg) :
    AppliesMask w sysMac cfg ↔ (cfg.cfgPbmpDel = true → cfg.DeletesListed w) ∧ cfg.OthersSet w.sys := by
  constructor
  · intro h
    obtain ⟨v, hv, hscalars, -⟩ := h.completes
    refine ⟨fun hdel => ?_, (scalarsApplied_iff hheap hv).mp hscalars⟩
    exact (sysCfgChanged_isSome_iff hheap hdel).mp (Option.isSome_of_eq_some hv)
  · rintro ⟨hlisted, hothers⟩
    have hchange : (sysCfgChanged w sysMac cfg).isSome = true := by
      by_cases hdel : cfg.cfgPbmpDel = true
      · exact (sysCfgChanged_isSome_iff hheap hdel).mpr (hlisted hdel)
      · rw [sysCfgChanged, if_neg hdel, Option.isSome_some]
    obtain ⟨v, hv⟩ := Option.isSome_iff_exists.mp hchange
    have hscalars : ScalarsApplied w cfg v := (scalarsApplied_iff hheap hv).mpr hothers
    have hports : PortsApplied w cfg v := portsApplied hheap hnodup hv
    exact ⟨⟨v, hv, hscalars, hports⟩, fun _ _ hrun => applied_of_returns hv hrun hscalars hports,
      fun hidle hcfg hperiods => returns_lacpSysSetCfg hidle hcfg hchange (.inr hperiods)⟩

/-- A port is added, another one is there already, the priority is stored, and the long period that the
chain passes over is what it was. -/
theorem lacpSysSetCfg_applies_iff_addPrio :
    let w := withCreated (withCreated (initWorld 0) .zero 2) .zero 1
    let cfg := { LacpSysCfg.zero with
      cfgPbmpAdd := true, cfgPrio := true, cfgLongPeriod := true, priority := 65537, longPeriod := 30
      ports := lacpBitmapSetBit (portBit 2) 3 }
    AppliesMask w (fun _ => .zero) cfg ∧ ∃ w', lacpSysSetCfg 20 w (fun _ => .zero) cfg = some w' ∧
      w'.sys.ports.map w'.indexAt = [3, 1, 2] ∧ w'.sys.priority = 1 ∧ w'.sys.slowPeriodicTime = 30 := by
  intro w cfg
  have hothers : cfg.OthersSet w.sys :=
    ⟨fun _ h => absurd h (by decide), fun _ _ => rfl, fun h => absurd h (by decide),
      fun h => absurd h (by decide)⟩
  have hrun : (lacpSysSetCfg 20 w (fun _ => .zero) cfg).any (fun w' => decide (
      w'.sys.ports.map w'.indexAt = [3, 1, 2] ∧ w'.sys.priority = 1 ∧ w'.sys.slowPeriodicTime = 30)) = true := by
    decide +kernel
  obtain ⟨w', hw', hresult⟩ := (Option.any_eq_true ..).mp hrun
  refine ⟨(lacpSysSetCfg_applies_iff (by decide) (by decide) _ cfg).mpr ⟨fun h => absurd h (by decide), hothers⟩,
    w', hw', of_decide_eq_true hresult⟩

/-- Priority and long period are configured together: the period stays what it was. -/
theorem not_lacpSysSetCfg_applies :
    ¬ ∀ (w : World) (sysMac : ℕ → LacpMac) (cfg : LacpSysCfg), (∀ a ∈ w.sys.ports, a < w.brk) →
      (w.sys.ports.map w.indexAt).Nodup → AppliesMask w sysMac cfg := by
  intro hall
  have happlied := (hall (initWorld 0) (fun _ => .zero)
    { LacpSysCfg.zero with cfgPrio := true, cfgLongPeriod := true, priority := 7, longPeriod := 9 }
    (by decide) (by decide)).leaves 1 _ rfl
  exact absurd happlied.1.slowPeriodicTime (by decide)

end Scalars

end Lacp
