import Mathlib.Data.List.MinMax
import Mathlib.Data.List.Nodup
import Mathlib.Data.Prod.Lex
import Lacp.Sys

/-!
# The rankings of a group

Reference: `select_master_port` and `partners_aport`.

Both comparisons of the selection are strict orders on the ports of one list, since the port numbers
differ. The election keeps the port of least rank so far, so the master is the least of all eligible
members, in whatever order the list has them (`selectMasterPort_elects`). Of two ports that are each
other's partner one ranks before the other, so they are not both active
(`updateAggPortsSelect_not_looped`).
-/

namespace Lacp

/-! ## The least element of a list -/

section Argmin

variable {α β : Type*} [LinearOrder β] {f : α → β} {l l' : List α} {m : α}

/-- Without ties the least element does not depend on positions. -/
theorem argmin_eq_some_iff_of_injOn (hf : ∀ a ∈ l, ∀ b ∈ l, f a = f b → a = b) :
    l.argmin f = some m ↔ m ∈ l ∧ ∀ a ∈ l, a ≠ m → f m < f a := by
  have hleast : ∀ {b}, l.argmin f = some b → b ∈ l ∧ ∀ a ∈ l, a ≠ b → f b < f a := by
    intro b hb
    have hmem := List.argmin_mem hb
    refine ⟨hmem, fun a ha hne => lt_of_le_of_ne (List.le_of_mem_argmin ha hb) fun heq => ?_⟩
    exact hne (hf a ha b hmem heq.symm)
  constructor
  · exact hleast
  · rintro ⟨hm, hlt⟩
    cases hargmin : l.argmin f with
    | none =>
      rw [List.argmin_eq_none] at hargmin
      exact absurd (hargmin ▸ hm) List.not_mem_nil
    | some b =>
      by_contra hne
      have hbm : b ≠ m := fun heq => hne (congrArg some heq)
      obtain ⟨hb, hltb⟩ := hleast hargmin
      exact lt_asymm (hlt b hb hbm) (hltb m hm hbm.symm)

theorem argmin_perm (hf : ∀ a ∈ l, ∀ b ∈ l, f a = f b → a = b) (hperm : l'.Perm l) :
    l'.argmin f = l.argmin f := by
  have hf' : ∀ a ∈ l', ∀ b ∈ l', f a = f b → a = b := fun a ha b hb =>
    hf a (hperm.subset ha) b (hperm.subset hb)
  apply Option.ext
  intro m
  rw [argmin_eq_some_iff_of_injOn hf, argmin_eq_some_iff_of_injOn hf', hperm.mem_iff]
  simp only [hperm.mem_iff]

end Argmin

/-! ## The election -/

/-- The place of a port in the election: a higher speed comes first, then a lower port priority, then
a port whose `DEF` is clear, then a lower port number. -/
def electionRank (p : LacpPort) : ℕᵒᵈ ×ₗ ℕ ×ₗ Bool ×ₗ ℕ :=
  toLex (OrderDual.toDual p.speed.toNat, toLex (p.actor.portPriority.toNat,
    toLex (p.actor.state.DEF, p.actor.portNo.toNat)))

/-- A member of the group that can become its master. -/
structure Eligible (aggId : ℕ) (p : LacpPort) : Prop where
  aggId : p.aggId = aggId
  portEnabled : p.portEnabled = true
  lacpEnabled : p.lacpEnabled = true
  duplex : p.duplex ≠ 0

/-- The ports of one list have different numbers. -/
def PortNosDistinct (w : World) : Prop := (w.sys.ports.map fun a => (w.port a).actor.portNo).Nodup

instance (w : World) : Decidable (PortNosDistinct w) := inferInstanceAs (Decidable (List.Nodup _))

/-- The port is the best eligible member of the group. -/
structure IsMaster (w : World) (aggId : ℕ) (a : Addr) : Prop where
  listed : a ∈ w.sys.ports
  eligible : Eligible aggId (w.port a)
  best : ∀ b ∈ w.sys.ports, Eligible aggId (w.port b) → b ≠ a →
    electionRank (w.port a) < electionRank (w.port b)

/-- The eligible members, in the order of the list. -/
def eligibleMembers (w : World) (aggId : ℕ) : List Addr :=
  w.sys.ports.filter fun a => !notElectable aggId (w.port a)

section Election

variable {w : World} {aggId : ℕ} {a b : Addr}

theorem electionRank_lt {p q : LacpPort} : electionRank p < electionRank q ↔
    q.speed < p.speed ∨ q.speed = p.speed ∧
      (p.actor.portPriority < q.actor.portPriority ∨ p.actor.portPriority = q.actor.portPriority ∧
        (p.actor.state.DEF < q.actor.state.DEF ∨ p.actor.state.DEF = q.actor.state.DEF ∧
          p.actor.portNo < q.actor.portNo)) := by
  simp only [electionRank, Prod.Lex.toLex_lt_toLex, OrderDual.toDual_lt_toDual,
    UInt32.lt_iff_toNat_lt, UInt16.lt_iff_toNat_lt, ← UInt32.toNat_inj, ← UInt16.toNat_inj,
    OrderDual.toDual_inj]
  rw [eq_comm (a := p.speed.toNat)]

/-- The chain of comparisons in the source decides the order. -/
theorem replacesBest_eq (p best : LacpPort) :
    replacesBest p best = decide (electionRank p < electionRank best) := by
  apply Bool.eq_iff_iff.mpr
  rw [decide_eq_true_iff, electionRank_lt]
  simp only [replacesBest, gt_iff_lt, UInt32.lt_iff_toNat_lt, UInt16.lt_iff_toNat_lt,
    ← UInt32.toNat_inj, ← UInt16.toNat_inj]
  -- each pair of branches of the source compares one component
  rcases Nat.lt_trichotomy p.speed.toNat best.speed.toNat with hspeed | hspeed | hspeed
  · simp [hspeed, hspeed.not_gt, hspeed.ne']
  · rcases Nat.lt_trichotomy p.actor.portPriority.toNat best.actor.portPriority.toNat with
      hprio | hprio | hprio
    · simp [hspeed, hprio]
    · cases hdef : p.actor.state.DEF <;> cases hdef' : best.actor.state.DEF <;>
        simp [hspeed, hprio]
    · simp [hspeed, hprio, hprio.not_gt, hprio.ne']
  · simp [hspeed]

theorem notElectable_eq_false_iff {p : LacpPort} :
    notElectable aggId p = false ↔ Eligible aggId p := by
  rw [notElectable_eq_false]
  exact ⟨fun h => ⟨h.1, h.2.1, h.2.2.1, h.2.2.2⟩, fun h => ⟨h.1, h.2, h.3, h.4⟩⟩

theorem mem_eligibleMembers :
    a ∈ eligibleMembers w aggId ↔ a ∈ w.sys.ports ∧ Eligible aggId (w.port a) := by
  simp only [eligibleMembers, List.mem_filter, Bool.not_eq_true', notElectable_eq_false_iff]

/-- The one pass over the list finds the least eligible member. -/
theorem electedMaster_eq_argmin :
    electedMaster w aggId = (eligibleMembers w aggId).argmin fun a => electionRank (w.port a) := by
  rw [electedMaster_eq, eligibleMembers, List.argmin, List.foldl_filter]
  apply List.foldl_ext
  intro best p _
  cases hpass : notElectable aggId (w.port p) with
  | true => simp [electBest, hpass]
  | false =>
    cases best with
    | none => simp [electBest, hpass, List.argAux]
    | some b => simp [electBest, hpass, List.argAux, replacesBest_eq]

/-- Ports with different numbers have different ranks. -/
theorem electionRank_injOn (h : PortNosDistinct w) (ha : a ∈ w.sys.ports) (hb : b ∈ w.sys.ports)
    (heq : electionRank (w.port a) = electionRank (w.port b)) : a = b := by
  have hno : (w.port a).actor.portNo.toNat = (w.port b).actor.portNo.toNat :=
    congrArg (fun r => (ofLex (ofLex (ofLex r).2).2).2) heq
  exact List.inj_on_of_nodup_map h ha hb (UInt16.toNat_inj.mp hno)

theorem eligibleMembers_injOn (h : PortNosDistinct w) : ∀ a ∈ eligibleMembers w aggId,
    ∀ b ∈ eligibleMembers w aggId, electionRank (w.port a) = electionRank (w.port b) → a = b :=
  fun _ ha _ hb heq => electionRank_injOn h (mem_eligibleMembers.mp ha).1
    (mem_eligibleMembers.mp hb).1 heq

theorem electedMaster_eq_none :
    electedMaster w aggId = none ↔ ∀ a ∈ w.sys.ports, ¬ Eligible aggId (w.port a) := by
  rw [electedMaster_eq_argmin, List.argmin_eq_none, List.eq_nil_iff_forall_not_mem]
  simp only [mem_eligibleMembers, not_and]

theorem electedMaster_eq_some_iff (h : PortNosDistinct w) :
    electedMaster w aggId = some a ↔ IsMaster w aggId a := by
  rw [electedMaster_eq_argmin, argmin_eq_some_iff_of_injOn (eligibleMembers_injOn h)]
  simp only [mem_eligibleMembers]
  constructor
  · rintro ⟨⟨ha, hel⟩, hbest⟩
    exact ⟨ha, hel, fun b hb helb hne => hbest b ⟨hb, helb⟩ hne⟩
  · intro hm
    exact ⟨⟨hm.listed, hm.eligible⟩, fun b hb hne => hm.best b hb.1 hb.2 hne⟩

/-- The same ports in another order. -/
def World.withPorts (w : World) (ports : List Addr) : World :=
  { w with sys := { w.sys with ports := ports } }

theorem electedMaster_withPorts (h : PortNosDistinct w) {ports : List Addr}
    (hperm : ports.Perm w.sys.ports) :
    electedMaster (w.withPorts ports) aggId = electedMaster w aggId := by
  rw [electedMaster_eq_argmin, electedMaster_eq_argmin]
  exact argmin_perm (eligibleMembers_injOn h) (hperm.filter _)

end Election

/-- The election is a maximum. It has no result where no member is eligible; otherwise its result is
the best eligible member, of which there is one only, and it is the same whatever the order of the
list. -/
theorem selectMasterPort_elects (w : World) (aggId : ℕ) (h : PortNosDistinct w) :
    ((selectMasterPort w aggId).2 = none ↔ ∀ a ∈ w.sys.ports, ¬ Eligible aggId (w.port a)) ∧
    ((∃ a ∈ w.sys.ports, Eligible aggId (w.port a)) →
      ∃ a, (selectMasterPort w aggId).2 = some a ∧ IsMaster w aggId a ∧
        ∀ b, IsMaster w aggId b → b = a) ∧
    ∀ ports, ports.Perm w.sys.ports →
      (selectMasterPort (w.withPorts ports) aggId).2 = (selectMasterPort w aggId).2 := by
  refine ⟨electedMaster_eq_none, ?_, fun ports hperm => electedMaster_withPorts h hperm⟩
  rintro ⟨a, ha, hel⟩
  cases hmaster : electedMaster w aggId with
  | none => exact absurd hel (electedMaster_eq_none.mp hmaster a ha)
  | some b =>
    refine ⟨b, hmaster, (electedMaster_eq_some_iff h).mp hmaster, fun c hc => ?_⟩
    have hmaster' := (electedMaster_eq_some_iff h).mpr hc
    exact Option.some.inj (hmaster'.symm.trans hmaster)

/-- A member of group 1 that can be aggregated, with a port of the same system as its partner. -/
def loopedMember (portNo partnerNo : UInt16) : LacpPort :=
  { LacpPort.zero with
    aggId := 1
    portEnabled := true
    lacpEnabled := true
    speed := 1000
    duplex := 1
    actor := { LacpPortInfo.zero with portNo := portNo, state := { LacpState.zero with AGG := true } }
    partner :=
      { LacpPortInfo.zero with portNo := partnerNo, state := { LacpState.zero with AGG := true } } }

/-- The ports 3 and 2 of one group, cabled to each other, in the order in which they were created. -/
def loopedPair : World :=
  { initWorld 1 with
    sys := { lacpSysInit with ports := [0, 1] }
    port := fun a => if a = 0 then loopedMember 3 2 else loopedMember 2 3 }

/-- The port with the lower number is elected, in either order. -/
theorem loopedPair_elects : (selectMasterPort loopedPair 1).2 = some 1 ∧
    (selectMasterPort (loopedPair.withPorts [1, 0]) 1).2 = some 1 := by
  obtain ⟨-, -, hperm⟩ := selectMasterPort_elects loopedPair 1 (by decide)
  have hmaster : (selectMasterPort loopedPair 1).2 = some 1 := by decide
  exact ⟨hmaster, (hperm [1, 0] (List.Perm.swap 0 1 [])).trans hmaster⟩

/-! ## Looped ports -/

/-- The port of `p` records `q` as its partner. -/
structure Identifies (p q : LacpPort) : Prop where
  systemPriority : p.partner.systemPriority = q.actor.systemPriority
  systemMac : p.partner.systemMac = q.actor.systemMac
  key : p.partner.key = q.actor.key
  portNo : p.partner.portNo = q.actor.portNo

/-- The place of a port among the ports of its own system. -/
def portRank (p : LacpPort) : ℕ ×ₗ ℕ := toLex (p.actor.portPriority.toNat, p.actor.portNo.toNat)

section Looped

variable {w : World} {aggId : ℕ} {a b : Addr}

theorem portRank_lt {p q : LacpPort} : portRank p < portRank q ↔
    p.actor.portPriority < q.actor.portPriority ∨ p.actor.portPriority = q.actor.portPriority ∧
      p.actor.portNo < q.actor.portNo := by
  simp only [portRank, Prod.Lex.toLex_lt_toLex, UInt16.lt_iff_toNat_lt, ← UInt16.toNat_inj]

/-- `partners_aport` in terms of the rank. -/
theorem partnersAport_iff : partnersAport w a = true ↔ ∃ b ∈ w.sys.ports,
    (w.port a).aggId = (w.port b).aggId ∧ Identifies (w.port a) (w.port b) ∧
      portRank (w.port b) < portRank (w.port a) := by
  simp only [partnersAport, List.any_eq_true, Bool.and_eq_true, Bool.or_eq_true, beq_iff_eq,
    decide_eq_true_iff, portRank_lt]
  constructor
  · rintro ⟨b, hb, ⟨⟨⟨⟨hagg, hprio⟩, hmac⟩, hkey⟩, hno⟩, hrank⟩
    exact ⟨b, hb, hagg, ⟨hprio.symm, hmac.symm, hkey.symm, hno.symm⟩, hrank⟩
  · rintro ⟨b, hb, hagg, hid, hrank⟩
    exact ⟨b, hb, ⟨⟨⟨⟨hagg, hid.systemPriority.symm⟩, hid.systemMac.symm⟩, hid.key.symm⟩,
      hid.portNo.symm⟩, hrank⟩

/-- A member that a selection leaves active has no partner in its own group that ranks before it. -/
theorem not_partnersAport_of_selectedStandby (h : selectedStandby w aggId a = false) :
    partnersAport (updatePortInfo w aggId) a = false := by
  cases hbest : electedMaster w aggId with
  | none => simp [selectedStandby, hbest] at h
  | some best =>
    simp only [selectedStandby, hbest, Bool.not_eq_false', Bool.and_eq_true] at h
    simpa using h.2

/-- The identities of two ports, after the keys of the group are refreshed or after the whole
selection. -/
theorem identifies_updateAggPortsSelect :
    Identifies ((updateAggPortsSelect w aggId).port a) ((updateAggPortsSelect w aggId).port b) ↔
      Identifies ((updatePortInfo w aggId).port a) ((updatePortInfo w aggId).port b) := by
  have hidentity : ∀ c, ((updateAggPortsSelect w aggId).port c).actor
        = ((updatePortInfo w aggId).port c).actor ∧
      ((updateAggPortsSelect w aggId).port c).partner = ((updatePortInfo w aggId).port c).partner := by
    intro c
    rw [updateAggPortsSelect_port, updatePortInfo_port]
    split <;> exact ⟨rfl, rfl⟩
  obtain ⟨hactor, hpartner⟩ := hidentity a
  obtain ⟨hactor', hpartner'⟩ := hidentity b
  constructor
  · rintro ⟨hprio, hmac, hkey, hno⟩
    rw [hpartner, hactor'] at hprio hmac hkey hno
    exact ⟨hprio, hmac, hkey, hno⟩
  · rintro ⟨hprio, hmac, hkey, hno⟩
    rw [← hpartner, ← hactor'] at hprio hmac hkey hno
    exact ⟨hprio, hmac, hkey, hno⟩

/-- Of two ports that are each other's partner, the one that ranks after the other stands by. -/
theorem portRank_le_of_active (hb : b ∈ w.sys.ports)
    (hagg : (w.port a).aggId = (w.port b).aggId) (hactive : selectedStandby w aggId a = false)
    (hid : Identifies ((updatePortInfo w aggId).port a) ((updatePortInfo w aggId).port b)) :
    portRank (w.port a) ≤ portRank (w.port b) := by
  by_contra hlt
  obtain ⟨key, hkey⟩ := updatePortInfo_keyed w aggId a
  obtain ⟨key', hkey'⟩ := updatePortInfo_keyed w aggId b
  have hpartner : partnersAport (updatePortInfo w aggId) a = true := by
    refine partnersAport_iff.mpr ⟨b, hb, ?_, hid, ?_⟩
    · rw [hkey, hkey']
      exact hagg
    · rw [hkey, hkey']
      exact not_le.mp hlt
  rw [not_partnersAport_of_selectedStandby hactive] at hpartner
  cases hpartner

end Looped

/-- No two active members of the group are each other's partner. -/
def NotLooped (w : World) (aggId : ℕ) : Prop :=
  ∀ a ∈ w.sys.ports, ∀ b ∈ w.sys.ports, a ≠ b →
    (w.port a).aggId = aggId → (w.port b).aggId = aggId →
    (w.port a).standby = false → (w.port b).standby = false →
    ¬ (Identifies (w.port a) (w.port b) ∧ Identifies (w.port b) (w.port a))

/-- A selection leaves no two looped ports active. -/
theorem updateAggPortsSelect_not_looped (w : World) (aggId : ℕ) (h : PortNosDistinct w) :
    NotLooped (updateAggPortsSelect w aggId) aggId := by
  have hports : (updateAggPortsSelect w aggId).sys.ports = w.sys.ports := by
    rw [updateAggPortsSelect_eq]
    rfl
  have hmember : ∀ {c}, c ∈ w.sys.ports → ((updateAggPortsSelect w aggId).port c).aggId = aggId →
      ((updateAggPortsSelect w aggId).port c).standby = false →
      (w.port c).aggId = aggId ∧ selectedStandby w aggId c = false := by
    intro c hc hagg hsb
    rw [updateAggPortsSelect_port] at hagg hsb
    by_cases hin : c ∈ w.sys.ports ∧ (w.port c).aggId = aggId
    · rw [if_pos hin] at hsb
      exact ⟨hin.2, hsb⟩
    · rw [if_neg hin] at hagg
      exact absurd ⟨hc, hagg⟩ hin
  rintro a ha b hb hne hagga haggb hsba hsbb ⟨hid, hid'⟩
  rw [hports] at ha hb
  obtain ⟨hagga, hactive⟩ := hmember ha hagga hsba
  obtain ⟨haggb, hactive'⟩ := hmember hb haggb hsbb
  have hle := portRank_le_of_active hb (hagga.trans haggb.symm) hactive
    (identifies_updateAggPortsSelect.mp hid)
  have hle' := portRank_le_of_active ha (haggb.trans hagga.symm) hactive'
    (identifies_updateAggPortsSelect.mp hid')
  -- each ranks before the other or level with it, so their numbers are the same
  have hno : (w.port a).actor.portNo.toNat = (w.port b).actor.portNo.toNat :=
    congrArg (fun r => (ofLex r).2) (le_antisymm hle hle')
  exact hne (List.inj_on_of_nodup_map h ha hb (UInt16.toNat_inj.mp hno))

/-- Of two ports cabled to each other one stands by. -/
theorem loopedPair_not_looped : ((updateAggPortsSelect loopedPair 1).port 1).standby = false ∧
    ((updateAggPortsSelect loopedPair 1).port 0).standby = true := by
  have hactive : ((updateAggPortsSelect loopedPair 1).port 1).standby = false := by decide
  have hid : Identifies ((updateAggPortsSelect loopedPair 1).port 0)
        ((updateAggPortsSelect loopedPair 1).port 1) ∧
      Identifies ((updateAggPortsSelect loopedPair 1).port 1)
        ((updateAggPortsSelect loopedPair 1).port 0) :=
    ⟨⟨by decide, by decide, by decide, by decide⟩, ⟨by decide, by decide, by decide, by decide⟩⟩
  have hnot := updateAggPortsSelect_not_looped loopedPair 1 (by decide) 0 (by decide) 1 (by decide)
    (by decide) (by decide) (by decide)
  refine ⟨hactive, ?_⟩
  by_contra hsb
  exact hnot (by simpa using hsb) hactive hid

end Lacp
