import Lacp.Homogeneity
import Lacp.Keys
import Lacp.Transmission

/-!
# Speed classes

Reference: `trunk_ssp_get_speed_index`, `trunk_ssp_set_port_speed`, `trunk_ssp_set_port_duplex` and
`lacp_port_link_change`.

Two active ports of a link group have the same key, and so the same speed class. Class 0 holds every
speed the switch does not list and every speed at half duplex, so ports of one class need not have one
speed. And a half-duplex port is kept out of the aggregation by its `AGG` bit alone, which is cleared
when its link changes but not when its duplex does. As long as no member of a group is given a speed or a
duplex value that its class does not tell apart, the active ports are full duplex and of one speed
(`reachableBy_oneSpeed`).
-/

namespace Lacp

/-- Any two active ports of one link group have the same speed and are full duplex. -/
def OneSpeed (w : World) : Prop :=
  ∀ a ∈ w.sys.ports, ∀ b ∈ w.sys.ports, (w.port a).Active → (w.port b).Active →
    (w.port a).aggId = (w.port b).aggId →
    (w.gPortList (w.port a).portIndex).speed = (w.gPortList (w.port b).portIndex).speed ∧
      (w.gPortList (w.port a).portIndex).duplex ≠ 0 ∧ (w.gPortList (w.port b).portIndex).duplex ≠ 0

/-- If both are full duplex and of one class, the speeds are the same. -/
def ClassTells (x y : PortAttr) : Prop :=
  x.duplex ≠ 0 → y.duplex ≠ 0 →
    trunkSspGetSpeedIndex x.speed x.duplex = trunkSspGetSpeedIndex y.speed y.duplex → x.speed = y.speed

instance (x y : PortAttr) : Decidable (ClassTells x y) :=
  inferInstanceAs (Decidable (_ → _ → _ → _))

/-- The class tells the speed of the index `i` from the speeds of the ports of group `g`. -/
def FitsGroup (w : World) (i : ℕ) (attr : PortAttr) (g : ℕ) : Prop :=
  ∀ b ∈ w.sys.ports, (w.port b).portIndex ≠ i → (w.port b).aggId = g →
    ClassTells attr (w.gPortList (w.port b).portIndex)

instance (w : World) (i : ℕ) (attr : PortAttr) (g : ℕ) : Decidable (FitsGroup w i attr g) :=
  inferInstanceAs (Decidable (∀ b ∈ w.sys.ports, _ → _ → _))

/-- The call gives no port a speed that the class does not tell from another one in the group. No port
becomes half duplex while its link is up and it can be aggregated, or is made a member while its link is
up at half duplex. -/
def Call.KeepsClasses (w : World) : Call → Prop
  | .portSetSpeed slot port speed => ∀ a ∈ w.sys.ports, (w.port a).portIndex = globalIndex slot port →
      FitsGroup w (globalIndex slot port)
        { w.gPortList (globalIndex slot port) with speed := speed } (w.port a).aggId
  | .portSetDuplex slot port duplex => ∀ a ∈ w.sys.ports,
      (w.port a).portIndex = globalIndex slot port →
      (duplex = 0 → (w.port a).portEnabled = true → (w.port a).actor.state.AGG = false) ∧
      FitsGroup w (globalIndex slot port)
        { w.gPortList (globalIndex slot port) with duplex := duplex } (w.port a).aggId
  | .portLacpEnable slot port aggId _ =>
      FitsGroup w (globalIndex slot port) (w.gPortList (globalIndex slot port)) aggId ∧
      ∀ a ∈ w.sys.ports, (w.port a).portIndex = globalIndex slot port →
        (w.port a).portEnabled = true → (w.gPortList (globalIndex slot port)).duplex ≠ 0
  | _ => True

instance (w : World) : (c : Call) → Decidable (c.KeepsClasses w)
  | .portSetSpeed _ _ _ | .portSetDuplex _ _ _ =>
    inferInstanceAs (Decidable (∀ a ∈ w.sys.ports, _ → _))
  | .portLacpEnable _ _ _ _ => inferInstanceAs (Decidable (_ ∧ ∀ a ∈ w.sys.ports, _ → _))
  | .sysSetPrio _ | .sysSetLongPeriod _ | .sysSetShortPeriod _ | .sysSetPeriod _
  | .portLacpDisable _ _ | .aggDelete _ | .portSetPrio _ _ _ | .portLinkChange _ _ _
  | .portClearStat _ _ | .setPortLinkStatus _ _ | .rxLacpdu _ _ _ | .oneSecond => isTrue trivial

/-! ## During a call -/

/-- What the classes tell while the call `c` runs. -/
structure ClassesTell (c : Call) (E : Set ℕ) (w : World) : Prop where
  leaving : LeavingOnly c w
  keys : KeysFollow E w
  groups : GroupsKnown E w
  duplex : ∀ a ∈ w.sys.ports, (w.port a).portIndex ∉ E → (w.port a).lacpEnabled = true →
    (w.port a).portEnabled = true → (w.port a).actor.state.AGG = true →
    (w.gPortList (w.port a).portIndex).duplex ≠ 0
  members : ∀ a ∈ w.sys.ports, ∀ b ∈ w.sys.ports, (w.port a).portIndex ∉ E →
    (w.port b).portIndex ∉ E → (w.port a).lacpEnabled = true → (w.port b).lacpEnabled = true →
    (w.port a).aggId = (w.port b).aggId →
    ClassTells (w.gPortList (w.port a).portIndex) (w.gPortList (w.port b).portIndex)
  joins : ∀ slot port aggId sysMac, c = .portLacpEnable slot port aggId sysMac →
    FitsGroup w (globalIndex slot port) (w.gPortList (globalIndex slot port)) aggId

theorem ClassTells.refl (x : PortAttr) : ClassTells x x := fun _ _ _ => rfl

theorem ClassTells.symm {x y : PortAttr} (h : ClassTells x y) : ClassTells y x :=
  fun hy hx heq => (h hx hy heq.symm).symm

/-- Only the speed and the duplex value matter. -/
theorem ClassTells.congr {x y x' y' : PortAttr} (h : ClassTells x y) (hspeed : x'.speed = x.speed)
    (hduplex : x'.duplex = x.duplex) (hspeed' : y'.speed = y.speed)
    (hduplex' : y'.duplex = y.duplex) : ClassTells x' y' := by
  rw [ClassTells, hspeed, hduplex, hspeed', hduplex']
  exact h

section Effect

variable {c : Call} {E E' : Set ℕ} {w w' : World} {b : Addr} {q : LacpPort}

/-- No hop sets the `AGG` bit of a port that runs LACP over a working link. -/
theorem PortHop.agg_eq {attr : PortAttr} (hp : PortCoherent E w.sys (w.port b) attr)
    (hop : PortHop w b q) (hlac : (w.port b).lacpEnabled = true)
    (hen : (w.port b).portEnabled = true) : q.actor.state.AGG = (w.port b).actor.state.AGG := by
  cases hop with
  | @rx s _ guard =>
    have hguard := rxGuard_of_check guard
    cases hguard with
    | start hs => exact absurd (hlac.symm.trans (hp.fresh hs).1) (by simp)
    | moved _ hpm => exact absurd (hen.symm.trans (hp.moved hpm).1) (by simp)
    | linkDown | initialized | linkUp | linkUpOff | lacpOn | timeout | resume | expire | refresh
    | recover => rfl
  | same | deselect | selDisabled | selAlone | select => rfl
  | @mux s => cases s <;> rfl
  | @tx s => cases s <;> rfl

/-- Where a member of a group comes from, and its entry of `g_port_list`. -/
inductive Placed (c : Call) (E : Set ℕ) (w w' : World) (b : Addr) : Prop
  /-- It was a member of the group, with the same speed and duplex value. -/
  | kept (hb : b ∈ w.sys.ports) (hE : (w.port b).portIndex ∉ E) (hlac : (w.port b).lacpEnabled = true)
      (hindex : (w'.port b).portIndex = (w.port b).portIndex)
      (hagg : (w'.port b).aggId = (w.port b).aggId)
      (hspeed : (w'.gPortList (w.port b).portIndex).speed = (w.gPortList (w.port b).portIndex).speed)
      (hduplex : (w'.gPortList (w.port b).portIndex).duplex =
        (w.gPortList (w.port b).portIndex).duplex) : Placed c E w w' b
  | joined {slot port aggId : ℕ} {sysMac : LacpMac} (hc : c = .portLacpEnable slot port aggId sysMac)
      (hindex : (w'.port b).portIndex = globalIndex slot port)
      (hagg : (w'.port b).aggId = aggId) : Placed c E w w' b
  /-- It was a member of the group and has a new speed or duplex value. -/
  | set (hb : b ∈ w.sys.ports) (hset : c.setsAttr = true)
      (hc : c.target = some (w.port b).portIndex) (hok : c.KeepsClasses w)
      (hindex : (w'.port b).portIndex = (w.port b).portIndex)
      (hagg : (w'.port b).aggId = (w.port b).aggId)
      (hattr : w'.gPortList (w.port b).portIndex = c.newAttr w (w.port b).portIndex) :
      Placed c E w w' b

theorem Call.newAttr_of_not_setsAttr (h : c.setsAttr = false) (w : World) (i : ℕ) :
    c.newAttr w i = w.gPortList i := by
  cases c <;> first | rfl | cases h

/-- A value that a call may set fits the group of its port. -/
theorem Call.KeepsClasses.fitsGroup (h : c.KeepsClasses w) (hset : c.setsAttr = true)
    (hc : c.target = some (w.port b).portIndex) (hb : b ∈ w.sys.ports) :
    FitsGroup w (w.port b).portIndex (c.newAttr w (w.port b).portIndex) (w.port b).aggId := by
  cases c with
  | portSetSpeed slot port speed =>
    have hindex : globalIndex slot port = (w.port b).portIndex := Option.some.inj hc
    rw [← hindex]
    exact h b hb hindex.symm
  | portSetDuplex slot port duplex =>
    have hindex : globalIndex slot port = (w.port b).portIndex := Option.some.inj hc
    rw [← hindex]
    exact (h b hb hindex.symm).2
  | _ => cases hset

theorem Placed.of_effect (hc : Coherent E w)
    (heffect : Effect (fun w c => c.KeepsClasses w) c (E, w) (E', w')) (hb : b ∈ w'.sys.ports)
    (hE' : (w'.port b).portIndex ∉ E') (hlac : (w'.port b).lacpEnabled = true) :
    Placed c E w w' b := by
  cases heffect.cases hc with
  | hop hop hE =>
    have hindex := hop.engineHop.portIndex_eq b
    have hlac' := hop.engineHop.lacpEnabled_eq b
    obtain ⟨hspeed, hduplex, _⟩ :=
      PortAttr.of_configured_eq (hop.engineHop.configured_eq (w.port b).portIndex)
    exact .kept (hop.engineHop.sys_eq ▸ hb) (by rw [← hE, ← hindex]; exact hE') (hlac'.symm.trans hlac)
      hindex (hop.engineHop.aggId_eq b) hspeed hduplex
  | setSys _ _ hE _ hw =>
    have hb' : b ∈ w.sys.ports := hw.ports ▸ hb
    have hentry := hw.entry (w.port b).portIndex (Set.notMem_empty _)
    subst hE
    have hport := hw.port b hb'
    rw [hport] at hlac
    exact .kept hb' (Set.notMem_empty _) hlac (by rw [hport]; rfl) (by rw [hport]; rfl)
      (by rw [hentry]) (by rw [hentry])
  | write _ _ _ hports =>
    cases hports b hb with
    | write hb' hwrite hentry =>
      have hindex := hwrite.portIndex_eq
      obtain ⟨hE, hsame⟩ := hentry (hindex ▸ hE')
      obtain ⟨hlac', hagg⟩ := hwrite.group_eq hlac
      exact .kept hb' hE hlac' hindex hagg hsame.speed hsame.duplex
    | join _ hcall _ hindex _ _ _ _ hport =>
      exact .joined hcall (by rw [hport]; exact hindex) (by rw [hport]; rfl)
    | reselect hb' htarget hlac' hE hok _ hattr hport =>
      have hindex : (w'.port b).portIndex = (w.port b).portIndex := by rw [hport]
      have hagg : (w'.port b).aggId = (w.port b).aggId := by rw [hport]
      cases hset : c.setsAttr with
      | true => exact .set hb' hset htarget hok hindex hagg hattr
      | false =>
        rw [Call.newAttr_of_not_setsAttr hset] at hattr
        exact .kept hb' (by rw [hE]; exact Set.notMem_empty _) hlac' hindex hagg (by rw [hattr])
          (by rw [hattr])
    | create _ _ _ _ _ _ hport =>
      rw [hport] at hlac
      cases hlac

namespace ClassesTell

/-- Two members of a group are told apart after an effect if they were before. -/
theorem members_of_placed {a : Addr} (h : ClassesTell c E w)
    (hjoin : c.isJoin = true → ∀ i, (w'.gPortList i).speed = (w.gPortList i).speed ∧
      (w'.gPortList i).duplex = (w.gPortList i).duplex)
    (ha : Placed c E w w' a) (hb : Placed c E w w' b)
    (hagg : (w'.port a).aggId = (w'.port b).aggId) :
    ClassTells (w'.gPortList (w'.port a).portIndex) (w'.gPortList (w'.port b).portIndex) := by
  -- a port that joins a group fits it
  have hfits : ∀ {a b : Addr} {slot port aggId : ℕ} {sysMac : LacpMac},
      c = .portLacpEnable slot port aggId sysMac → (w'.port a).portIndex = globalIndex slot port →
      b ∈ w.sys.ports → (w'.port b).portIndex = (w.port b).portIndex → (w.port b).aggId = aggId →
      ClassTells (w'.gPortList (w'.port a).portIndex) (w'.gPortList (w'.port b).portIndex) := by
    intro a b slot port aggId sysMac hcall hindex hb hindexb haggb
    rw [hindex, hindexb]
    by_cases hi : (w.port b).portIndex = globalIndex slot port
    · rw [hi]
      exact .refl _
    · have hattr := hjoin (by rw [hcall]; rfl)
      exact (h.joins _ _ _ _ hcall b hb hi haggb).congr (hattr _).1 (hattr _).2 (hattr _).1 (hattr _).2
  -- a value that is set fits the group
  have hset : ∀ {a b : Addr}, a ∈ w.sys.ports → c.setsAttr = true →
      c.target = some (w.port a).portIndex → c.KeepsClasses w →
      w'.gPortList (w.port a).portIndex = c.newAttr w (w.port a).portIndex → b ∈ w.sys.ports →
      (w.port b).aggId = (w.port a).aggId →
      ((w.port b).portIndex ≠ (w.port a).portIndex →
        (w'.gPortList (w.port b).portIndex).speed = (w.gPortList (w.port b).portIndex).speed ∧
        (w'.gPortList (w.port b).portIndex).duplex = (w.gPortList (w.port b).portIndex).duplex) →
      ClassTells (w'.gPortList (w.port a).portIndex) (w'.gPortList (w.port b).portIndex) := by
    intro a b ha hset htarget hok hattr hb hagg hkept
    by_cases hi : (w.port b).portIndex = (w.port a).portIndex
    · rw [hi]
      exact .refl _
    · obtain ⟨hspeed, hduplex⟩ := hkept hi
      rw [hattr]
      exact (hok.fitsGroup hset htarget ha b hb hi hagg).congr rfl rfl hspeed hduplex
  cases ha with
  | kept ha hE hlac hindex hagg₁ hspeed hduplex =>
    cases hb with
    | kept hb hE' hlac' hindex' hagg₂ hspeed' hduplex' =>
      rw [hindex, hindex']
      exact (h.members a ha b hb hE hE' hlac hlac' (hagg₁.symm.trans (hagg.trans hagg₂))).congr hspeed
        hduplex hspeed' hduplex'
    | joined hcall hindex' hagg₂ =>
      exact (hfits hcall hindex' ha hindex (hagg₁.symm.trans (hagg.trans hagg₂))).symm
    | set hb hsets htarget hok hindex' hagg₂ hattr =>
      rw [hindex, hindex']
      exact (hset hb hsets htarget hok hattr ha (hagg₁.symm.trans (hagg.trans hagg₂))
        fun _ => ⟨hspeed, hduplex⟩).symm
  | joined hcall hindex hagg₁ =>
    cases hb with
    | kept hb hE' hlac' hindex' hagg₂ hspeed' hduplex' =>
      exact hfits hcall hindex hb hindex' (hagg₂.symm.trans (hagg.symm.trans hagg₁))
    | joined hcall' hindex' =>
      obtain ⟨rfl, rfl, -, -⟩ := Call.portLacpEnable.inj (hcall.symm.trans hcall')
      rw [hindex, hindex']
      exact .refl _
    | set _ hsets =>
      rw [hcall] at hsets
      cases hsets
  | set ha hsets htarget hok hindex hagg₁ hattr =>
    cases hb with
    | kept hb hE' hlac' hindex' hagg₂ hspeed' hduplex' =>
      rw [hindex, hindex']
      exact hset ha hsets htarget hok hattr hb (hagg₂.symm.trans (hagg.symm.trans hagg₁))
        fun _ => ⟨hspeed', hduplex'⟩
    | joined hcall' =>
      rw [hcall'] at hsets
      cases hsets
    | set hb _ htarget' _ hindex' =>
      rw [hindex, hindex', Option.some.inj (htarget.symm.trans htarget')]
      exact .refl _

/-- A write to a port that may be aggregated over a working link finds it at full duplex. -/
theorem duplex_of_write {R : World → Call → Prop} (h : ClassesTell c E w) (hb : b ∈ w.sys.ports)
    (hE : (w.port b).portIndex ∉ E) (hwrite : PortWrite R c E w b q) (hlac : q.lacpEnabled = true)
    (hen : q.portEnabled = true) (hagg : q.actor.state.AGG = true) :
    (w.gPortList (w.port b).portIndex).duplex ≠ 0 := by
  cases hwrite with
  | same | deselect | prio | stat | receive | moved | tick => exact h.duplex b hb hE hlac hen hagg
  | notify => cases hagg
  | leave => cases hlac
  | link =>
    -- the link change clears the bit of a half-duplex port
    intro hhalf
    simp [linkChangedPort, hhalf] at hagg

/-- The active members of every group stay full duplex. -/
theorem duplex_of_effect (hc : Coherent E w) (h : ClassesTell c E w)
    (heffect : Effect (fun w c => c.KeepsClasses w) c (E, w) (E', w')) (hb : b ∈ w'.sys.ports)
    (hE' : (w'.port b).portIndex ∉ E') (hlac : (w'.port b).lacpEnabled = true)
    (hen : (w'.port b).portEnabled = true) (hagg : (w'.port b).actor.state.AGG = true) :
    (w'.gPortList (w'.port b).portIndex).duplex ≠ 0 := by
  cases heffect.cases hc with
  | hop hop hE =>
    have hb' : b ∈ w.sys.ports := hop.engineHop.sys_eq ▸ hb
    have hindex := hop.engineHop.portIndex_eq b
    have hlac' : (w.port b).lacpEnabled = true :=
      (hop.engineHop.lacpEnabled_eq b).symm.trans hlac
    have hen' : (w.port b).portEnabled = true :=
      (hop.engineHop.portEnabled_eq b).symm.trans hen
    have hagg' := ((hop.engineHop.portHop b).agg_eq (hc.port b hb') hlac' hen').symm.trans hagg
    rw [hindex, (PortAttr.of_configured_eq (hop.engineHop.configured_eq _)).2.1]
    exact h.duplex b hb' (by rw [← hE, ← hindex]; exact hE') hlac' hen' hagg'
  | setSys _ _ hE _ hw =>
    have hb' : b ∈ w.sys.ports := hw.ports ▸ hb
    subst hE
    rw [hw.port b hb'] at hlac hen hagg ⊢
    rw [hw.entry _ (Set.notMem_empty _)]
    exact h.duplex b hb' (Set.notMem_empty _) hlac hen hagg
  | write _ _ _ hports =>
    cases hports b hb with
    | write hb' hwrite hentry =>
      have hindex := hwrite.portIndex_eq
      obtain ⟨hE, hsame⟩ := hentry (hindex ▸ hE')
      rw [hindex, hsame.duplex]
      exact h.duplex_of_write hb' hE hwrite hlac hen hagg
    | join hb' hcall _ hindex _ hok _ hattr hport =>
      subst hcall
      rw [hport] at hen ⊢
      rw [hattr]
      show (w.gPortList (w.port b).portIndex).duplex ≠ 0
      rw [hindex]
      exact (hok (h.leaving.lacpEnabled rfl hb' hen)).2 b hb' hindex hen
    | reselect hb' htarget hlac' hE hok _ hattr hport =>
      have hE : (w.port b).portIndex ∉ E := by
        rw [hE]
        exact Set.notMem_empty _
      rw [hport] at hen hagg ⊢
      have hold := h.duplex b hb' hE hlac' hen hagg
      rw [hattr]
      cases c with
      | portSetDuplex slot port duplex =>
        have hindex : globalIndex slot port = (w.port b).portIndex := Option.some.inj htarget
        intro hzero
        have hoff := (hok b hb' hindex.symm).1 hzero hen
        exact absurd (hoff.symm.trans hagg) (by simp)
      | _ => exact hold
    | create _ _ _ _ _ _ hport =>
      rw [hport] at hlac
      cases hlac

/-- The port that is enabled fits the group until it has joined. -/
theorem joins_of_effect {R : World → Call → Prop} (hc : Coherent E w) (h : ClassesTell c E w)
    (hrange : c.InRange) (heffect : Effect R c (E, w) (E', w')) {slot port aggId : ℕ}
    {sysMac : LacpMac} (hcall : c = .portLacpEnable slot port aggId sysMac) :
    FitsGroup w' (globalIndex slot port) (w'.gPortList (globalIndex slot port)) aggId := by
  intro b hb hi hagg
  have hattr := fun i => PortAttr.of_configured_eq (heffect.configured_eq (by rw [hcall]; rfl) i)
  -- every member was a member before
  have hkept : b ∈ w.sys.ports → (w'.port b).portIndex = (w.port b).portIndex →
      (w.port b).aggId = aggId → ClassTells (w'.gPortList (globalIndex slot port))
        (w'.gPortList (w'.port b).portIndex) := by
    intro hb' hindex hagg'
    rw [hindex] at hi ⊢
    exact (h.joins _ _ _ _ hcall b hb' hi hagg').congr (hattr _).1 (hattr _).2.1 (hattr _).1
      (hattr _).2.1
  have hlac : (w'.port b).lacpEnabled = true := by
    refine ((hc.effect heffect).port b hb).member.mpr ?_
    subst hcall
    have haggId := hrange.2.2.2.1
    omega
  cases heffect.cases hc with
  | hop hop =>
    exact hkept (hop.engineHop.sys_eq ▸ hb) (hop.engineHop.portIndex_eq b)
      ((hop.engineHop.aggId_eq b).symm.trans hagg)
  | setSys hcfg =>
    rw [hcall] at hcfg
    cases hcfg
  | write _ _ _ hports =>
    cases hports b hb with
    | write hb' hwrite =>
      exact hkept hb' hwrite.portIndex_eq ((hwrite.group_eq hlac).2.symm.trans hagg)
    | join _ hcall' _ hindex _ _ _ _ hport =>
      obtain ⟨rfl, rfl, -, -⟩ := Call.portLacpEnable.inj (hcall.symm.trans hcall')
      rw [hport] at hi
      exact absurd hindex hi
    | reselect hb' _ _ _ _ _ _ hport =>
      rw [hport] at hagg
      exact hkept hb' (by rw [hport]) hagg
    | create _ _ _ _ _ _ hport =>
      rw [hport] at hlac
      cases hlac

/-- No effect of a call that meets the condition makes the classes less telling. -/
theorem effect (hc : Coherent E w) (h : ClassesTell c E w) (hrange : c.InRange)
    (heffect : Effect (fun w c => c.KeepsClasses w) c (E, w) (E', w')) : ClassesTell c E' w' where
  leaving := h.leaving.effect hc heffect
  keys := h.keys.effect hc heffect
  groups := h.groups.effect hc hrange heffect
  duplex := fun _ hb hE hlac hen hagg => h.duplex_of_effect hc heffect hb hE hlac hen hagg
  members := fun _ ha _ hb hE hE' hlac hlac' hagg => by
    refine h.members_of_placed (fun hjoin i => ?_) (.of_effect hc heffect ha hE hlac)
      (.of_effect hc heffect hb hE' hlac') hagg
    have hattr := PortAttr.of_configured_eq (heffect.configured_eq hjoin i)
    exact ⟨hattr.1, hattr.2.1⟩
  joins := fun _ _ _ _ hcall => h.joins_of_effect hc hrange heffect hcall

end ClassesTell

end Effect

/-! ## Runs -/

/-- What the classes tell at rest. -/
theorem ClassesTell.oneSpeed {c : Call} {w : World} (hc : Coherent ∅ w)
    (hsame : Homogeneous w) (h : ClassesTell c ∅ w) : OneSpeed w := by
  intro a ha b hb hact hact' hagg
  have hduplex : ∀ a ∈ w.sys.ports, (w.port a).Active →
      (w.gPortList (w.port a).portIndex).duplex ≠ 0 := by
    rintro a ha ⟨hlac, hsel, hsb⟩
    obtain ⟨hen, _, hset⟩ := (hc.port a ha).active hlac hsel hsb
    exact h.duplex a ha (Set.notMem_empty _) hlac hen (hset (Set.notMem_empty _))
  -- the lower byte of the key is the class
  have hclass : ∀ a ∈ w.sys.ports, (w.port a).Active → (w.port a).actor.key.toNat % 256 =
      trunkSspGetSpeedIndex (w.gPortList (w.port a).portIndex).speed
        (w.gPortList (w.port a).portIndex).duplex := by
    rintro a ha ⟨hlac, hsel, _⟩
    have hgroup := h.groups a ha (Set.notMem_empty _) hlac
    rw [h.keys a ha (Set.notMem_empty _) hlac hsel, UInt16.toNat_ofNat',
      ← trunkSspGetPortOperKey_mod hgroup]
    omega
  have hd := hduplex a ha hact
  have hd' := hduplex b hb hact'
  refine ⟨?_, hd, hd'⟩
  refine h.members a ha b hb (Set.notMem_empty _) (Set.notMem_empty _) hact.1 hact'.1 hagg hd hd' ?_
  rw [← hclass a ha hact, ← hclass b hb hact', (hsame a ha b hb hact hact' hagg).key]

/-- As long as the classes tell the members of a group apart, its active ports are full duplex and of one
speed. -/
theorem reachableBy_oneSpeed (w : World) (h : ReachableBy (fun w c => c.KeepsClasses w) w) :
    OneSpeed w := by
  have hboth : ClassesTell .oneSecond ∅ w ∧ Homogeneous w :=
    h.invariant_of_calls (Q := fun w => ClassesTell .oneSecond ∅ w ∧ Homogeneous w)
      (P := fun _ c E w => ClassesTell c E w ∧ Homogeneous w)
      (fun pid =>
        ⟨{ leaving := (coherent_initWorld pid).leavingOnly
           keys := fun _ ha => absurd ha List.not_mem_nil
           groups := fun _ ha => absurd ha List.not_mem_nil
           duplex := fun _ ha => absurd ha List.not_mem_nil
           members := fun _ ha => absurd ha List.not_mem_nil
           joins := fun _ _ _ _ hcall => by cases hcall },
          fun _ ha => absurd ha List.not_mem_nil⟩)
      (fun hc _ hQ hok _ =>
        ⟨{ hQ.1 with
           leaving := hc.leavingOnly
           joins := by
            rintro slot port aggId sysMac rfl
            exact hok.1 },
          hQ.2⟩)
      (fun _ hrange hc hP heffect => ⟨hP.1.effect hc hrange heffect, hP.2.effect hc heffect⟩)
      fun _ _ hc _ hP =>
        ⟨{ hP.1 with
           leaving := hc.leavingOnly
           joins := fun _ _ _ _ hcall => by cases hcall },
          hP.2⟩
  exact hboth.1.oneSpeed h.coherent.1 hboth.2

theorem aggregationRun_oneSpeed :
    ∃ w, ReachableBy (fun w c => c.KeepsClasses w) w ∧ bothForward w = true ∧ OneSpeed w := by
  have hrun : (runCalls (fun w c => decide (c.KeepsClasses w)) 25 (initWorld 77) aggregationRun).any
      bothForward = true := by decide +kernel
  obtain ⟨w, h, _, hboth⟩ := exists_reachableBy_of_runCalls (by decide)
    (fun _ _ => of_decide_eq_true) hrun
  exact ⟨w, h, hboth, reachableBy_oneSpeed w h⟩

/-- The two ports have speeds that the switch does not list. -/
def unlistedRun : List Call := [.portSetSpeed 0 1 20, .portSetSpeed 0 2 30] ++ aggregationRun

/-- Both ports are of class 0 and aggregate, at speeds 20 and 30. -/
theorem not_reachable_oneSpeed : ¬ ∀ w, Reachable w → OneSpeed w := by
  intro hall
  have hrun : (runCalls (fun _ _ => true) 25 (initWorld 77) unlistedRun).any (fun w =>
      decide (0 ∈ w.sys.ports ∧ 1 ∈ w.sys.ports ∧ (w.port 0).Active ∧ (w.port 1).Active ∧
        (w.port 0).aggId = (w.port 1).aggId ∧
        (w.gPortList (w.port 0).portIndex).speed = 20 ∧
        (w.gPortList (w.port 1).portIndex).speed = 30)) = true := by decide +kernel
  obtain ⟨w, h, _, hstate⟩ := exists_reachableBy_of_runCalls (R := fun _ _ => True) (by decide)
    (fun _ _ _ => trivial) hrun
  obtain ⟨ha, hb, hact, hact', hagg, hspeed, hspeed'⟩ := of_decide_eq_true hstate
  have hsame := (hall w h 0 ha 1 hb hact hact' hagg).1
  rw [hspeed, hspeed'] at hsame
  exact absurd hsame (by decide)

end Lacp
