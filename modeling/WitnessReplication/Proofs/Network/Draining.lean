import WitnessReplication.Proofs.Network.Delivering
import WitnessReplication.Proofs.Network.Heeding
import WitnessReplication.Proofs.Network.Owing

/-!
# Networks with nothing in flight

Once nothing is in flight in a run without losses, every message has been handled. Each slot of the
log has then been accepted, acknowledged, committed and announced in turn, so that it is committed
at every replica, and since no slot waits in vain, every slot has executed everywhere.
-/

namespace WitnessReplication

open Quorum

namespace Chronicle

open Network Replica

/-- A run that loses no message and repeats no weak command has left nothing in flight. -/
structure Drained (config : Config) (bounds : List ReplicaId) (c : Chronicle) : Prop where
  run : c.ReachableBy (.both .lossless .weakOnce) config bounds
  pool_eq : c.network.pool = []

variable {config : Config} {bounds : List ReplicaId} {c c' : Chronicle}
variable {i id : ReplicaId} {r leader : Replica} {m : ReplicaMessage} {slot : Slot} {q : Request}
variable {e : Effect} {s : Sent} {letter : Letter}

/-- In every log the leader had the configuration of the run. -/
theorem Reachable.leader_config (hc : c.Reachable config bounds) :
    ∀ a ∈ c.log, a.leader.config = config := by
  refine hc.induct (P := fun c => ∀ a ∈ c.log, a.leader.config = config) (fun n hn a ha => ?_)
    fun c c' hs hstep ih a ha => ?_
  · simp [Chronicle.start, History.start] at ha
  · rcases hstep.quiet_or_handles hs with hquiet | ⟨id, r, m, h⟩
    · exact ih a (hquiet.log_eq ▸ ha)
    · have hattends := h.attends hs
      rcases hattends.log_eq_or with hlog | ⟨-, q, -, -, -, hlog⟩
      · exact ih a (hlog ▸ ha)
      · rw [hlog] at ha
        rcases List.mem_append.1 ha with ha | ha
        · exact ih a ha
        · obtain rfl := List.mem_singleton.1 ha
          exact hattends.config_eq

/-- In every run the leader has announced each slot of its log. -/
theorem Reachable.accept_mem_trace (hc : c.Reachable config bounds) {a : Assignment}
    (ha : c.log[slot]? = some a) :
    .accept ⟨config.ballot, a.id, slot, some a.command, a.weak⟩ ∈ c.trace config.leader := by
  have hmem : a.announcement slot ∈ c.announcements config.leader := by
    rw [hc.reports.announcements_eq]
    refine List.mem_of_getElem? (i := slot) ?_
    rw [List.getElem?_mapIdx, ha, Option.map_some]
  obtain ⟨e, he, haccept⟩ := List.mem_filterMap.1 hmem
  have hconfig := hc.leader_config a (List.mem_of_getElem? ha)
  cases e with
  | accept body =>
      obtain rfl := Option.some.inj haccept
      rwa [Assignment.announcement, acceptFor, hconfig] at he
  | _ => simp [Effect.accept?] at haccept

namespace Drained

theorem reachable (h : c.Drained config bounds) : c.Reachable config bounds := h.run.reachable

theorem exists_leader (h : c.Drained config bounds) (hr : c.network.replicas[i]? = some r) :
    ∃ leader, c.network.replicas[config.leader]? = some leader :=
  h.reachable.exists_replica (h.reachable.leader_lt_of_replica hr)

theorem settled (h : c.Drained config bounds) (hletter : c.Outstanding config letter) :
    c.Settled config letter :=
  hletter.resolve_left (by simp [h.pool_eq])

/-- A message that was sent to a replica has been handled there. -/
theorem handled (h : c.Drained config bounds) (hr : c.network.replicas[i]? = some r)
    (hletter : c.Outstanding config (.toReplica i m)) : ∃ d ∈ c.own i, d.message = m :=
  h.settled hletter (List.getElem?_eq_some_iff.1 hr).1

theorem heeds (h : c.Drained config bounds) (hr : c.network.replicas[i]? = some r)
    (hletter : c.Outstanding config (.toReplica i m)) : c.Heeds config i r m := by
  obtain ⟨d, hd, rfl⟩ := h.handled hr hletter
  exact h.run.heeds i r hr d hd

/-- What a replica has sent to all others is on its way to each of them, or has arrived. -/
theorem outstanding_toAll (h : c.Drained config bounds) (hr : c.network.replicas[i]? = some r)
    (he : e ∈ c.trace id) (hsent : e.sent config.leader = some (.toAll m)) (hother : i ≠ id) :
    c.Outstanding config (.toReplica i m) := by
  refine h.run.left.delivers.effects id e he _ hsent _ ?_
  have hlt := (List.getElem?_eq_some_iff.1 hr).1
  simp [letters, hlt, hother]

/-! ### How a slot gets on -/

/-- Every other replica has accepted every slot of the leader's log. -/
theorem accepted (h : c.Drained config bounds) (hr : c.network.replicas[i]? = some r)
    (hother : i ≠ config.leader) (hslot : slot < c.log.length) :
    r.Carries slot fun s => s.accepted = true := by
  have hmem := h.reachable.accept_mem_trace (List.getElem?_eq_getElem hslot)
  exact h.heeds hr (h.outstanding_toAll hr hmem rfl hother) rfl

/-- Every other replica has acknowledged every slot, and knows its command. -/
theorem acknowledged (h : c.Drained config bounds) (hr : c.network.replicas[i]? = some r)
    (hother : i ≠ config.leader) (hslot : slot < c.log.length) :
    .acceptAck (ackOf config i slot) ∈ c.trace i ∧
      r.Carries slot fun s => s.id.isSome = true ∧ s.command.isSome = true := by
  have hledger := h.run.acknowledged i r hr hother
  rcases h.accepted hr hother hslot with hexec | ⟨s, hlive, haccepted⟩
  · exact ⟨hledger.executed hexec, .inl hexec⟩
  · obtain ⟨hmem, hknown⟩ := hledger.live hlive (.inl haccepted)
    exact ⟨hmem, .inr ⟨s, hlive, hknown⟩⟩

/-- The leader has heard every other replica about every slot. -/
theorem hears (h : c.Drained config bounds)
    (hleader : c.network.replicas[config.leader]? = some leader)
    (hr : c.network.replicas[i]? = some r) (hother : i ≠ config.leader)
    (hslot : slot < c.log.length) : leader.Carries slot fun s => s.Hears i := by
  obtain ⟨hmem, -⟩ := h.acknowledged hr hother hslot
  have hletter := h.run.left.delivers.effects i _ hmem _ rfl _ (List.mem_singleton_self _)
  exact (h.heeds hleader hletter rfl rfl).2

/-- The leader has committed every slot. -/
theorem committed_leader (h : c.Drained config bounds)
    (hleader : c.network.replicas[config.leader]? = some leader) (hslot : slot < c.log.length) :
    leader.Carries slot fun s => s.phase = .commit := by
  obtain ⟨q, hq⟩ := Log.exists_request? hslot
  obtain ⟨_, hsame, hdirects⟩ := h.reachable.directed.leader slot q hq
  obtain rfl := Option.some.inj (hsame.symm.trans hleader)
  rcases hdirects with hexec | ⟨s, hlive, -, hcertificate⟩
  · exact .inl hexec
  obtain ⟨certificate, hcertificate⟩ := Option.isSome_iff_exists.1 hcertificate
  obtain ⟨hcounts, hself⟩ :=
    (h.reachable.certified.replicas _ _ hleader).certificate slot s hlive certificate hcertificate
  obtain ⟨hsettles, hfired⟩ := ((h.run.decides _ _ hleader).live hlive).settles _ hcertificate
  have hlt := h.reachable.leader_lt_of_replica hleader
  have hthreshold : certificate.threshold ≤ config.replicas := by
    rw [hcounts.threshold_eq]
    simp only [Config.majority, Threshold.size]
    lia
  have hexec := (h.run.steady _ _ hleader).bounds hlive
  refine .inr ⟨s, hlive, hfired ?_⟩
  -- the leader counts its own acceptance when it proposes the slot, the others when they answer
  refine hsettles.fired_of_heard hthreshold (hcounts.leader_eq ▸ hlt) fun i hi => ?_
  by_cases hother : i = config.leader
  · exact .inr (hother ▸ hself)
  · obtain ⟨r, hr⟩ := h.reachable.exists_replica hi
    rcases h.hears hleader hr hother hslot with hdone | ⟨_, hsame, _, hsome, hheard⟩
    · exact absurd hexec.1 (Nat.not_le_of_lt hdone)
    · obtain rfl := Option.some.inj (hsame.symm.trans hlive)
      obtain rfl := Option.some.inj (hsome.symm.trans hcertificate)
      exact hheard

/-- The commit of every slot has been announced. -/
theorem announced (h : c.Drained config bounds)
    (hleader : c.network.replicas[config.leader]? = some leader) (hslot : slot < c.log.length) :
    ∃ j ballot, .broadcast (.commit ⟨ballot, slot⟩) ∈ c.trace j := by
  have hledger := h.run.decides _ _ hleader
  have hannounced : c.Announced slot ∨
      .broadcast (.commit ⟨config.ballot, slot⟩) ∈ c.trace config.leader := by
    rcases h.committed_leader hleader hslot with hexec | ⟨s, hlive, hphase⟩
    · exact hledger.executed hexec
    · exact (hledger.live hlive).announced hphase
  rcases hannounced with ⟨d, hd, ballot, hmem⟩ | hmem
  · exact ⟨d.replica.id, ballot, List.mem_flatMap.2 ⟨d, mem_own.2 ⟨hd, rfl⟩, hmem⟩⟩
  · exact ⟨_, _, hmem⟩

/-- Every replica has committed every slot. -/
theorem committed (h : c.Drained config bounds) (hr : c.network.replicas[i]? = some r)
    (hslot : slot < c.log.length) : r.Carries slot fun s => s.phase = .commit := by
  obtain ⟨leader, hleader⟩ := h.exists_leader hr
  obtain ⟨j, ballot, hmem⟩ := h.announced hleader hslot
  by_cases hij : i = j
  · -- the replica that announces a commit gets no word of it
    subst hij
    exact (h.run.carries_announced i r hr _ hmem).2
  · have hballot : ballot = config.ballot := by
      obtain ⟨d, hown, -⟩ := List.mem_flatMap.1 hmem
      obtain ⟨hd, rfl⟩ := mem_own.1 hown
      obtain ⟨r', hr', -⟩ := (h.reachable.lasts d hd).now
      exact (h.run.carries_announced _ r' hr' _ hmem).1
    exact h.heeds hr (h.outstanding_toAll hr hmem rfl hij) hballot

/-- Every slot that is under way could execute. -/
theorem executable (h : c.Drained config bounds) (hr : c.network.replicas[i]? = some r)
    {s : LiveSlot} (hlive : r.live[slot]? = some s) : s.executable?.isSome = true := by
  obtain ⟨hexec, hslot⟩ := (h.run.steady i r hr).bounds hlive
  have hunapplied := h.reachable.directed.unapplied i r hr slot s hlive
  have hof : ∀ {kind : LiveSlot → Prop}, r.Carries slot kind → kind s := by
    rintro kind (hdone | ⟨s', hsame, hkind⟩)
    · exact absurd hexec (Nat.not_le_of_lt hdone)
    · obtain rfl := Option.some.inj (hsame.symm.trans hlive)
      exact hkind
  have hphase := hof (h.committed hr hslot)
  have hknown : s.id.isSome = true ∧ s.command.isSome = true := by
    by_cases hother : i = config.leader
    · subst hother
      obtain ⟨q, hq⟩ := Log.exists_request? hslot
      obtain ⟨_, hsame, hdirects⟩ := h.reachable.directed.leader slot q hq
      obtain rfl := Option.some.inj (hsame.symm.trans hr)
      obtain ⟨⟨-, hid, hcommand, -⟩, -⟩ := hof hdirects
      simp [hid, hcommand]
    · exact hof (h.acknowledged hr hother hslot).2
  obtain ⟨cid, hid⟩ := Option.isSome_iff_exists.1 hknown.1
  obtain ⟨command, hcommand⟩ := Option.isSome_iff_exists.1 hknown.2
  simp [LiveSlot.executable?, hunapplied, hphase, hid, hcommand]

/-- No slot is under way: the first one would wait for a slot before it. -/
theorem live_eq (h : c.Drained config bounds) (hr : c.network.replicas[i]? = some r) :
    r.live = ∅ := by
  have hnone : ∀ slot : Slot, r.live[slot]? = none := by
    intro slot
    induction slot using Nat.strong_induction_on with
    | _ slot ih =>
        cases hlive : r.live[slot]? with
        | none => rfl
        | some s =>
            obtain ⟨hexec, s', hbefore, -⟩ :=
              (h.run.steady i r hr).waits hlive (h.executable hr hlive) (by simp)
            rw [ih (slot - 1) (by lia)] at hbefore
            simp at hbefore
  apply Std.ExtTreeMap.ext_getElem?
  simpa using hnone

/-- Every replica has executed every slot. -/
theorem executed_eq (h : c.Drained config bounds) (hr : c.network.replicas[i]? = some r) :
    r.executed = c.log.length := by
  have hle := (h.reachable.history.sound.replicas.follows hr).executed_le
  refine Nat.le_antisymm hle (Nat.le_of_not_lt fun hlt => ?_)
  rcases h.committed hr hlt with hexec | ⟨s, hlive, -⟩
  · exact Nat.lt_irrefl _ hexec
  · simp [h.live_eq hr] at hlive

/-- Every replica has the result of every command of the log. -/
theorem contains_values (h : c.Drained config bounds) (hr : c.network.replicas[i]? = some r)
    (hq : c.log.request? slot = some q) : r.values.contains q.id = true := by
  refine h.reachable.remembered.results i r hr slot q hq ?_
  rw [h.executed_eq hr]
  exact Log.lt_length_of_request? hq

end Drained

end Chronicle

end WitnessReplication
