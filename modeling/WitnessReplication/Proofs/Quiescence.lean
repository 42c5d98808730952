import WitnessReplication.Proofs.Network.Draining
import WitnessReplication.Proofs.Overlay

/-!
# Quiescence

Once nothing is in flight in a run without losses, and without repeated weak commands, everything
is done: every command has completed, every replica has executed every slot, and nothing is under
way anywhere (`Chronicle.quiescence`). Nothing else is assumed of the order in which messages
arrive, or of how often.
-/

namespace WitnessReplication

/-- Nothing is under way at a replica: no slot, no command that a witness has yet to see executed,
and no client that waits for a committed result. -/
structure Replica.Idle (r : Replica) : Prop where
  live_eq : r.live = ∅
  committed_eq : r.committed = ∅
  syncWaiters_eq : r.syncWaiters = ∅
  witnessed_eq : r.witnessed = ∅
  unsynced_eq : r.witness.unsynced = ∅
  staged_eq : r.witness.staged = ∅

namespace Chronicle

open Network Replica

variable {config : Config} {bounds : List ReplicaId} {c : Chronicle} {place : Nat}
variable {client : Client} {i : ReplicaId} {r leader : Replica} {q : Request} {cid : CommandId}
variable {p : Client.Pending} {m : ClientMessage} {k : ClientId}

/-- In every run the certificates of every pending command wait for what can still complete
them. -/
theorem Reachable.waits (hc : c.Reachable config bounds) :
    ∀ (place : Nat) client, c.network.clients[place]? = some client → client.Waits config := by
  refine hc.induct (P := fun c => ∀ (place : Nat) client,
      c.network.clients[place]? = some client → client.Waits config)
    (fun n hn place client hclient cid p hp => ?_) fun c c' hs hstep ih => ?_
  · obtain rfl := Network.start_eq hn
    simp only [Chronicle.start, History.start, List.getElem?_map, Option.map_eq_some_iff]
      at hclient
    obtain ⟨_, -, rfl⟩ := hclient
    simp at hp
  · intro place client hclient
    cases hstep with
    | issued weak command hc =>
        rcases of_getElem?_set hclient with ⟨-, rfl⟩ | ⟨-, hclient⟩
        · exact (ih _ _ hc).issue (hs.clients.sound hc).config_eq weak command
        · exact ih place client hclient
    | reacted hc hm =>
        rcases of_getElem?_set hclient with ⟨-, rfl⟩ | ⟨-, hclient⟩
        · exact (ih _ _ hc).handle _
        · exact ih place client hclient
    | _ => exact ih place client hclient

namespace Drained

/-! ### Replicas -/

/-- Every issued command has come to every replica that it is for. -/
theorem got (h : c.Drained config bounds) (hr : c.network.replicas[i]? = some r)
    (hq : q ∈ c.issued) (hfor : q.weak = true → config.variant = .leaderOnly → i = config.leader) :
    c.Got i q := by
  obtain ⟨m, hm, hall⟩ := h.run.left.delivers.requests q hq
  obtain ⟨d, hown, rfl⟩ := h.handled hr (hall i (List.getElem?_eq_some_iff.1 hr).1 hfor)
  obtain ⟨hd, hi⟩ := mem_own.1 hown
  exact ⟨d, hd, hi, hm, trivial⟩

/-- Every issued command has a slot. -/
theorem logged (h : c.Drained config bounds)
    (hleader : c.network.replicas[config.leader]? = some leader) (hq : q ∈ c.issued) :
    ∃ slot, c.log.request? slot = some q :=
  h.run.ordered _ _ hleader rfl q (h.got hleader hq fun _ _ => rfl)

/-- Every replica has the result of every issued command. -/
theorem contains_issued (h : c.Drained config bounds) (hr : c.network.replicas[i]? = some r)
    (hq : q ∈ c.issued) : r.values.contains q.id = true := by
  obtain ⟨leader, hleader⟩ := h.exists_leader hr
  obtain ⟨slot, hslot⟩ := h.logged hleader hq
  exact h.contains_values hr hslot

theorem idle (h : c.Drained config bounds) (hr : c.network.replicas[i]? = some r) : r.Idle := by
  have hs := h.reachable.history.sound
  have hwitnessed : r.witnessed = ∅ := by
    rw [Std.ExtTreeMap.eq_empty_iff_forall_not_mem]
    intro cid hmem
    obtain ⟨hother, q, hgot, rfl⟩ := h.run.recorded i r hr cid hmem
    have hresult := h.contains_issued hr (h.reachable.got_issued hgot)
    rw [(h.run.right.witnesses i r hr hother).unexecuted _ hmem] at hresult
    simp at hresult
  have hwitness : r.witness.unsynced = ∅ ∧ r.witness.staged = ∅ := by
    by_cases hleader : i = config.leader
    · -- an entry would stand for a slot that has not executed
      subst hleader
      have htracks := (hs.replicas.leads hr).tracks
      refine ⟨Std.ExtTreeMap.ext_getElem? fun {key} => ?_, htracks.staged_eq⟩
      cases he : r.witness.unsynced[key]? with
      | none => simp
      | some e =>
          have hlt := htracks.slot_lt_length he
          have hle := (htracks.entry_sound he).1
          rw [h.executed_eq hr] at hle
          exact absurd hlt (Nat.not_lt_of_le hle)
    · have htallies := (h.run.right.witnesses i r hr hleader).tallies
      rw [hwitnessed] at htallies
      exact ⟨htallies.unsynced_eq, htallies.staged_eq⟩
  refine ⟨h.live_eq hr, ?_, ?_, hwitnessed, hwitness.1, hwitness.2⟩
  · rw [Std.ExtTreeSet.eq_empty_iff_forall_not_mem]
    intro slot hmem
    obtain ⟨s, hlive⟩ := h.run.committedLive i r hr slot hmem
    simp [h.live_eq hr] at hlive
  · rw [Std.ExtTreeSet.eq_empty_iff_forall_not_mem]
    intro cid hmem
    obtain ⟨-, hvalue, q, hq, rfl, -⟩ := h.run.waiting i r hr cid hmem
    rw [h.contains_issued hr hq] at hvalue
    simp at hvalue

/-! ### Clients -/

/-- A client has absorbed what it was told. -/
theorem absorbed (h : c.Drained config bounds)
    (hclient : c.network.clients[place]? = some client) (hk : k = place + 1)
    (hmem : .tell k m ∈ c.trace i) : client.Absorbed config m := by
  have hletter := h.run.left.delivers.effects i _ hmem _ rfl _ (List.mem_singleton_self _)
  exact (h.settled hletter).2 place client hk hclient

theorem not_pending (h : c.Drained config bounds)
    (hclient : c.network.clients[place]? = some client) : client.pending[cid]? ≠ some p := by
  intro hp
  have hs := h.reachable.history.sound
  have hk : cid.client = place + 1 := h.reachable.awaitOwn place client hclient cid
    (.inl (Std.ExtTreeMap.mem_iff_isSome_getElem?.2 (by simp [hp])))
  obtain ⟨command, hq⟩ := (hs.clients.sound hclient).pending_issued cid p hp
  have hlt := (h.reachable.bound_lt hclient).1
  obtain ⟨leader, hleader⟩ := h.reachable.exists_replica hlt
  have hwaits := h.reachable.waits place client hclient cid p hp
  have hother : ∀ i < config.replicas, i ≠ config.leader → p.fast.Heard i ∧ p.slow.Heard i := by
    intro i hi hne
    obtain ⟨r, hr⟩ := h.reachable.exists_replica hi
    have hgot := h.got hr hq fun hweak => absurd hweak (by simp)
    obtain ⟨ok, dep, hmem⟩ := h.run.attested hr hne hgot rfl
    exact h.absorbed hclient hk hmem rfl p hp
  have hfast : ∀ i < config.replicas, p.fast.Heard i := by
    intro i hi
    by_cases hne : i = config.leader
    · subst hne
      obtain ⟨slot, hslot⟩ := h.logged hleader hq
      obtain ⟨value, ok, hmem⟩ := h.run.replied _ _ hleader rfl slot _ hslot rfl
      exact h.absorbed hclient hk hmem p hp
    · exact (hother i hi hne).1
  -- every vote on the fast path is in, so that the client has asked for the committed result
  have hescalated := hwaits.escalated_of_heard hlt hfast
  have hsync := h.run.left.delivers.syncs place client hclient cid p hp hescalated
  have hslow : p.slow.Heard config.leader := by
    rcases h.heeds hleader hsync rfl with hwaiting | ⟨value, hmem⟩
    · simp [(h.idle hleader).syncWaiters_eq] at hwaiting
    · exact h.absorbed hclient hk hmem p hp
  refine hwaits.not_heard hlt fun i hi => ?_
  by_cases hne : i = config.leader
  · exact hne ▸ hslow
  · exact (hother i hi hne).2

theorem not_weak (h : c.Drained config bounds)
    (hclient : c.network.clients[place]? = some client) : cid ∉ client.weak := by
  intro hmem
  have hs := h.reachable.history.sound
  have hk : cid.client = place + 1 :=
    h.reachable.awaitOwn place client hclient cid (.inr hmem)
  obtain ⟨command, hq⟩ := (hs.clients.sound hclient).weak_issued cid hmem
  obtain ⟨hlt, hbound⟩ := h.reachable.bound_lt hclient
  cases hvariant : config.variant with
  | leaderOnly =>
      obtain ⟨leader, hleader⟩ := h.reachable.exists_replica hlt
      obtain ⟨slot, hslot⟩ := h.logged hleader hq
      have hexec : slot < leader.executed := by
        rw [h.executed_eq hleader]
        exact Log.lt_length_of_request? hslot
      obtain ⟨value, hanswer⟩ :=
        (h.run.answered_weak hvariant _ _ hleader rfl).executed hexec _ hslot rfl
      exact h.absorbed hclient hk hanswer hmem
  | everyReplica =>
      obtain ⟨r, hr⟩ := h.reachable.exists_replica hbound
      have hgot := h.got hr hq fun _ honly => absurd honly (by simp [hvariant])
      obtain ⟨value, hanswer⟩ := h.run.answered_causal hvariant hr hgot rfl
      exact h.absorbed hclient hk hanswer rfl hmem

end Drained

/-- Let no message be lost and no weak command be repeated. Whenever nothing is in flight, every
command that a client has issued has completed and no client waits for one; every replica has
executed every slot that the leader has assigned, has the leader's store, and has nothing under
way. -/
theorem quiescence (hc : c.ReachableBy (.both .lossless .weakOnce) config bounds)
    (hpool : c.network.pool = []) :
    (∀ q ∈ c.issued, ∃ done ∈ c.completions, done.id = q.id) ∧
    (∀ client ∈ c.network.clients, client.inFlight = 0) ∧
    ∀ r ∈ c.network.replicas, ∃ leader, c.network.replicas[config.leader]? = some leader ∧
      r.executed = leader.nextSlot ∧ r.store = leader.store ∧ r.Idle := by
  have h : c.Drained config bounds := ⟨hc, hpool⟩
  have hs := h.reachable.history.sound
  refine ⟨fun q hq => ?_, fun client hmem => ?_, fun r hmem => ?_⟩
  · refine (h.reachable.accounted q hq).resolve_left ?_
    rintro ⟨place, client, hclient, -, hpending | hweak⟩
    · obtain ⟨p, hp⟩ := Option.isSome_iff_exists.1
        (Std.ExtTreeMap.mem_iff_isSome_getElem?.1 hpending)
      exact h.not_pending hclient hp
    · exact h.not_weak hclient hweak
  · obtain ⟨place, hclient⟩ := List.getElem?_of_mem hmem
    have hpending : client.pending = ∅ := Std.ExtTreeMap.ext_getElem? fun {cid} => by
      cases hp : client.pending[cid]? with
      | none => simp
      | some p => exact absurd hp (h.not_pending hclient)
    have hweak : client.weak = ∅ :=
      Std.ExtTreeSet.eq_empty_iff_forall_not_mem.2 fun cid => h.not_weak hclient
    simp [Client.inFlight, hpending, hweak]
  · obtain ⟨i, hr⟩ := List.getElem?_of_mem hmem
    obtain ⟨leader, hleader⟩ := h.exists_leader hr
    refine ⟨leader, hleader, ?_, ?_, h.idle hr⟩
    · rw [h.executed_eq hr, (hs.replicas.leads hleader).nextSlot_eq]
    · rw [(hs.replicas.follows hr).store_eq, (hs.replicas.follows hleader).store_eq,
        h.executed_eq hr, h.executed_eq hleader]

/-- Two clients write key 1 at once, one of them also weakly, and one message comes twice. Each
strong write is escalated. -/
def writesAtOnce : List Network.Action :=
  [.propose 0 ⟨.put, 1, ⟨[97]⟩⟩, .propose 1 ⟨.put, 1, ⟨[98]⟩⟩, .proposeWeak 0 ⟨.put, 1, ⟨[99]⟩⟩,
    .duplicate 0, .deliver 1] ++ List.replicate 18 (.deliver 2) ++ List.replicate 9 (.deliver 0)

theorem quiescence_eagerBound :
    (eagerBound.run writesAtOnce).network.pool = [] ∧
      (∀ q ∈ (eagerBound.run writesAtOnce).issued,
        ∃ done ∈ (eagerBound.run writesAtOnce).completions, done.id = q.id) ∧
      (∀ client ∈ (eagerBound.run writesAtOnce).network.clients, client.inFlight = 0) ∧
      ∀ r ∈ (eagerBound.run writesAtOnce).network.replicas, ∃ leader,
        (eagerBound.run writesAtOnce).network.replicas[0]? = some leader ∧
          r.executed = leader.nextSlot ∧ r.store = leader.store ∧ r.Idle := by
  have hobeys : obeys (.both .lossless .weakOnce) eagerBound.network writesAtOnce = true := by
    decide +kernel
  have hpool : (eagerBound.run writesAtOnce).network.pool = [] := by decide +kernel
  have hreachable : (eagerBound.run writesAtOnce).ReachableBy (.both .lossless .weakOnce)
      eagerConfig [1, 1] := (ReachableBy.start rfl).run hobeys
  exact ⟨hpool, quiescence hreachable hpool⟩

end Chronicle

end WitnessReplication
