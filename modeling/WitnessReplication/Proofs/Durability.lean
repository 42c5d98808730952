import WitnessReplication.Proofs.Client.Tally
import WitnessReplication.Proofs.Network.Vouching

/-!
# Durability of the fast path

A command that has completed on the fast path is supported by three quarters of the replicas, the
leader among them, because its client counts a replica only for an answer of its own: the leader
answers once it has given the command a slot, any other replica once it holds it. Neither is ever
undone, so that the same replicas support the command in every later state.
-/

namespace WitnessReplication

namespace Chronicle

/-- Clients count supporters of a command only, and what completed on the fast path had enough. -/
structure Tallied (config : Config) (c : Chronicle) : Prop where
  clients : ∀ (place : Nat) client, c.network.clients[place]? = some client →
    client.Tallied config (c.Supports config)
  completions : ∀ done ∈ c.completions, done.path = .fast →
    Client.Carried config (c.Supports config) done.id

variable {config : Config} {bounds : List ReplicaId} {c c' : Chronicle}

/-- Who answers a strong command supports it. -/
theorem supports_of_letter (hs : c.Sound config) (hd : c.Directed config) (hv : c.Vouched)
    {client : ClientId} {m : ClientMessage} (hm : .toClient client m ∈ c.network.pool) :
    m.Voted (c.Supports config) := by
  have hbacked := hs.pool _ hm
  cases m with
  | reply body =>
      obtain ⟨hsender, slot, a, ha, hid, -⟩ := hbacked
      have hq := Log.request?_of_getElem? ha
      obtain ⟨r, hr, -⟩ := hd.leader slot _ hq
      refine ⟨a.toRequest, hs.records.request_issued hq, hid, r, ?_, .inl ⟨hsender, slot, hq⟩⟩
      rw [hsender, hr]
  | recordAck body =>
      obtain ⟨q, hq, hid, r, hr, hheld⟩ := hv.verdicts client body hm
      exact ⟨q, hq, hid, r, hr, .inr ⟨hbacked, hheld⟩⟩
  | syncReply body => trivial
  | weakReply body => trivial
  | causalReply body => trivial

/-- Putting back a client that counts supporters only. -/
theorem tallied_set {clients : List Client} {place : Nat} {client : Client}
    {voted : CommandId → ReplicaId → Prop}
    (hclients : ∀ (place : Nat) client, clients[place]? = some client →
      client.Tallied config voted) (hclient : client.Tallied config voted) :
    ∀ (i : Nat) client', (clients.set place client)[i]? = some client' →
      client'.Tallied config voted := by
  intro i client' hget
  rcases of_getElem?_set hget with ⟨-, rfl⟩ | ⟨-, hget⟩
  · exact hclient
  · exact hclients i client' hget

/-- Every step leaves clients counting supporters only. -/
theorem Step.tallied (h : c.Step c') (hs : c.Sound config) (hd : c.Directed config)
    (hv : c.Vouched) (ht : c.Tallied config) : c'.Tallied config := by
  have hsupports : ∀ id i, c.Supports config id i → c'.Supports config id i :=
    fun _ _ => h.supports hs hv
  have hclients : ∀ (place : Nat) client, c.network.clients[place]? = some client →
      client.Tallied config (c'.Supports config) :=
    fun place client hget => (ht.clients place client hget).mono hsupports
  have hcompletions : ∀ done ∈ c.completions, done.path = .fast →
      Client.Carried config (c'.Supports config) done.id :=
    fun done hdone hpath => (ht.completions done hdone hpath).mono (hsupports done.id)
  cases h with
  | @issued place client weak command hc =>
      refine ⟨tallied_set hclients ?_, hcompletions⟩
      unfold Client.issue
      cases weak with
      | true => exact (hclients place client hc).proposeWeak command
      | false => exact (hclients place client hc).propose command
  | thinned hpool => exact ⟨hclients, hcompletions⟩
  | @reacted place client m hc hm =>
      have hreaction := (ht.clients place client hc).handle (supports_of_letter hs hd hv hm)
      refine ⟨tallied_set hclients (hreaction.client.mono hsupports), ?_⟩
      intro done hdone hpath
      rcases List.mem_append.1 hdone with hdone | hdone
      · exact hcompletions done hdone hpath
      · exact (hreaction.completion done (Option.mem_toList.1 hdone) hpath).mono (hsupports done.id)
  | handled hr hm => exact ⟨hclients, hcompletions⟩

theorem tallied_start {n : Network} (hn : Network.start config bounds = .ok n) :
    (Chronicle.start n).Tallied config := by
  obtain rfl := Network.start_eq hn
  constructor
  case clients =>
    intro place client hget
    simp only [Chronicle.start, History.start, List.getElem?_map] at hget
    obtain ⟨bound, -, rfl⟩ := Option.map_eq_some_iff.1 hget
    exact Client.tallied_initial _ _
  case completions =>
    intro done hdone
    simp [Chronicle.start, History.start] at hdone

theorem Reachable.tallied (hc : c.Reachable config bounds) : c.Tallied config :=
  hc.induct_vouched (fun _ => tallied_start) fun _ _ hs hd hv h => h.tallied hs hd hv

/-- Support lasts. -/
theorem Supports.run {cid : CommandId} {i : ReplicaId} (hc : c.Reachable config bounds)
    (h : c.Supports config cid i) (actions : List Network.Action) :
    (c.run actions).Supports config cid i := by
  have hkept := steps_keep (P := fun c => c.Vouched ∧ c.Supports config cid i)
    (fun c c' hs hstep hp => ⟨hstep.vouched hs hp.1, hstep.supports hs hp.1 hp.2⟩)
    (c.steps_run actions) hc.history.sound ⟨hc.vouched, h⟩
  exact hkept.2.2

end Chronicle

namespace History

open Client

variable {config : Config} {bounds : List ReplicaId} {h : History} {q : Request} {value : Value}

/-- What has completed on the fast path is a strong command. -/
theorem Completed.strong (hh : h.Reachable config bounds) (hdone : h.Completed q value .fast) :
    q.weak = false := by
  obtain ⟨hq, hmem⟩ := hdone
  obtain ⟨⟨command, hissued⟩, -⟩ := hh.sound.completions _ hmem
  have hsame := hh.sound.records.issued_unique hq hissued rfl
  rw [hsame]
  simp

/-- Once a client has completed a strong command on the fast path, three quarters of the replicas,
each counted once and the leader among them, hold it in every later state: the leader has given it
a slot, and each of the others has it witnessed, or has accepted it in that slot, or has executed
the slot. -/
theorem fast_durable (hh : h.Reachable config bounds) (hdone : h.Completed q value .fast) :
    ∃ (slot : Slot) (holders : List ReplicaId), holders.Nodup ∧
      3 * config.replicas ≤ 4 * holders.length ∧ config.leader ∈ holders ∧
      ∀ actions : List Network.Action, (h.run actions).log.request? slot = some q ∧
        ∀ i ∈ holders, ∃ r, (h.run actions).network.replicas[i]? = some r ∧
          (i = config.leader → r.slot? q.id = some slot) ∧
          (i ≠ config.leader → r.witnessed[q.id]? = some ⟨q.command, true⟩ ∨
            (∃ s, r.live[slot]? = some s ∧ s.HasAccepted q) ∨ slot < r.executed) := by
  have hstrong := hdone.strong hh
  have hrecords := hh.sound.records
  obtain ⟨c, hc, rfl⟩ := Chronicle.exists_reachable hh
  obtain ⟨holders, hnodup, hsize, hleader, hsupports⟩ :=
    hc.tallied.completions _ hdone.2 rfl
  -- the leader's support names the slot
  obtain ⟨slot, hslot⟩ : ∃ slot, c.log.request? slot = some q := by
    obtain ⟨q', hq', hid, -, -, ⟨-, slot, hslot⟩ | ⟨hother, -⟩⟩ := hsupports _ hleader
    · obtain rfl := hrecords.issued_unique hq' hdone.1 hid
      exact ⟨slot, hslot⟩
    · exact absurd rfl hother
  have hcount : 3 * config.replicas ≤ 4 * holders.length := by
    have hfast : config.fastQuorum = (3 * config.replicas + 3) / 4 := rfl
    omega
  refine ⟨slot, holders, hnodup, hcount, hleader, fun actions => ?_⟩
  have hlater : (c.toHistory.run actions).Sound config := (hh.run actions).sound
  have hq : (c.toHistory.run actions).log.request? slot = some q :=
    Log.request?_mono (log_mono_run c.toHistory actions) hslot
  have hissued := hlater.records.request_issued hq
  refine ⟨hq, fun i hi => ?_⟩
  have hsupports' := (hsupports i hi).run hc actions
  unfold Chronicle.Supports at hsupports'
  rw [Chronicle.toHistory_run] at hsupports'
  obtain ⟨q', hq', hid, r, hr, hholds⟩ := hsupports'
  obtain rfl := hlater.records.issued_unique hq' hissued hid
  refine ⟨r, hr, ?_, ?_⟩
  · rintro rfl
    exact hlater.slot_eq hr hq hstrong
  · intro hother
    rcases hholds with ⟨hi, -⟩ | ⟨-, hwitnessed | ⟨slot', hslot', haccepted⟩⟩
    · exact absurd hi hother
    · left
      rw [hwitnessed, hstrong]
      rfl
    · obtain rfl := hlater.records.slot_unique hslot' hq rfl hstrong
      exact .inr haccepted.symm

/-- Client 1 writes key 1, which completes; its proposal to the second replica is in flight once
more. -/
def writeRepeated : List Network.Action :=
  [.propose 0 ⟨.put, 1, ⟨[118]⟩⟩, .duplicate 1, .deliver 0, .deliver 0, .deliver 1, .deliver 2]

/-- The write executes at both replicas, and only then the repeated proposal arrives. -/
def executeAndRepeat : List Network.Action :=
  [.deliver 1, .duplicate 1, .deliver 1, .deliver 3, .deliver 0]

theorem fast_durable_pair :
    ∃ (slot : Slot) (holders : List ReplicaId), holders.Nodup ∧ 2 ≤ holders.length ∧
      ∀ i ∈ holders, ∃ r,
        ((pair.run writeRepeated).run executeAndRepeat).network.replicas[i]? = some r ∧
          (i ≠ 0 → r.witnessed[(⟨1, 0⟩ : CommandId)]? = some ⟨⟨.put, 1, ⟨[118]⟩⟩, true⟩ ∨
            (∃ s, r.live[slot]? = some s ∧
              s.HasAccepted ⟨⟨1, 0⟩, ⟨.put, 1, ⟨[118]⟩⟩, false⟩) ∨ slot < r.executed) := by
  have hdone : (pair.run writeRepeated).Completed ⟨⟨1, 0⟩, ⟨.put, 1, ⟨[118]⟩⟩, false⟩ .nil .fast :=
    ⟨by decide +kernel, by decide +kernel⟩
  obtain ⟨slot, holders, hnodup, hsize, -, hlater⟩ :=
    fast_durable (reachable_pair.run writeRepeated) hdone
  have hreplicas : pairConfig.replicas = 2 := rfl
  refine ⟨slot, holders, hnodup, by omega, fun i hi => ?_⟩
  obtain ⟨r, hr, -, hholds⟩ := (hlater executeAndRepeat).2 i hi
  exact ⟨r, hr, hholds⟩

end History

end WitnessReplication
