import WitnessReplication.Proofs.Client.Absorbing
import WitnessReplication.Proofs.Network.Recording

/-!
# No message gets lost

Where no message is lost, whatever has been sent is in flight or has been handled by its addressee
(`Chronicle.Outstanding`). So in a run without losses every command that was issued, every effect
of a replica and every request for a committed result is on its way or has arrived
(`Chronicle.ReachableBy.delivers`).
-/

namespace WitnessReplication

open Network Replica

/-! ### The members of a network -/

theorem Config.lt_of_validateReplica {config : Config} {id : ReplicaId}
    (h : config.validateReplica id = .ok ()) :
    config.leader < config.replicas ∧ id < config.replicas := by
  unfold validateReplica at h
  split at h
  · simp at h
  · rename_i hvalid
    unfold validate at hvalid
    split at hvalid
    · simp at hvalid
    · split at hvalid
      · simp at hvalid
      · split at h
        · simp at h
        · lia

variable {rule : Rule} {config : Config} {bounds : List ReplicaId} {n : Network}

/-- A network starts only if there are the replicas that clients are bound to, and one that leads
the others. -/
theorem Network.lt_of_start (h : Network.start config bounds = .ok n) :
    (∀ bound ∈ bounds, config.leader < config.replicas ∧ bound < config.replicas) ∧
      (0 < config.replicas → config.leader < config.replicas) := by
  obtain ⟨hreplicas, hclients, -⟩ := Network.members_of_start h
  constructor
  · intro bound hbound
    obtain ⟨place, hplace, rfl⟩ := List.getElem_of_mem hbound
    have hvalid := (Client.start_eq_ok (hclients.get (i := place) (by simpa) (by
      rw [← hclients.length_eq]
      simpa))).1
    exact Config.lt_of_validateReplica (by simpa using hvalid)
  · intro hpos
    have hvalid := (Replica.start_eq_ok (hreplicas.get (i := 0) (by simpa) (by
      rw [← hreplicas.length_eq]
      simpa))).1
    exact (Config.lt_of_validateReplica hvalid).1

namespace Chronicle

variable {c c' : Chronicle} {action : Action} {letter : Letter} {place : Nat} {client : Client}
variable {i id : ReplicaId} {r : Replica} {m : ReplicaMessage} {q : Request}

theorem Reachable.exists_start (hc : c.Reachable config bounds) :
    ∃ n, Network.start config bounds = .ok n := by
  induction hc with
  | start hn => exact ⟨_, hn⟩
  | act _ _ ih => exact ih

/-- There are always as many replicas as at the start. -/
theorem Reachable.length_replicas (hc : c.Reachable config bounds) :
    c.network.replicas.length = config.replicas := by
  refine hc.induct (P := fun c => c.network.replicas.length = config.replicas) (fun n hn => ?_)
    fun c c' hs hstep ih => ?_
  · obtain rfl := Network.start_eq hn
    simp [Chronicle.start, History.start]
  · rcases hstep.quiet_or_handles hs with hquiet | ⟨id, r, m, h⟩
    · rw [hquiet.replicas_eq, ih]
    · rw [h.replicas_eq, List.length_set, ih]

theorem Reachable.leader_lt_of_replica (hc : c.Reachable config bounds)
    (hr : c.network.replicas[i]? = some r) : config.leader < config.replicas := by
  obtain ⟨n, hn⟩ := hc.exists_start
  have hlt := (List.getElem?_eq_some_iff.1 hr).1
  exact (Network.lt_of_start hn).2 (by rw [hc.length_replicas] at hlt; lia)

theorem Reachable.bound_lt (hc : c.Reachable config bounds)
    (hclient : c.network.clients[place]? = some client) :
    config.leader < config.replicas ∧ client.bound < config.replicas := by
  obtain ⟨n, hn⟩ := hc.exists_start
  refine (Network.lt_of_start hn).1 _ ?_
  rw [← hc.bounds_eq]
  exact List.mem_map_of_mem (List.mem_of_getElem? hclient)

theorem Reachable.exists_replica (hc : c.Reachable config bounds) (hi : i < config.replicas) :
    ∃ r, c.network.replicas[i]? = some r :=
  ⟨_, List.getElem?_eq_getElem (hc.length_replicas ▸ hi)⟩

/-! ### Letters -/

/-- A letter has arrived: its addressee has handled it, if there is one. -/
def Settled (config : Config) (c : Chronicle) : Letter → Prop
  | .toReplica i m => i < c.network.replicas.length → ∃ d ∈ c.own i, d.message = m
  | .toClient k m => (∃ q ∈ c.issued, q.id = m.id) ∧
      ∀ place client, k = place + 1 → c.network.clients[place]? = some client →
        client.Absorbed config m

/-- A letter is in flight or has arrived. -/
def Outstanding (config : Config) (c : Chronicle) (letter : Letter) : Prop :=
  letter ∈ c.network.pool ∨ c.Settled config letter

/-- A message to a client is about an issued command. -/
theorem Reachable.about_issued (hc : c.Reachable config bounds) {k : ClientId}
    {m : ClientMessage} (hmem : .toClient k m ∈ c.network.pool) : ∃ q ∈ c.issued, q.id = m.id := by
  have hs := hc.history.sound
  have hbacked : m.Backed config c.log (c.frontier config) := hs.pool _ hmem
  have hresults : ∀ {id value}, c.log.Results (c.frontier config) id value →
      ∃ q ∈ c.issued, q.id = id := by
    rintro id value ⟨slot, q, hq, hid, -⟩
    exact ⟨q, hs.records.request_issued hq, hid⟩
  have heager : config.variant ≠ .leaderOnly → config.variant = .everyReplica := by
    cases config.variant <;> simp
  cases m with
  | reply m =>
      obtain ⟨-, slot, a, ha, hid, -⟩ := hbacked
      exact ⟨a.toRequest, hs.records.request_issued (Log.request?_of_getElem? ha), hid⟩
  | syncReply m => exact hresults hbacked.2
  | recordAck m =>
      obtain ⟨q, hq, hid, -⟩ := hc.vouched.verdicts k m hmem
      exact ⟨q, hq, hid⟩
  | weakReply m =>
      by_cases hvariant : config.variant = .leaderOnly
      · exact hresults (hbacked hvariant)
      · exact absurd hmem ((hc.answered (heager hvariant)).causal k m)
  | causalReply m =>
      by_cases hvariant : config.variant = .leaderOnly
      · exact hresults (hbacked hvariant)
      · obtain ⟨q, hid, -, d, hd, hdi, hm, -⟩ :=
          (hc.answered (heager hvariant)).replies k m hmem
        exact ⟨q, hc.got_issued ⟨d, hd, hdi, hm, trivial⟩, hid⟩

/-- What is in flight stays so until it is taken out. -/
theorem mem_eraseIdx_or_eq {pool : List Letter} {taken : Letter} (hl : pool[place]? = some taken)
    (hmem : letter ∈ pool) : letter ∈ pool.eraseIdx place ∨ letter = taken := by
  obtain ⟨hlt, rfl⟩ := List.getElem?_eq_some_iff.1 hl
  have hperm := List.getElem_cons_eraseIdx_perm hlt
  exact (List.mem_cons.1 (hperm.mem_iff.2 hmem)).symm

/-- A command that a client issues is a new one. -/
theorem issue_ne (hs : c.Sound config) (hc : c.network.clients[place]? = some client)
    (hq : q ∈ c.issued) (weak : Bool) (command : Command) :
    q.id ≠ (client.issue weak command).2.1 := by
  have hid : (client.issue weak command).2.1 = ⟨client.id, client.nextSeq⟩ := by
    cases weak <;> rfl
  rw [hid]
  intro heq
  have hlt := (hs.clients.sound hc).seq_lt q hq (by rw [heq])
  rw [heq] at hlt
  exact Nat.lt_irrefl _ hlt

/-- What one client has absorbed, the client that takes its place has absorbed too. -/
theorem settled_set {k : ClientId} {m : ClientMessage} {seat : Nat} {client' : Client}
    (hsettled : c.Settled config (.toClient k m)) (hclient : c.network.clients[seat]? = some client)
    (hkept : (∃ q ∈ c.issued, q.id = m.id) → client.Absorbed config m →
      client'.Absorbed config m) :
    ∀ place other, k = place + 1 → (c.network.clients.set seat client')[place]? = some other →
      other.Absorbed config m := by
  intro place other hk hother
  rcases of_getElem?_set hother with ⟨rfl, rfl⟩ | ⟨-, hother⟩
  · exact hkept hsettled.1 (hsettled.2 _ _ hk hclient)
  · exact hsettled.2 _ _ hk hother

/-- What has arrived stays so. -/
theorem Turn.settled (h : c.Turn action c') (hs : c.Sound config)
    (hsettled : c.Settled config letter) : c'.Settled config letter := by
  cases letter with
  | toReplica i m =>
      cases h with
      | @handled place id r message hl hr =>
          have h := handles_deliver hl hr
          intro hlt
          rw [h.replicas_eq, List.length_set] at hlt
          obtain ⟨d, hd, hm⟩ := hsettled hlt
          obtain ⟨hd, hi⟩ := mem_own.1 hd
          exact ⟨d, mem_own.2 ⟨h.handled_eq ▸ List.mem_append_left _ hd, hi⟩, hm⟩
      | _ => exact hsettled
  | toClient k m =>
      cases h with
      | @issued _ place client weak command haction hclient =>
          obtain ⟨q, hq, hid⟩ := hsettled.1
          refine ⟨⟨q, List.mem_append_left _ hq, hid⟩, ?_⟩
          refine settled_set hsettled hclient fun _ habsorbed => ?_
          refine habsorbed.issue (hs.clients.sound hclient).config_eq ?_
          rw [← hid]
          exact issue_ne hs hclient hq weak command
      | @reacted place seat client message hl hclient =>
          exact ⟨hsettled.1,
            settled_set hsettled hclient fun _ habsorbed => habsorbed.handle message⟩
      | _ => exact hsettled

/-- Where no message is lost, what is in flight stays so or arrives. -/
theorem Turn.arrives (h : c.Turn action c') (hc : c.Reachable config bounds)
    (hrule : Rule.lossless c.network action = true) (hmem : letter ∈ c.network.pool) :
    c'.Outstanding config letter := by
  have hs := hc.history.sound
  cases h with
  | idle => exact .inl hmem
  | issued weak command haction hclient => exact .inl (List.mem_append_left _ hmem)
  | @lost _ place taken hl hlost =>
      have hunaddressed : taken.isAddressed c.network = false := by
        refine hlost.resolve_left ?_
        rintro rfl
        simp [Rule.lossless] at hrule
      refine (mem_eraseIdx_or_eq hl hmem).imp_right ?_
      rintro rfl
      cases letter with
      | toReplica i m => exact fun hlt => absurd hlt (of_decide_eq_false hunaddressed)
      | toClient k m =>
          refine ⟨hc.about_issued hmem, ?_⟩
          rintro place client rfl hclient
          have hlt := (List.getElem?_eq_some_iff.1 hclient).1
          exact absurd ⟨Nat.succ_pos _, hlt⟩ (of_decide_eq_false hunaddressed)
  | repeated hl => exact .inl (List.mem_append_left _ hmem)
  | @reacted place seat client m hl hclient =>
      refine (mem_eraseIdx_or_eq hl hmem).imp (List.mem_append_left _) ?_
      rintro rfl
      refine ⟨hc.about_issued hmem, ?_⟩
      rintro place other hplace hother
      rcases of_getElem?_set hother with ⟨-, rfl⟩ | ⟨hne, -⟩
      · exact Client.absorbed_handle (hs.clients.sound hclient).config_eq m
      · exact absurd (Nat.succ.inj hplace).symm hne
  | @handled place i r m hl hr =>
      refine (mem_eraseIdx_or_eq hl hmem).imp (List.mem_append_left _) ?_
      rintro rfl _
      rw [(handles_deliver hl hr).own_eq hs]
      exact ⟨⟨r, m⟩, by simp, rfl⟩

theorem Turn.outstanding (h : c.Turn action c') (hc : c.Reachable config bounds)
    (hrule : Rule.lossless c.network action = true) (hletter : c.Outstanding config letter) :
    c'.Outstanding config letter := by
  rcases hletter with hmem | hsettled
  · exact h.arrives hc hrule hmem
  · exact .inr (h.settled hc.history.sound hsettled)

/-! ### What is sent -/

/-- Whatever there was reason to send is in flight or has arrived: the message of every effect of a
replica, every issued command, and the request for the committed result of a command that cannot
take the fast path. -/
structure Delivers (config : Config) (c : Chronicle) : Prop where
  effects : ∀ i, ∀ e ∈ c.trace i, ∀ s, e.sent config.leader = some s →
    ∀ letter ∈ c.network.letters (some i) s, c.Outstanding config letter
  requests : ∀ q ∈ c.issued, ∃ m, m.request? = some q ∧ ∀ i < c.network.replicas.length,
    (q.weak = true → config.variant = .leaderOnly → i = config.leader) →
      c.Outstanding config (.toReplica i m)
  syncs : ∀ (place : Nat) client, c.network.clients[place]? = some client →
    ∀ (cid : CommandId) p, client.pending[cid]? = some p → p.escalated = true →
      c.Outstanding config (.toReplica config.leader (.sync ⟨cid⟩))

theorem letters_congr {n n' : Network} (h : n'.replicas.length = n.replicas.length)
    (sender : Option ReplicaId) (s : Sent) : n'.letters sender s = n.letters sender s := by
  cases s <;> simp [letters, h]

/-- A client that issues a command sends it to the leader, or to every replica. -/
theorem request_issue (n : Network) (hconfig : client.config = config) (weak : Bool)
    (command : Command) :
    ∃ m : ReplicaMessage, m.request? = some ⟨(client.issue weak command).2.1, command, weak⟩ ∧
      ∀ i < n.replicas.length, (weak = true → config.variant = .leaderOnly → i = config.leader) →
        .toReplica i m ∈ (client.issue weak command).2.2.flatMap (n.letters none) := by
  have hall : ∀ (m : ReplicaMessage), ∀ i < n.replicas.length,
      Letter.toReplica i m ∈ n.letters none (.toAll m) := fun m i hi => by
    simp [letters, hi]
  cases weak with
  | false =>
      refine ⟨.propose ⟨_, command⟩, rfl, fun i hi _ => ?_⟩
      exact List.mem_flatMap.2 ⟨_, List.mem_singleton_self _, hall _ i hi⟩
  | true =>
      cases hvariant : config.variant with
      | leaderOnly =>
          refine ⟨.weakPropose ⟨_, command, client.lastWeak, none⟩, rfl, fun i hi honly => ?_⟩
          obtain rfl := honly rfl rfl
          simp [Client.issue, Client.proposeWeak, hconfig, hvariant, letters]
      | everyReplica =>
          refine ⟨.causalPropose ⟨_, command, client.lastWeak, some client.bound⟩, rfl,
            fun i hi _ => ?_⟩
          simpa [Client.issue, Client.proposeWeak, hconfig, hvariant] using hall _ i hi

theorem Turn.delivers_effects (h : c.Turn action c') (hc : c.Reachable config bounds)
    (hc' : c'.Reachable config bounds) (hrule : Rule.lossless c.network action = true)
    (hd : c.Delivers config) {e : Effect} (he : e ∈ c'.trace i) {s : Sent}
    (hsent : e.sent config.leader = some s) (hletter : letter ∈ c'.network.letters (some i) s) :
    c'.Outstanding config letter := by
  have hs := hc.history.sound
  have hlength : c'.network.replicas.length = c.network.replicas.length :=
    hc'.length_replicas.trans hc.length_replicas.symm
  have hold : e ∈ c.trace i → c'.Outstanding config letter := fun he =>
    h.outstanding hc hrule
      (hd.effects i e he s hsent letter (letters_congr hlength (some i) s ▸ hletter))
  cases h with
  | @handled place id r m hl hr =>
      have h := handles_deliver hl hr
      rw [h.trace_eq hs] at he
      split at he
      · rename_i heq
        subst heq
        rcases List.mem_append.1 he with he | he
        · exact hold he
        · left
          refine List.mem_append_right _ (List.mem_flatMap.2 ⟨s, ?_, hletter⟩)
          rw [← (h.attends hs).config_eq] at hsent
          exact List.mem_filterMap.2 ⟨e, he, hsent⟩
      · exact hold he
  | _ => exact hold he

theorem Turn.delivers_requests (h : c.Turn action c') (hc : c.Reachable config bounds)
    (hc' : c'.Reachable config bounds) (hrule : Rule.lossless c.network action = true)
    (hd : c.Delivers config) (hq : q ∈ c'.issued) :
    ∃ m, m.request? = some q ∧ ∀ i < c'.network.replicas.length,
      (q.weak = true → config.variant = .leaderOnly → i = config.leader) →
        c'.Outstanding config (.toReplica i m) := by
  have hs := hc.history.sound
  have hlength : c'.network.replicas.length = c.network.replicas.length :=
    hc'.length_replicas.trans hc.length_replicas.symm
  have hold : q ∈ c.issued → ∃ m, m.request? = some q ∧ ∀ i < c'.network.replicas.length,
      (q.weak = true → config.variant = .leaderOnly → i = config.leader) →
        c'.Outstanding config (.toReplica i m) := fun hq => by
    obtain ⟨m, hm, hall⟩ := hd.requests q hq
    exact ⟨m, hm, fun i hi honly => h.outstanding hc hrule (hall i (hlength ▸ hi) honly)⟩
  cases h with
  | @issued _ place client weak command haction hclient =>
      rcases List.mem_append.1 hq with hq | hq
      · exact hold hq
      · obtain rfl := List.mem_singleton.1 hq
        obtain ⟨m, hm, hall⟩ := request_issue c.network
          (hs.clients.sound hclient).config_eq weak command
        exact ⟨m, hm, fun i hi honly => .inl (List.mem_append_right _ (hall i hi honly))⟩
  | _ => exact hold hq

theorem Turn.delivers_syncs (h : c.Turn action c') (hc : c.Reachable config bounds)
    (hrule : Rule.lossless c.network action = true) (hd : c.Delivers config)
    (hclient : c'.network.clients[place]? = some client) {cid : CommandId} {p : Client.Pending}
    (hp : client.pending[cid]? = some p) (hescalated : p.escalated = true) :
    c'.Outstanding config (.toReplica config.leader (.sync ⟨cid⟩)) := by
  have hs := hc.history.sound
  have hold : ∀ (place : Nat) (client : Client) (p : Client.Pending),
      c.network.clients[place]? = some client → client.pending[cid]? = some p →
        p.escalated = true → c'.Outstanding config (.toReplica config.leader (.sync ⟨cid⟩)) :=
    fun place client p hclient hp hescalated =>
      h.outstanding hc hrule (hd.syncs place client hclient cid p hp hescalated)
  cases h with
  | @issued _ seat before weak command haction hbefore =>
      rcases of_getElem?_set hclient with ⟨rfl, rfl⟩ | ⟨-, hclient⟩
      · rcases Client.pending_issue (hs.clients.sound hbefore).config_eq hp with
          hold' | ⟨-, -, hnot⟩
        · exact hold _ _ p hbefore hold' hescalated
        · rw [hnot] at hescalated
          simp at hescalated
      · exact hold _ _ p hclient hp hescalated
  | @reacted _ seat before m hl hbefore =>
      rcases of_getElem?_set hclient with ⟨rfl, rfl⟩ | ⟨-, hclient⟩
      · obtain ⟨p₀, hp₀, -, hasked⟩ := Client.goes_handle config before m cid p hp
        rcases hasked hescalated with hescalated₀ | hsent
        · exact hold _ _ p₀ hbefore hp₀ hescalated₀
        · left
          rw [(hs.clients.sound hbefore).config_eq] at hsent
          exact List.mem_append_right _
            (List.mem_flatMap.2 ⟨_, hsent, List.mem_singleton_self _⟩)
      · exact hold _ _ p hclient hp hescalated
  | _ => exact hold _ _ p hclient hp hescalated

/-- Where no message is lost, nothing that there was reason to send gets lost. -/
theorem ReachableBy.delivers (hc : c.ReachableBy .lossless config bounds) : c.Delivers config := by
  refine hc.induct (P := fun c => c.Delivers config) (fun n hn => ?_)
    fun c c' action hc hc' hrule hturn hd =>
      { effects := fun i e he s hsent letter hletter =>
          hturn.delivers_effects hc.reachable hc'.reachable hrule hd he hsent hletter
        requests := fun q hq =>
          hturn.delivers_requests hc.reachable hc'.reachable hrule hd hq
        syncs := fun place client hclient cid p hp hescalated =>
          hturn.delivers_syncs hc.reachable hrule hd hclient hp hescalated }
  have hpending : ∀ (place : Nat) client, n.clients[place]? = some client →
      client.pending = ∅ := by
    obtain rfl := Network.start_eq hn
    intro place client hclient
    rw [List.getElem?_map, Option.map_eq_some_iff] at hclient
    obtain ⟨_, -, rfl⟩ := hclient
    rfl
  exact
    { effects := fun i e he => by simp [trace_start] at he
      requests := fun q hq => by simp [Chronicle.start, History.start] at hq
      syncs := fun place client hclient cid p hp => by
        rw [hpending place client hclient] at hp
        simp at hp }

end Chronicle

end WitnessReplication
