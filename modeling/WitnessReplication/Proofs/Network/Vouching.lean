import WitnessReplication.Proofs.Network.Chronicle
import WitnessReplication.Proofs.Replica.Vouching

/-!
# What messages in flight vouch for

A replica votes for the request of a slot when it accepts it, which the leader does by announcing
the slot and any other replica by acknowledging the accept; the slot then carries the request. It
supports a command once it holds it, or as the leader has given it a slot. Both last whatever
happens (`Step.voted`, `Step.supports`).

In every chronicle the leader directs each slot of the log that it has not executed (`Directed`),
and every verdict and acknowledgement in flight comes from a replica that supports the command or
has voted for the slot (`Vouched`).
-/

namespace WitnessReplication

/-- With the message that it handles, a replica accepts a request in a slot: it announces the
slot, or it acknowledges the accept that it handles. -/
def Handling.Accepts (d : Handling) (slot : Slot) (q : Request) : Prop :=
  ∃ body : Accept, body.Assigns slot q ∧ (.accept body ∈ d.effects ∨
    d.message = .accept body ∧ ∃ a, .acceptAck a ∈ d.effects ∧ a.slot = slot ∧
      a.replica = d.replica.id)

namespace Chronicle

open Network

/-- A replica has once accepted a request in a slot. -/
def HasAccepted (c : Chronicle) (id : ReplicaId) (slot : Slot) (q : Request) : Prop :=
  ∃ d ∈ c.handled, d.replica.id = id ∧ d.Accepts slot q

/-- A replica has voted for a slot: it has once accepted the request that the log has there, and
the slot carries that. -/
def Voted (c : Chronicle) (slot : Slot) (id : ReplicaId) : Prop :=
  ∃ q, c.log.request? slot = some q ∧ c.HasAccepted id slot q ∧
    ∃ r, c.network.replicas[id]? = some r ∧ r.HasAccepted slot q

/-- A replica supports a command: it holds the request, or it leads and has given it a slot. -/
def Supports (config : Config) (c : Chronicle) (id : CommandId) (i : ReplicaId) : Prop :=
  ∃ q ∈ c.issued, q.id = id ∧ ∃ r, c.network.replicas[i]? = some r ∧
    ((i = config.leader ∧ ∃ slot, c.log.request? slot = some q) ∨
      (i ≠ config.leader ∧ r.Holds c.log q))

/-- The leader directs every slot of the log, and no slot under way has been applied. -/
structure Directed (config : Config) (c : Chronicle) : Prop where
  unapplied : ∀ (i : ReplicaId) r, c.network.replicas[i]? = some r → r.Unapplied
  leader : ∀ slot q, c.log.request? slot = some q →
    ∃ r, c.network.replicas[config.leader]? = some r ∧ r.Carries slot fun s => s.Directs q

/-- Verdicts and acknowledgements in flight vouch for their senders, as do the accepted slots that
a replica has yet to report. -/
structure Vouched (c : Chronicle) : Prop where
  ordered : ∀ (i : ReplicaId) r, c.network.replicas[i]? = some r → ∀ (slot : Slot) entry,
    r.ordered.accepted[slot]? = some entry →
      ∃ q, c.log.request? slot = some q ∧ (q.id, q.weak) = entry ∧ r.HasAccepted slot q
  verdicts : ∀ client a, .toClient client (.recordAck a) ∈ c.network.pool →
    ∃ q ∈ c.issued, q.id = a.id ∧ ∃ r, c.network.replicas[a.replica]? = some r ∧ r.Holds c.log q
  acks : ∀ i a, .toReplica i (.acceptAck a) ∈ c.network.pool → c.Voted a.slot a.replica

variable {config : Config} {bounds : List ReplicaId} {c c' : Chronicle} {i id : ReplicaId}
variable {r : Replica} {m : ReplicaMessage} {slot : Slot} {q : Request}

/-! ### What lasts -/

theorem Step.prefix_log (h : c.Step c') (hs : c.Sound config) : c.log <+: c'.log := by
  rcases h.quiet_or_handles hs with hquiet | ⟨id, r, m, hhandles⟩
  · exact hquiet.log_eq ▸ List.prefix_rfl
  · exact (hhandles.attends hs).prefix_log

theorem Step.issued_subset (h : c.Step c') (hs : c.Sound config) : c.issued ⊆ c'.issued := by
  rcases h.quiet_or_handles hs with hquiet | ⟨id, r, m, hhandles⟩
  · exact hquiet.issued_subset
  · rw [hhandles.issued_eq]
    exact List.Subset.refl _

theorem Step.handled_subset (h : c.Step c') (hs : c.Sound config) : c.handled ⊆ c'.handled := by
  rcases h.quiet_or_handles hs with hquiet | ⟨id, r, m, hhandles⟩
  · rw [hquiet.handled_eq]
    exact List.Subset.refl _
  · rw [hhandles.handled_eq]
    exact List.subset_append_left _ _

/-- What a replica keeps when it handles a message and when it does not, lasts. -/
theorem Step.persist {P P' : Replica → Prop} (h : c.Step c') (hs : c.Sound config)
    (hsame : ∀ r, P r → P' r) (hhandle : ∀ r m, c.Handles i r m c' → P r → P' (r.handle m).1)
    (hr : ∃ r, c.network.replicas[i]? = some r ∧ P r) :
    ∃ r, c'.network.replicas[i]? = some r ∧ P' r := by
  obtain ⟨r, hr, hp⟩ := hr
  rcases h.quiet_or_handles hs with hquiet | ⟨id, r', m, hhandles⟩
  · exact ⟨r, by rw [hquiet.replicas_eq, hr], hsame r hp⟩
  · by_cases hid : i = id
    · subst hid
      obtain rfl : r' = r := Option.some.inj (hhandles.replica.symm.trans hr)
      exact ⟨_, hhandles.replica', hhandle r' m hhandles hp⟩
    · refine ⟨r, ?_, hsame r hp⟩
      rw [hhandles.replicas_eq, List.getElem?_set_ne (Ne.symm hid), hr]

theorem Step.voted (h : c.Step c') (hs : c.Sound config) (hvoted : c.Voted slot i) :
    c'.Voted slot i := by
  obtain ⟨q, hq, ⟨d, hd, haccepts⟩, hr⟩ := hvoted
  have hq' := Log.request?_mono (h.prefix_log hs) hq
  refine ⟨q, hq', ⟨d, h.handled_subset hs hd, haccepts⟩, h.persist hs (fun r hp => hp) ?_ hr⟩
  intro r m hhandles haccepted
  exact (hhandles.attends hs).carries (Replica.lasting_hasAccepted hq') haccepted

/-- A replica that handles a message vouches for what it holds. -/
theorem Handles.vouches (h : c.Handles i r m c') (hs : c.Sound config) (hs' : c'.Sound config)
    (hv : c.Vouched) :
    Replica.Vouches c'.log c'.issued r m (r.handle m).1 (r.handle m).2 := by
  have hattends := h.attends hs
  rw [← h.issued_eq] at hattends
  exact hattends.vouches hs'.records (hv.ordered i r h.replica)

theorem Step.holds (h : c.Step c') (hs : c.Sound config) (hv : c.Vouched) (hq : q ∈ c.issued)
    (hr : ∃ r, c.network.replicas[i]? = some r ∧ r.Holds c.log q) :
    ∃ r, c'.network.replicas[i]? = some r ∧ r.Holds c'.log q := by
  refine h.persist hs (fun r hheld => hheld.mono (h.prefix_log hs)) ?_ hr
  intro r m hhandles hheld
  have hvouches := hhandles.vouches hs (h.sound hs) hv
  exact hvouches.holds q (h.issued_subset hs hq) (hheld.mono (h.prefix_log hs))

theorem Step.supports {cid : CommandId} (h : c.Step c') (hs : c.Sound config) (hv : c.Vouched)
    (hsupports : c.Supports config cid i) : c'.Supports config cid i := by
  obtain ⟨q, hq, hid, r, hr, ⟨hleader, slot, hslot⟩ | ⟨hother, hheld⟩⟩ := hsupports
  · obtain ⟨r', hr', -⟩ : ∃ r', c'.network.replicas[i]? = some r' ∧ True :=
      h.persist hs (fun _ hp => hp) (fun _ _ _ hp => hp) ⟨r, hr, trivial⟩
    exact ⟨q, h.issued_subset hs hq, hid, r', hr',
      .inl ⟨hleader, slot, Log.request?_mono (h.prefix_log hs) hslot⟩⟩
  · obtain ⟨r', hr', hheld'⟩ := h.holds hs hv hq ⟨r, hr, hheld⟩
    exact ⟨q, h.issued_subset hs hq, hid, r', hr', .inr ⟨hother, hheld'⟩⟩

/-! ### What every chronicle has -/

theorem replicas_start {n : Network} (hn : Network.start config bounds = .ok n)
    (hr : (start n).network.replicas[i]? = some r) : r = .initial i config := by
  obtain rfl := Network.start_eq hn
  simp only [start, History.start, List.getElem?_map] at hr
  obtain ⟨j, hj, rfl⟩ := Option.map_eq_some_iff.1 hr
  obtain ⟨hlt, rfl⟩ := List.getElem?_eq_some_iff.1 hj
  rw [List.getElem_range]

/-- The leader directs each slot in the step that gives it out, and from then on. -/
theorem Step.directed (h : c.Step c') (hs : c.Sound config) (hd : c.Directed config) :
    c'.Directed config := by
  rcases h.quiet_or_handles hs with hquiet | ⟨id, r, m, hhandles⟩
  · constructor
    · rw [hquiet.replicas_eq]
      exact hd.unapplied
    · rw [hquiet.replicas_eq, hquiet.log_eq]
      exact hd.leader
  · have hattends := hhandles.attends hs
    have hunapplied := hd.unapplied id r hhandles.replica
    constructor
    case unapplied =>
      intro i r' hr'
      rcases hhandles.replica_eq hr' with ⟨rfl, rfl⟩ | ⟨-, hr'⟩
      · exact hattends.keeps Replica.kept_unapplied hunapplied
      · exact hd.unapplied i r' hr'
    case leader =>
      have hisLeader := hs.replicas.isLeader_eq hhandles.replica
      intro slot q hq
      by_cases hid : id = config.leader
      · subst hid
        have hdirects : r.Directs c.log := by
          intro slot q hq
          obtain ⟨r', hr', hcarries⟩ := hd.leader slot q hq
          obtain rfl : r = r' := Option.some.inj (hhandles.replica.symm.trans hr')
          exact hcarries
        refine ⟨_, hhandles.replica', ?_⟩
        exact hattends.directs (by simpa using hisLeader) hunapplied hdirects slot q hq
      · have hlog : c'.log = c.log := by
          rw [hhandles.log_eq, hisLeader]
          simp [hid]
        rw [hlog] at hq
        refine h.persist hs (fun r hp => hp) ?_ (hd.leader slot q hq)
        intro r' m' hhandles' hcarries
        have hq' : c'.log.request? slot = some q := by rw [hlog, hq]
        exact (hhandles'.attends hs).carries (Replica.lasting_directs hq') hcarries

theorem Reachable.directed (hc : c.Reachable config bounds) : c.Directed config := by
  refine hc.induct (fun n hn => ⟨?_, ?_⟩) fun c c' hs hstep hd => hstep.directed hs hd
  · intro i r hr
    rw [replicas_start hn hr]
    exact Replica.unapplied_initial i config
  · intro slot q hq
    simp [Chronicle.start, History.start, Log.request?] at hq

/-- A replica that gives a verdict on a strong command holds it. -/
theorem Handles.holds_verdict (h : c.Handles id r m c') (hs : c.Sound config)
    (hs' : c'.Sound config) (hv : c.Vouched) {client : ClientId} {a : RecordAck}
    (hnew : .tell client (.recordAck a) ∈ (r.handle m).2) :
    ∃ q ∈ c'.issued, q.id = a.id ∧
      ∃ r, c'.network.replicas[a.replica]? = some r ∧ r.Holds c'.log q := by
  obtain ⟨hsender, q, hq, hid, hheld⟩ := (h.vouches hs hs' hv).verdicts client a hnew
  refine ⟨q, hq, hid, _, ?_, hheld⟩
  rw [hsender, h.id_eq hs]
  exact h.replica'

/-- A replica that acknowledges a slot has voted for it. -/
theorem Handles.voted_ack (h : c.Handles id r m c') (hs : c.Sound config) (hs' : c'.Sound config)
    (hv : c.Vouched) {a : AcceptAck} (hnew : .acceptAck a ∈ (r.handle m).2) :
    c'.Voted a.slot a.replica := by
  obtain ⟨hsender, body, q, hm, hassigns, hq, haccepted⟩ := (h.vouches hs hs' hv).acks a hnew
  refine ⟨q, hq, ⟨⟨r, m⟩, ?_, hsender.symm, body, hassigns, .inr ⟨hm, a, hnew, rfl, hsender⟩⟩,
    _, ?_, haccepted⟩
  · rw [h.handled_eq]
    exact List.mem_append_right _ (List.mem_singleton_self _)
  · rw [hsender, h.id_eq hs]
    exact h.replica'

/-- What a replica newly sends vouches for it, and what was in flight still does. -/
theorem Step.vouched (h : c.Step c') (hs : c.Sound config) (hv : c.Vouched) : c'.Vouched := by
  have hverdict : ∀ client a, .toClient client (.recordAck a) ∈ c.network.pool →
      ∃ q ∈ c'.issued, q.id = a.id ∧
        ∃ r, c'.network.replicas[a.replica]? = some r ∧ r.Holds c'.log q := by
    intro client a hmem
    obtain ⟨q, hq, hid, hr⟩ := hv.verdicts client a hmem
    exact ⟨q, h.issued_subset hs hq, hid, h.holds hs hv hq hr⟩
  have hack : ∀ i a, .toReplica i (.acceptAck a) ∈ c.network.pool → c'.Voted a.slot a.replica :=
    fun i a hmem => h.voted hs (hv.acks i a hmem)
  rcases h.quiet_or_handles hs with hquiet | ⟨id, r, m, hhandles⟩
  · constructor
    case ordered =>
      rw [hquiet.replicas_eq, hquiet.log_eq]
      exact hv.ordered
    case verdicts =>
      intro client a hmem
      rcases hquiet.pool _ hmem with hold | ⟨_, _, hletter, -⟩
      · exact hverdict client a hold
      · simp at hletter
    case acks =>
      intro i a hmem
      rcases hquiet.pool _ hmem with hold | ⟨_, _, hletter, hclient⟩
      · exact hack i a hold
      · obtain ⟨-, rfl⟩ := Letter.toReplica.inj hletter
        exact hclient.elim
  · have hs' := h.sound hs
    constructor
    case ordered =>
      intro i r' hr' slot entry hentry
      rcases hhandles.replica_eq hr' with ⟨rfl, rfl⟩ | ⟨-, hr'⟩
      · exact (hhandles.vouches hs hs' hv).ordered slot entry hentry
      · obtain ⟨q, hq, hrest⟩ := hv.ordered i r' hr' slot entry hentry
        exact ⟨q, Log.request?_mono (hhandles.attends hs).prefix_log hq, hrest⟩
    case verdicts =>
      intro client a hmem
      rcases hhandles.tell_of_letter hmem with hold | hnew
      · exact hverdict client a hold
      · exact hhandles.holds_verdict hs hs' hv hnew
    case acks =>
      intro i a hmem
      rcases hhandles.effect_of_letter hmem with hold | hnew | ⟨_, hnew, -⟩ | ⟨a', hsame, hnew⟩
      · exact hack i a hold
      · obtain ⟨_, hbody⟩ := (hhandles.attends hs).serving.backed _ hnew _ fun _ => Nat.le_refl _
        simp at hbody
      · simp at hnew
      · obtain rfl := ReplicaMessage.acceptAck.inj hsame
        exact hhandles.voted_ack hs hs' hv hnew

theorem Reachable.vouched (hc : c.Reachable config bounds) : c.Vouched := by
  refine hc.induct (fun n hn => ⟨?_, ?_, ?_⟩) fun c c' hs hstep hv => hstep.vouched hs hv
  · intro i r hr slot entry hentry
    rw [replicas_start hn hr] at hentry
    simp [Replica.initial] at hentry
  · intro client a hmem
    obtain rfl := Network.start_eq hn
    simp [Chronicle.start, History.start] at hmem
  · intro i a hmem
    obtain rfl := Network.start_eq hn
    simp [Chronicle.start, History.start] at hmem

/-- What every step keeps while the leader directs its slots and messages in flight vouch for their
senders, every reachable chronicle has. -/
theorem Reachable.induct_vouched {P : Chronicle → Prop}
    (hstart : ∀ n, Network.start config bounds = .ok n → P (Chronicle.start n))
    (hstep : ∀ c c' : Chronicle, c.Sound config → c.Directed config → c.Vouched → c.Step c' →
      P c → P c')
    (hc : c.Reachable config bounds) : P c := by
  have hall : c.Directed config ∧ c.Vouched ∧ P c := by
    apply hc.induct (P := fun c => c.Directed config ∧ c.Vouched ∧ P c)
    · intro n hn
      have hreachable : (Chronicle.start n).Reachable config bounds := .start hn
      exact ⟨hreachable.directed, hreachable.vouched, hstart n hn⟩
    · rintro c c' hs h ⟨hd, hv, hp⟩
      exact ⟨h.directed hs hd, h.vouched hs hv, hstep c c' hs hd hv h hp⟩
  exact hall.2.2

end Chronicle

end WitnessReplication
