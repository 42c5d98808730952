import WitnessReplication.Client
import WitnessReplication.Proofs.Certificate

/-!
# Whom a client has counted

The fast certificate of a command counts a replica only for its answer to that command. A client
that completes a command on the fast path has therefore counted the answers of three quarters of
the replicas, the leader among them (`Client.Tallied.handle`).
-/

namespace WitnessReplication

open Quorum

/-- The sender of an answer to a strong command, speculative or a verdict, has voted for the
command. -/
def ClientMessage.Voted (voted : CommandId → ReplicaId → Prop) : ClientMessage → Prop
  | .reply m => voted m.id m.replica
  | .recordAck m => voted m.id m.replica
  | _ => True

namespace Client

/-- Enough replicas have voted for a command to complete it on the fast path. -/
def Carried (config : Config) (voted : CommandId → ReplicaId → Prop) (id : CommandId) : Prop :=
  Attained config.fastQuorum config.leader (voted id)

/-- The fast certificate of a command counts votes for it only, and needs the leader's. -/
structure Pending.Tallied (config : Config) (voted : CommandId → ReplicaId → Prop)
    (id : CommandId) (p : Pending) : Prop where
  counts : p.fast.Counts config.fastQuorum config.leader (voted id)
  required : p.fast.leaderRequired = true

/-- The fast certificates of a client count votes only. -/
structure Tallied (config : Config) (voted : CommandId → ReplicaId → Prop) (c : Client) :
    Prop where
  config_eq : c.config = config
  pending : ∀ (id : CommandId) p, c.pending[id]? = some p → p.Tallied config voted id

/-- After a reaction the client still counts votes only, and a command that it completed on the
fast path was carried. -/
structure Reaction.Tallied (config : Config) (voted : CommandId → ReplicaId → Prop)
    (reaction : Reaction) : Prop where
  client : reaction.client.Tallied config voted
  completion : ∀ done, reaction.completion = some done → done.path = .fast →
    Carried config voted done.id

variable {config : Config} {voted voted' : CommandId → ReplicaId → Prop} {c : Client}
variable {id : CommandId} {p : Pending}

theorem Tallied.mono (h : c.Tallied config voted)
    (hvoted : ∀ id replica, voted id replica → voted' id replica) : c.Tallied config voted' where
  config_eq := h.config_eq
  pending id p hp :=
    ⟨(h.pending id p hp).counts.mono (hvoted id), (h.pending id p hp).required⟩

theorem tallied_initial (id : ClientId) (bound : ReplicaId) :
    Client.Tallied config voted { id, bound, config } where
  config_eq := rfl
  pending id p hp := by simp at hp

/-! ### Counting votes -/

/-- One more vote for a command, which may carry it. -/
theorem Pending.Tallied.add (h : p.Tallied config voted id) {sender : ReplicaId}
    (hsender : voted id sender) (vote : Vote) :
    (p.fast.add sender vote).1.Counts config.fastQuorum config.leader (voted id) ∧
      ∀ q, (p.fast.add sender vote).2 = some q → Carried config voted id := by
  refine ⟨h.counts.add hsender vote, fun q hq => ?_⟩
  obtain ⟨hvote, hrequired⟩ := Certificate.leader_of_add hq
  have hleader := hrequired h.required
  rw [hvote] at hleader
  have hmem := Certificate.leader_mem_senders hleader
  rw [Certificate.leader_add, h.counts.leader_eq] at hmem
  exact h.counts.attained hsender hq hmem

theorem Pending.Tallied.onReply {m : Reply} (h : p.Tallied config voted id)
    (hm : voted id m.replica) : (p.onReply m).1.Tallied config voted id ∧
      ∀ value, (p.onReply m).2 = .complete value .fast → Carried config voted id := by
  obtain ⟨hcounts, hcarried⟩ := h.add hm (.ofReply m)
  refine ⟨⟨hcounts, by simpa [Pending.onReply] using h.required⟩, fun value hdone => ?_⟩
  simp only [Pending.onReply] at hdone
  split at hdone
  · rename_i q hq
    exact hcarried q hq
  · split at hdone <;> simp at hdone

theorem Pending.Tallied.onSyncReply (m : Reply) (h : p.Tallied config voted id) :
    (p.onSyncReply m).1.Tallied config voted id ∧
      ∀ value, (p.onSyncReply m).2 = .complete value .fast → Carried config voted id := by
  refine ⟨⟨h.counts, h.required⟩, fun value hdone => ?_⟩
  simp only [Pending.onSyncReply] at hdone
  split at hdone <;> simp at hdone

theorem Pending.Tallied.onRecordAck {m : RecordAck} (h : p.Tallied config voted id)
    (hm : voted id m.replica) : (p.onRecordAck m).1.Tallied config voted id ∧
      ∀ value, (p.onRecordAck m).2 = .complete value .fast → Carried config voted id := by
  obtain ⟨hcounts, hcarried⟩ := h.add hm (.ofRecordAck m)
  refine ⟨⟨hcounts, by simpa [Pending.onRecordAck] using h.required⟩, fun value hdone => ?_⟩
  simp only [Pending.onRecordAck] at hdone
  split at hdone
  · rename_i hvalue
    obtain ⟨q, hq, -⟩ := Option.map_eq_some_iff.1 hvalue
    exact hcarried q hq
  · simp at hdone
  · simp at hdone
  · simp at hdone

/-! ### What a client does -/

theorem Tallied.react (h : c.Tallied config voted) :
    Reaction.Tallied config voted { client := c } where
  client := h
  completion done hdone := by simp at hdone

/-- Putting back a pending command that counts votes only. -/
theorem Tallied.put (h : c.Tallied config voted) (hp : p.Tallied config voted id) (stats : Stats) :
    Tallied config voted { c with pending := c.pending.insert id p, stats } where
  config_eq := h.config_eq
  pending id' p' hp' := by
    rw [Std.ExtTreeMap.getElem?_insert] at hp'
    split at hp'
    · rename_i heq
      obtain rfl := Option.some.inj hp'
      exact Std.LawfulEqOrd.eq_of_compare heq ▸ hp
    · exact h.pending id' p' hp'

/-- A client that issues a strong command has counted nothing for it yet. -/
theorem Tallied.propose (h : c.Tallied config voted) (command : Command) :
    (c.propose command).1.Tallied config voted := by
  have hnew : Pending.Tallied config voted ⟨c.id, c.nextSeq⟩
      ⟨.new .threeQuarters c.config.replicas c.config.leader true,
        .new .majority c.config.replicas c.config.leader true, false⟩ := by
    rw [h.config_eq]
    exact ⟨.new .threeQuarters config.replicas config.leader true, rfl⟩
  have hput := h.put hnew c.stats
  exact ⟨hput.config_eq, hput.pending⟩

theorem Tallied.proposeWeak (h : c.Tallied config voted) (command : Command) :
    (c.proposeWeak command).1.Tallied config voted :=
  ⟨h.config_eq, h.pending⟩

theorem Tallied.escalate (h : c.Tallied config voted) (hp : p.Tallied config voted id) :
    (c.escalate id p).Tallied config voted := by
  unfold Client.escalate
  split
  · exact ⟨h.put hp c.stats, by simp⟩
  · have hp' : Pending.Tallied config voted id { p with escalated := true } :=
      ⟨hp.counts, hp.required⟩
    exact ⟨h.put hp' _, by simp⟩

/-- Counting votes for a pending command completes it on the fast path only if it is carried. -/
theorem Tallied.update (h : c.Tallied config voted) (id : CommandId)
    (count : Pending → Pending × Decision)
    (hcount : ∀ p : Pending, p.Tallied config voted id → (count p).1.Tallied config voted id ∧
      ∀ value, (count p).2 = .complete value .fast → Carried config voted id) :
    (c.update id count).Tallied config voted := by
  unfold Client.update
  split
  · exact h.react
  · rename_i p hp
    obtain ⟨hcounted, hcarried⟩ := hcount p (h.pending id p hp)
    dsimp only
    split
    · exact ⟨h.put hcounted c.stats, by simp⟩
    · exact h.escalate hcounted
    · rename_i value path hdone
      constructor
      · refine ⟨h.config_eq, fun id' p' hp' => ?_⟩
        rw [Std.ExtTreeMap.getElem?_erase] at hp'
        split at hp'
        · simp at hp'
        · exact h.pending id' p' hp'
      · rintro done hdone' hpath
        obtain rfl := Option.some.inj hdone'
        obtain rfl : path = .fast := hpath
        exact hcarried value hdone

theorem Tallied.completeWeak (h : c.Tallied config voted) (m : WeakReply) :
    (c.completeWeak m).Tallied config voted := by
  unfold Client.completeWeak
  split
  · refine ⟨⟨h.config_eq, h.pending⟩, ?_⟩
    rintro done hdone hpath
    obtain rfl := Option.some.inj hdone
    simp at hpath
  · exact h.react

/-- Whatever message a client handles, a command that it completes on the fast path is carried. -/
theorem Tallied.handle (h : c.Tallied config voted) {m : ClientMessage} (hm : m.Voted voted) :
    (c.handle m).Tallied config voted := by
  cases m with
  | reply m => exact h.update m.id _ fun p hp => hp.onReply hm
  | syncReply m => exact h.update m.id _ fun p hp => hp.onSyncReply m
  | recordAck m =>
      unfold Client.handle
      dsimp only
      split
      · exact h.react
      · exact h.update m.id _ fun p hp => hp.onRecordAck hm
  | weakReply m => exact h.completeWeak m
  | causalReply m =>
      unfold Client.handle
      dsimp only
      split
      · exact h.completeWeak m
      · exact h.react

end Client

end WitnessReplication
