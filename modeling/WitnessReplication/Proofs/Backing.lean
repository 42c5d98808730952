import WitnessReplication.Proofs.Log

/-!
# What messages stand for

A message is backed if what it says is true of the leader's order: an accept names the request
that has the slot, a committed result is what the log gives, a speculative result is what the
leader answered, and a verdict comes from a replica that does not lead.

Backing speaks of the log, of the requests that clients have issued and of how far the leader has
executed. All three only grow, and what is backed stays backed.
-/

namespace WitnessReplication

/-- An accept names the request that has its slot. -/
def Accept.Fits (log : Log) (m : Accept) : Prop :=
  ∃ c, m.command = some c ∧ log.request? m.slot = some ⟨m.id, c, m.weak⟩

/-- The request that a message brings, if it brings one. -/
def ReplicaMessage.request? : ReplicaMessage → Option Request
  | .propose m => some ⟨m.id, m.command, false⟩
  | .weakPropose m => some ⟨m.id, m.command, true⟩
  | .causalPropose m => some ⟨m.id, m.command, true⟩
  | _ => none

/-- A strong command comes as a proposal. -/
theorem ReplicaMessage.eq_propose {m : ReplicaMessage} {q : Request} (hq : m.request? = some q)
    (hstrong : q.weak = false) : m = .propose ⟨q.id, q.command⟩ := by
  cases m with
  | propose body =>
      obtain rfl := Option.some.inj hq
      rfl
  | weakPropose body =>
      obtain rfl := Option.some.inj hq
      simp at hstrong
  | causalPropose body =>
      obtain rfl := Option.some.inj hq
      simp at hstrong
  | _ => simp [ReplicaMessage.request?] at hq

/-- A message to a replica is backed; accepts are not for the leader, and nothing is batched. -/
def ReplicaMessage.Backed (log : Log) (issued : List Request) (leads : Bool) :
    ReplicaMessage → Prop
  | .propose m => ⟨m.id, m.command, false⟩ ∈ issued
  | .weakPropose m => ⟨m.id, m.command, true⟩ ∈ issued
  | .causalPropose m => ⟨m.id, m.command, true⟩ ∈ issued
  | .accept m => leads = false ∧ m.Fits log
  | .batch _ => False
  | .sync _ => True
  | .acceptAck _ => True
  | .commit _ => True

/-- A message to a client is backed, where the leader has executed the slots below `bound`. -/
def ClientMessage.Backed (config : Config) (log : Log) (bound : Slot) : ClientMessage → Prop
  | .reply m => m.replica = config.leader ∧ log.Answers m.id m.value m.ok
  | .syncReply m => m.replica = config.leader ∧ log.Results bound m.id m.value
  | .recordAck m => m.replica ≠ config.leader
  | .weakReply m => config.variant = .leaderOnly → log.Results bound m.id m.value
  | .causalReply m => config.variant = .leaderOnly → log.Results bound m.id m.value

namespace Replica

/-- An event at a slot agrees with the log; the leader takes no accepts. -/
def Event.Fits (log : Log) (leads : Bool) (slot : Slot) : Event → Prop
  | .propose p => log.request? slot = some ⟨p.id, p.command, p.weak⟩
  | .accept m => leads = false ∧
      ∃ c, m.command = some c ∧ log.request? slot = some ⟨m.id, c, m.weak⟩
  | .acceptAck _ => True
  | .commit _ => True
  | .wake => True

/-- What a replica sends is backed; only the leader sends accepts. -/
def Effect.Backed (config : Config) (log : Log) (bound : Slot) (leads : Bool) : Effect → Prop
  | .broadcast m => ∃ body, m = .commit body
  | .tell _ m => m.Backed config log bound
  | .accept a => leads = true ∧ a.Fits log
  | .acceptAck _ => True
  | .opened _ => True
  | .committed _ => True
  | .executed _ => True
  | .weakExecuted _ => True

/-- The request that an effect announces a slot for. -/
def Effect.request? : Effect → Option Request
  | .accept a => a.command.map fun c => ⟨a.id, c, a.weak⟩
  | _ => none

end Replica

variable {log log' : Log} {issued issued' : List Request} {bound bound' : Slot}

theorem Accept.Fits.mono {m : Accept} (h : m.Fits log) (hlog : log <+: log') : m.Fits log' := by
  obtain ⟨c, hc, hq⟩ := h
  exact ⟨c, hc, Log.request?_mono hlog hq⟩

theorem ReplicaMessage.Backed.mono {leads : Bool} {m : ReplicaMessage}
    (h : m.Backed log issued leads) (hlog : log <+: log') (hissued : issued ⊆ issued') :
    m.Backed log' issued' leads := by
  cases m with
  | propose m => exact hissued h
  | weakPropose m => exact hissued h
  | causalPropose m => exact hissued h
  | accept m => exact ⟨h.1, h.2.mono hlog⟩
  | batch m => exact h
  | sync m => trivial
  | acceptAck m => trivial
  | commit m => trivial

theorem ClientMessage.Backed.mono {config : Config} {m : ClientMessage}
    (h : m.Backed config log bound) (hlog : log <+: log') (hb : bound ≤ bound') :
    m.Backed config log' bound' := by
  cases m with
  | reply m => exact ⟨h.1, h.2.mono hlog⟩
  | syncReply m => exact ⟨h.1, h.2.mono hlog hb⟩
  | recordAck m => exact h
  | weakReply m => exact fun hv => (h hv).mono hlog hb
  | causalReply m => exact fun hv => (h hv).mono hlog hb

theorem Replica.Event.Fits.mono {leads : Bool} {slot : Slot} {event : Replica.Event}
    (h : event.Fits log leads slot) (hlog : log <+: log') : event.Fits log' leads slot := by
  cases event with
  | propose p => exact Log.request?_mono hlog h
  | accept m =>
      obtain ⟨hleads, c, hc, hq⟩ := h
      exact ⟨hleads, c, hc, Log.request?_mono hlog hq⟩
  | acceptAck m => trivial
  | commit m => trivial
  | wake => trivial

end WitnessReplication
