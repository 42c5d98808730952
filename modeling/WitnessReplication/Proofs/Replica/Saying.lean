import WitnessReplication.Proofs.Replica.Keeping

/-!
# What a replica may say about a message

A replica may say something about a message before any slot takes an event. The leader announces the
slot of a strong command and answers it, or has a result that it is asked for; another replica gives
its verdict on a strong command; and a weak command may be answered with what the replica knows
(`Says`). It plans to say nothing else (`says_of_emit`).
-/

namespace WitnessReplication.Replica

/-- What a replica may say about a message at once. -/
inductive Says (r : Replica) : ReplicaMessage → Effect → Prop
  /-- The leader announces the slot of a strong command. -/
  | announces (body : Propose) (a : Accept) : Says r (.propose body) (.accept a)
  /-- The leader answers a strong command. -/
  | answers (body : Propose) (reply : Reply) :
      Says r (.propose body) (.tell body.id.client (.reply reply))
  /-- Another replica gives its verdict on a strong command that it has not recorded. -/
  | judges (body : Propose) (hleader : r.isLeader = false) (hnew : body.id ∉ r.witnessed) :
      Says r (.propose body) (.tell body.id.client (.recordAck
        ⟨r.id, r.config.ballot, body.id, (r.recordWitness body.id body.command true).2.ok,
          (r.recordWitness body.id body.command true).2.weakDep⟩))
  /-- The leader has the result that it is asked for. -/
  | gives (body : Sync) (value : Value) : Says r (.sync body) (r.syncReply body.id value)
  /-- A weak command is answered with what the replica knows. -/
  | replies (body : WeakPropose) (hvariant : r.config.variant.repliesSpeculatively = true) :
      Says r (.weakPropose body)
        (r.weakReply body.id (r.speculate body.id body.command false) false)
  /-- So is a causal command. -/
  | repliesCausally (body : WeakPropose)
      (hvariant : r.config.variant.repliesSpeculatively = true) :
      Says r (.causalPropose body)
        (r.weakReply body.id (r.speculate body.id body.command false) true)

variable {r : Replica} {m : ReplicaMessage} {e : Effect}

theorem emit_leadPropose {body : Propose}
    (h : .emit e ∈ (r.leadPropose body.id body.command).steps) : r.Says (.propose body) e := by
  unfold leadPropose at h
  split at h
  · simp at h
  · split at h
    · simp at h
    · simp only [List.mem_cons, reduceCtorEq, Step.emit.injEq, List.not_mem_nil, or_false,
        false_or] at h
      rcases h with rfl | rfl
      · exact .answers body _
      · exact .announces body _

theorem emit_witnessPropose {body : Propose} (hleader : r.isLeader = false)
    (h : .emit e ∈ (r.witnessPropose body.id body.command).steps) : r.Says (.propose body) e := by
  unfold witnessPropose at h
  split at h
  · simp at h
  · rename_i hnew
    obtain rfl := Step.emit.inj (List.mem_singleton.1 h)
    exact .judges body hleader (by simpa using hnew)

theorem emit_respondSync {body : Sync} (h : .emit e ∈ (r.respondSync body.id).steps) :
    r.Says (.sync body) e := by
  unfold respondSync at h
  split at h
  · simp at h
  · split at h
    · obtain rfl := Step.emit.inj (List.mem_singleton.1 h)
      exact .gives body _
    · simp at h

/-- Only a variant that answers speculatively says something about a weak command at once. -/
theorem emit_respondWeak {body : WeakPropose} {causal : Bool}
    (h : .emit e ∈ (r.respondWeak body causal).steps) :
    r.config.variant.repliesSpeculatively = true ∧
      e = r.weakReply body.id (r.speculate body.id body.command false) causal := by
  have hpending : r.Noted (some ⟨body.id, body.command, true⟩)
      (r.recordPending body.id body.command) := Noted.recordPending ..
  have hnoted := hpending.trans
    (Noted.witnessWeak (r.recordPending body.id body.command) body.id body.command)
  obtain ⟨⟨_, _, _, _, _, _, hframe⟩, -⟩ := hnoted
  unfold respondWeak at h
  split at h
  · simp at h
  · dsimp only at h
    rw [hframe] at h
    split at h
    · rename_i hvariant
      exact ⟨hvariant, Step.emit.inj (List.mem_singleton.1 h)⟩
    · simp at h

/-- What a replica plans to say about a message. -/
theorem says_of_emit (h : .emit e ∈ (r.respond m).steps) : r.Says m e := by
  cases m with
  | propose body =>
      simp only [respond] at h
      split at h
      · exact emit_leadPropose h
      · rename_i hleader
        exact emit_witnessPropose (by simpa using hleader) h
  | sync body => exact emit_respondSync h
  | weakPropose body =>
      obtain ⟨hvariant, rfl⟩ := emit_respondWeak h
      exact .replies body hvariant
  | causalPropose body =>
      obtain ⟨hvariant, rfl⟩ := emit_respondWeak h
      exact .repliesCausally body hvariant
  | accept a => simp [respond] at h
  | acceptAck a => simpa using plain_ackSteps h
  | commit b => simp [respond] at h
  | batch b =>
      rcases List.mem_append.1 h with h | h
      · simp at h
      · obtain ⟨a, -, h⟩ := List.mem_flatMap.1 h
        simpa using plain_ackSteps h

end WitnessReplication.Replica
