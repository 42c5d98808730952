import WitnessReplication.Proofs.Replica.Noting
import WitnessReplication.Proofs.Replica.Saying

/-!
# Weak answers where every replica takes weak commands

Where every replica takes weak commands, a replica answers a weak command in the moment in which
that arrives, and with what it knows then. No slot answers one when it executes.
-/

namespace WitnessReplication.Replica

/-- No slot under way answers a weak command when it executes. -/
def Eager (r : Replica) : Prop :=
  ∀ (slot : Slot) (s : LiveSlot), r.live[slot]? = some s → s.reply = false

/-- An effect is the answer to a weak command. -/
def Effect.IsWeakAnswer : Effect → Prop
  | .tell _ (.weakReply _) => True
  | .tell _ (.causalReply _) => True
  | _ => False

variable {log log' : Log} {config : Config} {issued : List Request} {base r r' : Replica}
variable {m : ReplicaMessage} {q : Request} {effects : List Effect} {fits : Slot → Event → Prop}

theorem eager_initial (id : ReplicaId) (config : Config) : (initial id config).Eager := by
  intro slot s hs
  simp [initial] at hs

/-- Only a proposal changes whether a slot answers. -/
theorem reply_apply (r : Replica) (slot : Slot) (s : LiveSlot) (event : Event) :
    (r.apply slot s event).2.1.reply = match event with
      | .propose p => p.reply
      | _ => s.reply := by
  obtain ⟨_, _, hrecord⟩ := r.record_apply slot s event
  rw [hrecord]
  cases event with
  | accept m =>
      simp only [LiveSlot.told]
      split <;> rfl
  | _ => rfl

/-- A change that proposes nothing to be answered later answers no weak command. -/
theorem Change.eager (h : r.Eager) (hfits : ∀ slot p, fits slot (.propose p) → p.reply = false)
    (hc : Change fits r effects r') : r'.Eager ∧ ∀ e ∈ effects, ¬e.IsWeakAnswer := by
  constructor
  · refine hc.forall_live (K := fun _ s => s.reply = false) (fun _ => rfl) ?_
      (fun hreply => hreply) h
    intro slot s event hfit hreply
    rw [reply_apply]
    cases event with
    | propose p => exact hfits slot p hfit
    | _ => exact hreply
  · intro e he
    cases hc with
    | opened hlive hexec => exact List.mem_singleton.1 he ▸ fun hanswer => hanswer
    | took hs happlied hstale hfit =>
        rcases effects_apply he with rfl | ⟨_, rfl⟩ | ⟨_, _, ⟨_, rfl⟩ | ⟨_, rfl⟩⟩ <;>
          simp [Effect.IsWeakAnswer, orderedAck]
    | awaited hs hexec => simp at he
    | @executed slot s id c hs hx hturn =>
        rcases effects_execute he with rfl | rfl | he
        · exact fun hanswer => hanswer
        · exact fun hanswer => hanswer
        · unfold answers at he
          rw [h slot s hs] at he
          split at he
          · simp at he
          · split at he
            · simp at he
            · split at he
              · obtain rfl := List.mem_singleton.1 he
                exact fun hanswer => hanswer.elim
              · simp at he

/-! ### What is said at once -/

/-- A weak command is answered at once where every replica takes weak commands. -/
theorem steps_respondWeak (hvariant : r.config.variant = .everyReplica) (body : WeakPropose)
    (causal : Bool) : (r.respondWeak body causal).steps =
      [.emit (r.weakReply body.id (r.speculate body.id body.command false) causal)] := by
  have hpending : r.Noted (some ⟨body.id, body.command, true⟩)
      (r.recordPending body.id body.command) := Noted.recordPending ..
  have hnoted := hpending.trans
    (Noted.witnessWeak (r.recordPending body.id body.command) body.id body.command)
  obtain ⟨⟨_, _, _, _, _, _, hframe⟩, -⟩ := hnoted
  unfold respondWeak
  simp only [hvariant, Variant.accepts, Bool.not_true, Bool.false_eq_true, if_false]
  rw [hframe]
  simp [hvariant, Variant.repliesSpeculatively, weakReply]

/-- What a replica says at once about a weak command is its answer to the one that arrives. -/
theorem said_weak {e : Effect} (h : Step.emit e ∈ (r.respond m).steps)
    (hanswer : e.IsWeakAnswer) :
    ∃ q, m.request? = some q ∧ q.weak = true ∧ ∃ causal,
      e = r.weakReply q.id (r.speculate q.id q.command false) causal ∧
      (causal = false → ∃ body, m = .weakPropose body) := by
  cases says_of_emit h with
  | announces body a => exact hanswer.elim
  | answers body reply => exact hanswer.elim
  | judges body hleader hnew => exact hanswer.elim
  | gives body value => exact hanswer.elim
  | replies body hvariant => exact ⟨_, rfl, rfl, false, rfl, fun _ => ⟨body, rfl⟩⟩
  | repliesCausally body hvariant => exact ⟨_, rfl, rfl, true, rfl, by simp⟩

/-- Where every replica takes weak commands, a replica that handles a message answers the weak
command that it brings, if it brings one, and no other. -/
theorem Attends.eager (h : base.Attends config log issued m log')
    (hvariant : config.variant = .everyReplica) (heager : base.Eager) :
    (base.handle m).1.Eager ∧ ∀ e ∈ (base.handle m).2, e.IsWeakAnswer →
      ∃ q, m.request? = some q ∧ q.weak = true ∧ ∃ causal,
        e = base.weakReply q.id (base.speculate q.id q.command false) causal ∧
        (causal = false → ∃ body, m = .weakPropose body) := by
  have hbase : base.config.variant = .everyReplica := by rw [h.config_eq, hvariant]
  have hnoted : (base.noted m).Eager := by
    obtain ⟨⟨_, _, _, _, _, _, hframe⟩, -⟩ := noted_noted base m
    rw [hframe]
    exact heager
  obtain ⟨effects, hsplits, hstill, hsilent⟩ := h.preserves
    (P := fun r sent => r.Eager ∧ ∀ e ∈ sent, ¬e.IsWeakAnswer) ⟨hnoted, by simp⟩
    fun hs hp hc => by
      obtain ⟨hstill, hnew⟩ := hc.eager hp.1 fun slot p hfit => by
        rw [hfit.2.2.1, hbase]
        simp [Variant.repliesAfterExecute]
      refine ⟨hstill, fun e he => ?_⟩
      rcases List.mem_append.1 he with he | he
      · exact hp.2 e he
      · exact hnew e he
  refine ⟨hstill, fun e he hanswer => ?_⟩
  rcases hsplits.complete e he with he | hsaid | ⟨a, rfl⟩
  · exact absurd hanswer (hsilent e he)
  · exact said_weak hsaid hanswer
  · exact hanswer.elim

end WitnessReplication.Replica
