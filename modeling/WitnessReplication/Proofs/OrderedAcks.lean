import Mathlib.Data.List.Induction
import WitnessReplication.Proofs.Arrivals
import WitnessReplication.Proofs.Replica.Ordering

/-!
# Commands that are told to be ordered

A replica that does not lead tells the client of a strong command that the command is ordered. It
does so once for each slot, in the order of the slots, and no sooner than accepts of its epoch have
come for that slot and all slots before it, but then at once (`Replica.ordered_acks`). Accepts may
come in any order, more than once, alone or in batches, before or after the slots execute.
-/

namespace WitnessReplication.Replica

/-- All that a replica sends while it handles messages. -/
def sendAll (r : Replica) : List ReplicaMessage → List Sent
  | [] => []
  | m :: ms => (r.step m).2 ++ (r.step m).1.sendAll ms

variable {id : ReplicaId} {config : Config} {r : Replica} {ms : List ReplicaMessage}
variable {accepts : List Accept} {commits : List Commit}

theorem handleAll_concat (r : Replica) (ms : List ReplicaMessage) (m : ReplicaMessage) :
    r.handleAll (ms ++ [m]) = ((r.handleAll ms).handle m).1 := by
  rw [handleAll, List.foldl_append]
  rfl

theorem sendAll_concat (r : Replica) (ms : List ReplicaMessage) (m : ReplicaMessage) :
    r.sendAll (ms ++ [m]) = r.sendAll ms ++ ((r.handleAll ms).step m).2 := by
  induction ms generalizing r with
  | nil => exact List.append_nil _
  | cons first ms ih =>
      rw [List.cons_append, sendAll, ih, sendAll, List.append_assoc]
      rfl

theorem covers_initial (id : ReplicaId) (config : Config) :
    (initial id config).ordered.Covers (Accept.entry? config.ballot []) := by
  refine ⟨⟨fun slot hslot => absurd hslot (Nat.not_lt_zero slot), fun slot _ => ?_⟩, rfl⟩
  simp [initial, Accept.entry?, Accept.first?]

/-- After any messages the prefix covers the slots for which accepts of the epoch have come. -/
theorem covers_handleAll (hleader : config.isLeader id = false) (ms : List ReplicaMessage) :
    ((initial id config).handleAll ms).ordered.Covers
      (Accept.entry? config.ballot (ms.flatMap ReplicaMessage.accepts)) := by
  induction ms using List.reverseRecOn with
  | nil => exact covers_initial id config
  | append_singleton ms m ih =>
      rw [handleAll_concat, List.flatMap_append, List.flatMap_singleton]
      exact ((digests_handleAll hleader ms).reports_handle ih hleader m).1

/-- One more message makes a replica report what its prefix newly covers. -/
theorem reports_step (hleader : config.isLeader id = false) (ms : List ReplicaMessage)
    (m : ReplicaMessage) :
    Reports id config ((ms ++ [m]).flatMap ReplicaMessage.accepts)
      ((initial id config).handleAll ms) (((initial id config).handleAll ms).handle m).2
      ((initial id config).handleAll (ms ++ [m])) := by
  rw [handleAll_concat, List.flatMap_append, List.flatMap_singleton]
  exact ((digests_handleAll hleader ms).reports_handle (covers_handleAll hleader ms) hleader m).2

/-- What one more message makes a replica send about ordered commands. -/
theorem sent_step (hleader : config.isLeader id = false) (ms : List ReplicaMessage)
    (m : ReplicaMessage) :
    (((initial id config).handleAll ms).step m).2.filter Sent.isOrderedAck =
      Accept.orderedAcks id config.ballot ((ms ++ [m]).flatMap ReplicaMessage.accepts)
        (List.Ico ((initial id config).handleAll ms).ordered.next
          ((initial id config).handleAll (ms ++ [m])).ordered.next) := by
  have hconfig := (digests_handleAll hleader ms).config_eq
  rw [← (reports_step hleader ms m).sent_eq, orderedSent, step, hconfig]

/-- What a replica has sent about ordered commands from the beginning on. -/
theorem sent_sendAll (hleader : config.isLeader id = false) (ms : List ReplicaMessage) :
    ((initial id config).sendAll ms).filter Sent.isOrderedAck =
      Accept.orderedAcks id config.ballot (ms.flatMap ReplicaMessage.accepts)
        (List.range ((initial id config).handleAll ms).ordered.next) := by
  induction ms using List.reverseRecOn with
  | nil => rfl
  | append_singleton ms m ih =>
      have hle := (reports_step hleader ms m).next_le
      have hbefore :
          Accept.orderedAcks id config.ballot ((ms ++ [m]).flatMap ReplicaMessage.accepts)
            (List.Ico 0 ((initial id config).handleAll ms).ordered.next) =
          Accept.orderedAcks id config.ballot (ms.flatMap ReplicaMessage.accepts)
            (List.Ico 0 ((initial id config).handleAll ms).ordered.next) := by
        refine Accept.orderedAcks_congr fun slot hslot => ?_
        rw [List.flatMap_append]
        exact (covers_handleAll hleader ms).first?_append _ slot (List.Ico.mem.1 hslot).2
      rw [sendAll_concat, List.filter_append, ih, sent_step hleader, ← List.Ico.zero_bot,
        ← List.Ico.zero_bot, ← hbefore, ← Accept.orderedAcks_append,
        List.Ico.append_consecutive (Nat.zero_le _) hle]

/-- After any messages, a replica that does not lead has counted as accepted the slots before the
first one for which no accept of its epoch has come, and has executed no others. It has told the
clients of the strong commands in these slots, each as the first accept named it, that they are
ordered: one message for each slot, in the order of the slots, and none for a weak command. Each
further message makes it send these for just the slots that it then newly counts. -/
theorem ordered_acks (hleader : config.isLeader id = false) (ms : List ReplicaMessage) :
    let accepts := ms.flatMap ReplicaMessage.accepts
    let r := (initial id config).handleAll ms
    IsLeast {slot | Accept.first? config.ballot accepts slot = none} r.ordered.next ∧
    r.executed ≤ r.ordered.next ∧
    ((initial id config).sendAll ms).filter Sent.isOrderedAck =
      Accept.orderedAcks id config.ballot accepts (List.range r.ordered.next) ∧
    ∀ m, let r' := (initial id config).handleAll (ms ++ [m])
      r.ordered.next ≤ r'.ordered.next ∧
      (r.step m).2.filter Sent.isOrderedAck =
        Accept.orderedAcks id config.ballot (accepts ++ m.accepts)
          (List.Ico r.ordered.next r'.ordered.next) := by
  intro accepts r
  have hleast : IsLeast {slot | Accept.first? config.ballot accepts slot = none}
      r.ordered.next := by
    simpa [Accept.entry?] using (covers_handleAll hleader ms).isLeast
  refine ⟨hleast, ?_, sent_sendAll hleader ms, fun m => ⟨(reports_step hleader ms m).next_le, ?_⟩⟩
  · -- a slot that has executed has been accepted
    by_contra hlt
    have hready := (digests_handleAll hleader ms).ready _ (Nat.not_le.1 hlt)
    have haccepted := Option.isSome_of_isSome_bind hready.2
    have hnone : (Notice.ofMessages config.ballot ms r.ordered.next).accept? = none := hleast.1
    rw [hnone] at haccepted
    simp at haccepted
  · rw [sent_step hleader, List.flatMap_append, List.flatMap_singleton]

/-- Accepts that come out of order: one twice, one of a weak command, and one of another epoch. -/
def gapped : List ReplicaMessage :=
  [.accept ⟨4, ⟨1, 1⟩, 1, some (.get 1), false⟩,
    .accept ⟨4, ⟨1, 1⟩, 1, some (.get 1), false⟩,
    .batch ⟨[⟨4, ⟨2, 0⟩, 2, some ⟨.put, 1, ⟨[98]⟩⟩, true⟩,
      ⟨0, ⟨3, 0⟩, 0, some (.get 1), false⟩], []⟩,
    .commit ⟨4, 0⟩]

/-- The accept that fills the gap. -/
def filling : ReplicaMessage := .accept ⟨4, ⟨1, 0⟩, 0, some ⟨.put, 1, ⟨[97]⟩⟩, false⟩

/-- The accept of the first slot makes a replica say that both strong commands are ordered. -/
theorem ordered_acks_filling :
    (((initial 1 epochFour).handleAll gapped).step filling).2.filter Sent.isOrderedAck =
      [.toClient 1 (.recordAck ⟨1, 4, ⟨1, 0⟩, .ordered, none⟩),
        .toClient 1 (.recordAck ⟨1, 4, ⟨1, 1⟩, .ordered, none⟩)] := by
  have hleader : epochFour.isLeader 1 = false := rfl
  have hnone : ((initial 1 epochFour).handleAll gapped).ordered.next = 0 :=
    (ordered_acks hleader gapped).1.unique ⟨by decide, fun slot _ => Nat.zero_le slot⟩
  have hall : ((initial 1 epochFour).handleAll (gapped ++ [filling])).ordered.next = 3 := by
    refine (ordered_acks hleader (gapped ++ [filling])).1.unique ⟨by decide, fun slot hslot => ?_⟩
    by_contra hlt
    obtain rfl | rfl | rfl : slot = 0 ∨ slot = 1 ∨ slot = 2 := by lia
    all_goals exact absurd hslot (by decide)
  obtain ⟨-, -, -, hstep⟩ := ordered_acks hleader gapped
  rw [(hstep filling).2, hnone, hall]
  decide

end WitnessReplication.Replica
