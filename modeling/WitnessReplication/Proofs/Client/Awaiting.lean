import WitnessReplication.Client
import WitnessReplication.Proofs.Network.Chronicle

/-!
# Awaiting commands

A client awaits a command from the moment in which it issues that until a message completes it,
and awaits nothing else. Only a reply to a weak command completes one, on a path of its own, and a
causal reply only from the replica that the client listens to.
-/

namespace WitnessReplication

/-- A client and a position name one command. -/
theorem CommandId.eq_of_seq_eq {id id' : CommandId} (hclient : id.client = id'.client)
    (hseq : id.seq = id'.seq) : id = id' := by
  cases id
  cases id'
  simp_all

namespace Client

/-- A client waits for a command to complete. -/
def Awaits (c : Client) (id : CommandId) : Prop := id ∈ c.pending ∨ id ∈ c.weak

/-- What a message makes a client do accounts for a command: the client still awaits it, or has
completed it. -/
def Reaction.Accounts (id : CommandId) (reaction : Reaction) : Prop :=
  reaction.client.Awaits id ∨ ∃ done, reaction.completion = some done ∧ done.id = id

variable {c : Client} {id : CommandId}

theorem not_awaits_of_inFlight (h : c.inFlight = 0) : ¬c.Awaits id := by
  obtain ⟨hpending, hweak⟩ := Nat.add_eq_zero_iff.1 h
  rw [← Std.ExtTreeMap.eq_empty_iff_size_eq_zero] at hpending
  rw [← Std.ExtTreeSet.eq_empty_iff_size_eq_zero] at hweak
  simp [Awaits, hpending, hweak]

theorem awaits_issue (c : Client) (weak : Bool) (command : Command) :
    (c.issue weak command).1.Awaits (c.issue weak command).2.1 := by
  cases weak with
  | false => exact .inl (by simp [issue, propose])
  | true => exact .inr (by simp [issue, proposeWeak])

theorem Awaits.issue (h : c.Awaits id) (weak : Bool) (command : Command) :
    (c.issue weak command).1.Awaits id := by
  cases weak with
  | false => exact h.imp_left fun hmem => by simp [Client.issue, propose, hmem]
  | true => exact h.imp_right fun hmem => by simp [Client.issue, proposeWeak, hmem]

theorem Awaits.escalate (h : c.Awaits id) (id' : CommandId) (p : Pending) :
    (c.escalate id' p).Accounts id := by
  unfold Client.escalate
  split
  · exact .inl (h.imp_left fun hmem => by simp [hmem])
  · exact .inl (h.imp_left fun hmem => by simp [hmem])

theorem Awaits.update (h : c.Awaits id) (id' : CommandId)
    (count : Pending → Pending × Decision) : (c.update id' count).Accounts id := by
  unfold Client.update
  split
  · exact .inl h
  · dsimp only
    split
    · exact .inl (h.imp_left fun hmem => by simp [hmem])
    · exact h.escalate id' _
    · by_cases hid : id' = id
      · exact .inr ⟨_, rfl, hid⟩
      · exact .inl (h.imp_left fun hmem => by simp [Std.ExtTreeMap.mem_erase, hid, hmem])

theorem Awaits.completeWeak (h : c.Awaits id) (m : WeakReply) :
    (c.completeWeak m).Accounts id := by
  unfold Client.completeWeak
  split
  · by_cases hid : m.id = id
    · exact .inr ⟨_, rfl, hid⟩
    · exact .inl (h.imp_right fun hmem => by simp [Std.ExtTreeSet.mem_erase, hid, hmem])
  · exact .inl h

/-- A client awaits a command until it completes. -/
theorem Awaits.handle (h : c.Awaits id) (m : ClientMessage) : (c.handle m).Accounts id := by
  cases m with
  | reply m => exact h.update m.id _
  | syncReply m => exact h.update m.id _
  | recordAck m =>
      unfold Client.handle
      dsimp only
      split
      · exact .inl h
      · exact h.update m.id _
  | weakReply m => exact h.completeWeak m
  | causalReply m =>
      unfold Client.handle
      dsimp only
      split
      · exact h.completeWeak m
      · exact .inl h

/-! ### Nothing else is awaited -/

theorem of_awaits_issue {weak : Bool} {command : Command}
    (h : (c.issue weak command).1.Awaits id) : id = (c.issue weak command).2.1 ∨ c.Awaits id := by
  cases weak with
  | false =>
      rcases h with h | h
      · rcases Std.ExtTreeMap.mem_insert.1 h with heq | h
        · exact .inl (Std.LawfulEqOrd.eq_of_compare heq).symm
        · exact .inr (.inl h)
      · exact .inr (.inr h)
  | true =>
      rcases h with h | h
      · exact .inr (.inl h)
      · rcases Std.ExtTreeSet.mem_insert.1 h with heq | h
        · exact .inl (Std.LawfulEqOrd.eq_of_compare heq).symm
        · exact .inr (.inr h)

theorem of_awaits_update {id' : CommandId} {count : Pending → Pending × Decision}
    (h : (c.update id' count).client.Awaits id) : c.Awaits id := by
  unfold update at h
  split at h
  · exact h
  · rename_i p hp
    have hmem : id' ∈ c.pending := Std.ExtTreeMap.mem_iff_isSome_getElem?.2 (by simp [hp])
    have hput : ∀ p', id ∈ c.pending.insert id' p' → id ∈ c.pending := by
      intro p' hin
      rcases Std.ExtTreeMap.mem_insert.1 hin with heq | hin
      · exact Std.LawfulEqOrd.eq_of_compare heq ▸ hmem
      · exact hin
    dsimp only at h
    split at h
    · exact h.imp_left (hput _)
    · unfold escalate at h
      split at h
      · exact h.imp_left (hput _)
      · exact h.imp_left (hput _)
    · exact h.imp_left Std.ExtTreeMap.mem_of_mem_erase

theorem of_awaits_completeWeak {m : WeakReply} (h : (c.completeWeak m).client.Awaits id) :
    c.Awaits id := by
  unfold completeWeak at h
  split at h
  · exact h.imp_right Std.ExtTreeSet.mem_of_mem_erase
  · exact h

theorem of_awaits_handle {m : ClientMessage} (h : (c.handle m).client.Awaits id) :
    c.Awaits id := by
  cases m with
  | reply m => exact of_awaits_update h
  | syncReply m => exact of_awaits_update h
  | recordAck m =>
      unfold handle at h
      dsimp only at h
      split at h
      · exact h
      · exact of_awaits_update h
  | weakReply m => exact of_awaits_completeWeak h
  | causalReply m =>
      unfold handle at h
      dsimp only at h
      split at h
      · exact of_awaits_completeWeak h
      · exact h

/-! ### Which replica is listened to -/

theorem bound_issue (c : Client) (weak : Bool) (command : Command) :
    (c.issue weak command).1.bound = c.bound := by
  cases weak <;> rfl

theorem bound_update (c : Client) (id : CommandId) (count : Pending → Pending × Decision) :
    (c.update id count).client.bound = c.bound := by
  unfold update
  split
  · rfl
  · dsimp only
    split
    · rfl
    · unfold escalate
      split <;> rfl
    · rfl

theorem bound_completeWeak (c : Client) (m : WeakReply) :
    (c.completeWeak m).client.bound = c.bound := by
  unfold completeWeak
  split <;> rfl

/-- A client goes on listening to the same replica. -/
theorem bound_handle (c : Client) (m : ClientMessage) : (c.handle m).client.bound = c.bound := by
  cases m with
  | reply m => exact c.bound_update m.id _
  | syncReply m => exact c.bound_update m.id _
  | recordAck m =>
      unfold handle
      dsimp only
      split
      · rfl
      · exact c.bound_update m.id _
  | weakReply m => exact c.bound_completeWeak m
  | causalReply m =>
      unfold handle
      dsimp only
      split
      · exact c.bound_completeWeak m
      · rfl

/-! ### The path of a completion -/

theorem path_update {count : Pending → Pending × Decision} {done : Completion}
    (hcount : ∀ p value path, (count p).2 = .complete value path → path ≠ .weak)
    (h : (c.update id count).completion = some done) : done.path ≠ .weak := by
  unfold update at h
  split at h
  · simp at h
  · dsimp only at h
    split at h
    · simp at h
    · unfold escalate at h
      split at h <;> simp at h
    · rename_i p hp value path hdone
      obtain rfl := Option.some.inj h
      exact hcount _ value path hdone

theorem path_onReply {p : Pending} {m : Reply} {value : Value} {path : Path}
    (h : (p.onReply m).2 = .complete value path) : path ≠ .weak := by
  unfold Pending.onReply at h
  dsimp only at h
  split at h
  · split at h
    · obtain ⟨-, rfl⟩ := Decision.complete.inj h
      simp
    · simp at h
  · split at h <;> simp at h

theorem path_onSyncReply {p : Pending} {m : Reply} {value : Value} {path : Path}
    (h : (p.onSyncReply m).2 = .complete value path) : path ≠ .weak := by
  unfold Pending.onSyncReply at h
  dsimp only at h
  split at h
  · obtain ⟨-, rfl⟩ := Decision.complete.inj h
    simp
  · simp at h

theorem path_onRecordAck {p : Pending} {m : RecordAck} {value : Value} {path : Path}
    (h : (p.onRecordAck m).2 = .complete value path) : path ≠ .weak := by
  unfold Pending.onRecordAck at h
  dsimp only at h
  split at h
  · obtain ⟨-, rfl⟩ := Decision.complete.inj h
    simp
  · obtain ⟨-, rfl⟩ := Decision.complete.inj h
    simp
  · simp at h
  · simp at h

/-- Only an awaited weak command completes on the weak path, with a reply that the client takes. -/
theorem completion_weak {m : ClientMessage} {done : Completion}
    (h : (c.handle m).completion = some done) (hpath : done.path = .weak) :
    ∃ a : WeakReply, done = ⟨a.id, a.value, .weak⟩ ∧ a.id ∈ c.weak ∧
      (m = .weakReply a ∨ m = .causalReply a ∧ a.replica = c.bound) := by
  have hreply : ∀ a : WeakReply, (c.completeWeak a).completion = some done →
      done = ⟨a.id, a.value, .weak⟩ ∧ a.id ∈ c.weak := by
    intro a ha
    unfold completeWeak at ha
    split at ha
    · rename_i hmem
      exact ⟨(Option.some.inj ha).symm, Std.ExtTreeSet.contains_iff_mem.1 hmem⟩
    · simp at ha
  cases m with
  | reply m => exact absurd hpath (path_update (fun _ _ _ => path_onReply) h)
  | syncReply m => exact absurd hpath (path_update (fun _ _ _ => path_onSyncReply) h)
  | recordAck m =>
      unfold handle at h
      dsimp only at h
      split at h
      · simp at h
      · exact absurd hpath (path_update (fun _ _ _ => path_onRecordAck) h)
  | weakReply a =>
      obtain ⟨hdone, hmem⟩ := hreply a h
      exact ⟨a, hdone, hmem, .inl rfl⟩
  | causalReply a =>
      unfold handle at h
      dsimp only at h
      split at h
      · rename_i hbound
        obtain ⟨hdone, hmem⟩ := hreply a h
        exact ⟨a, hdone, hmem, .inr ⟨rfl, hbound⟩⟩
      · simp at h

end Client

end WitnessReplication
