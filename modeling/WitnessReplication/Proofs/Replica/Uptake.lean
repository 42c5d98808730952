import WitnessReplication.Proofs.Replica.Frames
import WitnessReplication.Proofs.Tables

/-!
# What an event does at a slot

An event changes the record of its slot, and makes the replica do something. Of the rest of the
replica it may commit the slot, and count it as accepted. What it does depends on the record, and
on which replica of which cluster this is, but on nothing else: it is an `Uptake`, which comes of
`Uptake.ofEvent`. `apply_eq` says that slots take events so.
-/

namespace WitnessReplication.Replica

/-- Counts a slot as accepted, if it newly is, and gives the commands that the prefix newly
covers. -/
def OrderedPrefix.note (o : OrderedPrefix) (slot : Slot) :
    Option (CommandId × Bool) → OrderedPrefix × List (CommandId × Bool)
  | none => (o, [])
  | some entry =>
    if slot < o.next then (o, [])
    else advance { o with accepted := o.accepted.insert slot entry }

@[simp] theorem OrderedPrefix.note_none (o : OrderedPrefix) (slot : Slot) :
    o.note slot none = (o, []) := rfl

/-- Tells the clients of the strong commands among those that are newly covered. -/
def orderedAcks (r : Replica) (entries : List (CommandId × Bool)) : List Effect :=
  (entries.filter fun entry => !entry.2).map fun entry => r.orderedAck entry.1

/-- What an event does at a slot: the record that it leaves, what it makes the replica do, whether
it commits the slot, and the command, if it is the one that the slot accepts. -/
structure Uptake where
  record : LiveSlot
  effects : List Effect := []
  commits : Bool := false
  counted? : Option (CommandId × Bool) := none

namespace Uptake

/-- A slot is committed, unless it was. -/
def commit (slot : Slot) (s : LiveSlot) : Uptake where
  record := { s with phase := .commit }
  effects := if s.phase = .commit then [] else [.committed slot]
  commits := s.phase ≠ .commit

/-- A slot is committed by the leader, which tells the other replicas. -/
def lead (ballot : Ballot) (slot : Slot) (s : LiveSlot) : Uptake :=
  { commit slot s with
    effects := .broadcast (.commit ⟨ballot, slot⟩) :: (commit slot s).effects }

/-- What an event does at a slot of a replica of a cluster. -/
def ofEvent (id : ReplicaId) (config : Config) (slot : Slot) (s : LiveSlot) : Event → Uptake
  | .propose p =>
    let certificate : Quorum.Certificate AcceptAck :=
      .new .majority config.replicas config.leader false
    let counted := certificate.add id ⟨config.ballot, slot, id⟩
    let s := { s with
      id := some p.id
      command := some p.command
      weak := p.weak
      sync := p.sync
      reply := p.reply
      causal := p.causal
      accepted := true
      phase := if s.phase = .start then .accept else s.phase
      certificate := some counted.1 }
    if counted.2.isSome then lead config.ballot slot s else { record := s }
  | .accept m =>
    if s.accepted then { record := s }
    else
      { record := { s with
          accepted := true
          id := some m.id
          command := m.command.or s.command
          weak := m.weak
          phase := if s.phase = .start then .accept else s.phase }
        effects := [.acceptAck ⟨config.ballot, slot, id⟩]
        counted? := some (m.id, m.weak) }
  | .acceptAck m =>
    match s.certificate with
    | none => { record := s }
    | some certificate =>
      let counted := certificate.add m.replica m
      let s := { s with certificate := some counted.1 }
      if counted.2.isSome then lead config.ballot slot s else { record := s }
  | .commit _ => commit slot s
  | .wake => { record := s }

/-- A replica of which a slot has taken an event that does this. -/
def after (u : Uptake) (r : Replica) (slot : Slot) : Replica :=
  { r with
    committed := if u.commits then r.committed.insert slot else r.committed
    ordered := (r.ordered.note slot u.counted?).1 }

/-- What the replica does then. -/
def emits (u : Uptake) (r : Replica) (slot : Slot) : List Effect :=
  u.effects ++ r.orderedAcks (r.ordered.note slot u.counted?).2

/-- Only a slot that newly accepts a command is counted. -/
theorem accepted_of_counted? {id : ReplicaId} {config : Config} {slot : Slot} {s : LiveSlot}
    {event : Event} (h : (ofEvent id config slot s event).counted?.isSome = true) :
    s.accepted = false ∧ (ofEvent id config slot s event).record.accepted = true := by
  cases event with
  | propose p =>
      simp only [ofEvent] at h
      split at h <;> simp [lead, commit] at h
  | accept m =>
      simp only [ofEvent] at h ⊢
      split
      · rename_i haccepted
        rw [if_pos haccepted] at h
        simp at h
      · rename_i haccepted
        exact ⟨by simpa using haccepted, rfl⟩
  | acceptAck m =>
      simp only [ofEvent] at h
      split at h
      · simp at h
      · split at h <;> simp [lead, commit] at h
  | commit m => simp [ofEvent, commit] at h
  | wake => simp [ofEvent] at h

/-- A slot that has accepted a command goes on to have accepted it. -/
theorem accepted_ofEvent {id : ReplicaId} {config : Config} {slot : Slot} {s : LiveSlot}
    (event : Event) (h : s.accepted = true) :
    (ofEvent id config slot s event).record.accepted = true := by
  cases event with
  | propose p =>
      simp only [ofEvent]
      split <;> rfl
  | accept m => simp [ofEvent, h]
  | acceptAck m =>
      simp only [ofEvent]
      split
      · exact h
      · split <;> exact h
  | commit m => exact h
  | wake => exact h

end Uptake

theorem commitSlot_eq (r : Replica) (slot : Slot) (s : LiveSlot) : r.commitSlot slot s =
    ((Uptake.commit slot s).after r slot, (Uptake.commit slot s).record,
      (Uptake.commit slot s).emits r slot) := by
  unfold commitSlot
  split
  · rename_i hphase
    have hrecord : { s with phase := .commit } = s := by rw [← hphase]
    simp [Uptake.after, Uptake.emits, Uptake.commit, orderedAcks, hphase, hrecord]
  · rename_i hphase
    simp [Uptake.after, Uptake.emits, Uptake.commit, orderedAcks, hphase]

theorem commitAsLeader_eq (r : Replica) (slot : Slot) (s : LiveSlot) : r.commitAsLeader slot s =
    ((Uptake.lead r.config.ballot slot s).after r slot,
      (Uptake.lead r.config.ballot slot s).record,
      (Uptake.lead r.config.ballot slot s).emits r slot) := by
  rw [commitAsLeader, commitSlot_eq]
  rfl

theorem kept_eq (r : Replica) (slot : Slot) (s : LiveSlot) : (r, s, []) =
    (({ record := s } : Uptake).after r slot, s, ({ record := s } : Uptake).emits r slot) := by
  simp [Uptake.after, Uptake.emits, orderedAcks]

/-- A slot takes an event by what the event does there. -/
theorem apply_eq (r : Replica) (slot : Slot) (s : LiveSlot) (event : Event) :
    r.apply slot s event =
      ((Uptake.ofEvent r.id r.config slot s event).after r slot,
        (Uptake.ofEvent r.id r.config slot s event).record,
        (Uptake.ofEvent r.id r.config slot s event).emits r slot) := by
  cases event with
  | propose p =>
      simp only [apply, onPropose, Uptake.ofEvent]
      split
      · exact commitAsLeader_eq ..
      · exact kept_eq ..
  | accept m =>
      simp only [apply, onAccept, Uptake.ofEvent]
      split
      · exact kept_eq ..
      · simp only [order, Uptake.after, Uptake.emits, OrderedPrefix.note, orderedAcks]
        split
        · rfl
        · rfl
  | acceptAck m =>
      cases hcertificate : s.certificate with
      | none =>
          simp only [apply, onAcceptAck, Uptake.ofEvent, hcertificate]
          exact kept_eq ..
      | some certificate =>
          simp only [apply, onAcceptAck, Uptake.ofEvent, hcertificate]
          split
          · exact commitAsLeader_eq ..
          · exact kept_eq ..
  | commit m => exact commitSlot_eq ..
  | wake => exact kept_eq ..

/-- A slot may take an event before another one executes, or after. -/
theorem Uptake.execute_after (u : Uptake) (r : Replica) {slot other : Slot} (hne : slot ≠ other)
    (s : LiveSlot) (id : CommandId) (c : Command) :
    ((u.after r slot).execute other s id c).1 = u.after (r.execute other s id c).1 slot := by
  have hretire := congrArg Replica.witness (r.retire_eq id (u.after r slot) rfl rfl)
  have hclear := congrArg Replica.pendingWrites (r.clearPending_eq id c (u.after r slot) rfl)
  have hcommitted : (u.after r slot).committed.erase other =
      if u.commits then (r.committed.erase other).insert slot else r.committed.erase other := by
    cases hcommits : u.commits with
    | false => simp [Uptake.after, hcommits]
    | true => simp [Uptake.after, hcommits, Tables.set_insert_erase r.committed hne]
  rw [execute_eq, execute_eq, hretire, hclear, hcommitted]
  rfl

end WitnessReplication.Replica
