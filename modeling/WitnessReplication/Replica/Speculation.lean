import WitnessReplication.Replica.Basic

/-!
# Speculation and witnessing

What a replica answers before a command commits, the writes that such an answer has to take into
account, and the record of the commands it has witnessed.

A client's own latest write is kept until a write of that client, to the same key and no earlier,
has executed.
-/

namespace WitnessReplication.Replica

/-- The client's own pending write that a command of it has to see. -/
def ownWrite? (r : Replica) (id : CommandId) (key : Key) : Option Value :=
  match r.pendingWrites[ClientKey.mk id.client key]? with
  | some write => if write.seq < id.seq then some write.value else none
  | none => none

/-- The pending weak write that a strong read may be answered from. -/
def weakWrite? (r : Replica) (strong : Bool) (key : Key) : Option Value :=
  if strong && r.config.speculativeReads then (r.witness.weakWrite key).map Prod.snd else none

/-- The tentative result of a command. -/
def speculate (r : Replica) (id : CommandId) (c : Command) (strong : Bool) : Value :=
  match c.op with
  | .put => .nil
  | .get => ((r.ownWrite? id c.key).or (r.weakWrite? strong c.key)).getD (r.store.result c)
  | _ => r.store.result c

/-- Remembers a write until it executes, unless a later one of its client is remembered. -/
def recordPending (r : Replica) (id : CommandId) (c : Command) : Replica :=
  let key : ClientKey := ⟨id.client, c.key⟩
  if !c.isWrite || r.pendingWrites[key]?.any fun write => decide (id.seq < write.seq) then r
  else { r with pendingWrites := r.pendingWrites.insert key ⟨id.seq, c.value⟩ }

/-- Forgets the remembered write once a write of its client that is no earlier has executed. -/
def clearPending (r : Replica) (id : CommandId) (c : Command) : Replica :=
  let key : ClientKey := ⟨id.client, c.key⟩
  if c.isWrite && r.pendingWrites[key]?.any fun write => decide (write.seq ≤ id.seq) then
    { r with pendingWrites := r.pendingWrites.erase key }
  else r

/-- Takes an executed command out of the witness of a replica that does not lead. -/
def retire (r : Replica) (id : CommandId) : Replica :=
  match r.witnessed[id]? with
  | none => r
  | some w =>
    { r with
      witnessed := r.witnessed.erase id
      witness := r.witness.retire id w.command w.strong }

/-- Witnesses a command at a replica that does not lead, and gives the verdict on it. A command
that has executed already is retired at once. -/
def recordWitness (r : Replica) (id : CommandId) (c : Command) (strong : Bool) :
    Replica × Witness.Verdict :=
  let recorded := r.witness.record id c strong
  let r := { r with
    witness := recorded.1
    witnessed := r.witnessed.insert id ⟨c, strong⟩ }
  (if r.values.contains id then r.retire id else r, recorded.2)

namespace OrderedPrefix

/-- Moves the prefix over every accepted slot that it has reached, and gives their commands. -/
def advance (o : OrderedPrefix) : OrderedPrefix × List (CommandId × Bool) :=
  match _ : o.accepted[o.next]? with
  | none => (o, [])
  | some entry =>
    let rest := advance ⟨o.next + 1, o.accepted.erase o.next⟩
    (rest.1, entry :: rest.2)
termination_by o.accepted.size
decreasing_by
  rename_i h
  have hmem : o.next ∈ o.accepted := Std.ExtTreeMap.mem_iff_isSome_getElem?.2 (by simp [h])
  have hpos : o.accepted.size ≠ 0 := by
    intro hzero
    have hempty : o.accepted = ∅ := Std.ExtTreeMap.eq_empty_iff_size_eq_zero.2 hzero
    simp [hempty] at hmem
  rw [Std.ExtTreeMap.size_erase]
  simp only [Std.ExtTreeMap.contains_iff_mem.2 hmem, if_true]
  omega

end OrderedPrefix

/-- Tells the client of a strong command that the command is ordered. -/
def orderedAck (r : Replica) (id : CommandId) : Effect :=
  .tell id.client (.recordAck ⟨r.id, r.config.ballot, id, .ordered, none⟩)

/-- Counts a slot as accepted, and tells the clients of the strong commands that the accepted
prefix newly covers. -/
def order (r : Replica) (slot : Slot) (id : CommandId) (weak : Bool) : Replica × List Effect :=
  if slot < r.ordered.next then (r, [])
  else
    let advanced :=
      OrderedPrefix.advance { r.ordered with accepted := r.ordered.accepted.insert slot (id, weak) }
    ({ r with ordered := advanced.1 },
      (advanced.2.filter fun entry => !entry.2).map fun entry => r.orderedAck entry.1)

end WitnessReplication.Replica
