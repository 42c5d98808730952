import WitnessReplication.Replica.Speculation

/-!
# Slots

An event is handed to the slot it names and carries that slot from proposal through acceptance
and commit to execution. Executed slots take no events, and messages of another epoch open no
slot.

A committed slot executes only after the slot before it. If that one is still under way, it is
marked as awaited, and when it executes, the awaiting slot is woken. `Replica.route` hands an
event to its slot and follows the chain of slots that become executable.

## Implementation notes

`Replica.claim` finds or opens the slot of an event and `Replica.process` handles the event at
the slot, so that the two can also happen at different times. Waking a chain of slots ends
because each slot that executes leaves the table of live slots, and waking opens none.
-/

namespace WitnessReplication.Replica

/-- The leader's opening of a slot for a command. -/
structure Proposal where
  id : CommandId
  command : Command
  weak : Bool
  /-- Whether the committed result goes to the client unasked. -/
  sync : Bool
  /-- Whether executing a weak command answers its client. -/
  reply : Bool
  /-- Whether a weak command is answered as a causal one. -/
  causal : Bool
  deriving DecidableEq, Repr

/-- What can happen to a slot; `wake` is the execution of the slot before it. -/
inductive Event where
  | propose (body : Proposal)
  | accept (body : Accept)
  | acceptAck (body : AcceptAck)
  | commit (body : Commit)
  | wake
  deriving DecidableEq, Repr

namespace Event

/-- The epoch of an event that came from another replica. -/
def ballot? : Event → Option Ballot
  | .accept m => some m.ballot
  | .acceptAck m => some m.ballot
  | .commit m => some m.ballot
  | .propose _ => none
  | .wake => none

/-- Whether an event is of an epoch other than `ballot`. -/
def isStale (e : Event) (ballot : Ballot) : Bool :=
  e.ballot?.any fun b => b ≠ ballot

end Event

/-- What handling an event did to its slot: nothing decisive, or the slot executed and may have
been awaited by the next one. -/
inductive Outcome where
  | pending
  | executed (awaited : Bool)
  deriving DecidableEq, Repr

/-- Replaces the record of a slot. -/
def putSlot (r : Replica) (slot : Slot) (s : LiveSlot) : Replica :=
  { r with live := r.live.insert slot s }

/-- Takes a slot out of those under way. -/
def dropSlot (r : Replica) (slot : Slot) : Replica :=
  { r with live := r.live.erase slot }

/-- Puts a slot under way that is not. -/
def openSlot (r : Replica) (slot : Slot) : Replica × List Effect :=
  if r.live.contains slot then (r, []) else (r.putSlot slot {}, [.opened slot])

/-- Finds the slot of an event, opening it if it is new. Stale events, and events of executed
slots, have none; being woken opens no slot. -/
def claim (r : Replica) (slot : Slot) (event : Event) :
    Option (Replica × LiveSlot × List Effect) :=
  if event.isStale r.config.ballot then none
  else
    match r.live[slot]? with
    | some s => some (r, s, [])
    | none =>
      if event = .wake ∨ r.isExecuted slot then none
      else
        let opened := r.openSlot slot
        some (opened.1, {}, opened.2)

/-- Marks a slot as committed. -/
def commitSlot (r : Replica) (slot : Slot) (s : LiveSlot) : Replica × LiveSlot × List Effect :=
  if s.phase = .commit then (r, s, [])
  else
    ({ r with committed := r.committed.insert slot }, { s with phase := .commit },
      [.committed slot])

/-- Commits a slot whose acknowledgements suffice, and tells the other replicas. -/
def commitAsLeader (r : Replica) (slot : Slot) (s : LiveSlot) :
    Replica × LiveSlot × List Effect :=
  let done := r.commitSlot slot s
  (done.1, done.2.1, .broadcast (.commit ⟨r.config.ballot, slot⟩) :: done.2.2)

/-- Begins the replication of a slot at the leader, which is the first to accept it. -/
def onPropose (r : Replica) (slot : Slot) (s : LiveSlot) (p : Proposal) :
    Replica × LiveSlot × List Effect :=
  let certificate : Quorum.Certificate AcceptAck :=
    .new .majority r.config.replicas r.config.leader false
  let counted := certificate.add r.id ⟨r.config.ballot, slot, r.id⟩
  let s := { s with
    id := some p.id
    command := some p.command
    weak := p.weak
    sync := p.sync
    reply := p.reply
    causal := p.causal
    accepted := true
    phase := if s.phase = .start then .accept else s.phase
    certificate := some counted.1 }
  if counted.2.isSome then r.commitAsLeader slot s else (r, s, [])

/-- Accepts a slot once, and acknowledges it. -/
def onAccept (r : Replica) (slot : Slot) (s : LiveSlot) (m : Accept) :
    Replica × LiveSlot × List Effect :=
  if s.accepted then (r, s, [])
  else
    let s := { s with
      accepted := true
      id := some m.id
      command := m.command.or s.command
      weak := m.weak
      phase := if s.phase = .start then .accept else s.phase }
    let ordered := r.order slot m.id m.weak
    (ordered.1, s, .acceptAck ⟨r.config.ballot, slot, r.id⟩ :: ordered.2)

/-- Counts an acknowledgement at the leader. -/
def onAcceptAck (r : Replica) (slot : Slot) (s : LiveSlot) (m : AcceptAck) :
    Replica × LiveSlot × List Effect :=
  match s.certificate with
  | none => (r, s, [])
  | some certificate =>
    let counted := certificate.add m.replica m
    let s := { s with certificate := some counted.1 }
    if counted.2.isSome then r.commitAsLeader slot s else (r, s, [])

/-- What an event does to its slot, execution aside. -/
def apply (r : Replica) (slot : Slot) (s : LiveSlot) : Event → Replica × LiveSlot × List Effect
  | .propose p => r.onPropose slot s p
  | .accept m => r.onAccept slot s m
  | .acceptAck m => r.onAcceptAck slot s m
  | .commit _ => r.commitSlot slot s
  | .wake => (r, s, [])

/-- The command of a slot that is committed and not applied, if it is known. -/
def LiveSlot.executable? (s : LiveSlot) : Option (CommandId × Command) :=
  if s.applied ∨ s.phase ≠ .commit then none
  else
    match s.id, s.command with
    | some id, some c => some (id, c)
    | _, _ => none

/-- Marks a slot as awaited by the next one, opening it if it is new. -/
def await (r : Replica) (slot : Slot) : Replica × List Effect :=
  let opened := r.openSlot slot
  let s := (opened.1.live[slot]?).getD {}
  (opened.1.putSlot slot { s with awaited := true }, opened.2)

/-- What the leader tells a client when a command executes. -/
def answers (r : Replica) (s : LiveSlot) (id : CommandId) (value : Value) (waiting : Bool) :
    List Effect :=
  if !r.isLeader then []
  else if s.weak then if s.reply then [r.weakReply id value s.causal] else []
  else if s.sync || waiting then [r.syncReply id value] else []

/-- Applies the command of a slot to the store and settles all that waited for it. -/
def execute (r : Replica) (slot : Slot) (s : LiveSlot) (id : CommandId) (c : Command) :
    Replica × List Effect :=
  let applied := r.store.execute c
  let waiting := r.syncWaiters.contains id
  let r := { r.putSlot slot { s with applied := true } with
    store := applied.1
    values := r.values.insert id applied.2 }
  let r := if r.witness.isLeader then { r with witness := r.witness.release slot id c (!s.weak) }
    else r.retire id
  let r := r.clearPending id c
  let r := { r with
    weakExecuted :=
      if s.weak then
        r.weakExecuted.insert id.client (max id.seq ((r.weakExecuted[id.client]?).getD id.seq))
      else r.weakExecuted
    executed := slot + 1
    committed := r.committed.erase slot
    syncWaiters := if r.isLeader && !s.weak then r.syncWaiters.erase id else r.syncWaiters }
  (r, .executed slot :: (if s.weak then [.weakExecuted id.client] else []) ++
    r.answers s id applied.2 waiting)

/-- Executes a slot if it is committed, its command is known and the slot before it has executed.
If only the slot before it is missing, that one is marked as awaited. -/
def advance (r : Replica) (slot : Slot) (s : LiveSlot) : Replica × List Effect × Outcome :=
  match s.executable? with
  | none => (r, [], .pending)
  | some (id, c) =>
    if 0 < slot ∧ ¬r.isExecuted (slot - 1) then
      let parked := r.await (slot - 1)
      (parked.1, parked.2, .pending)
    else
      let done := r.execute slot s id c
      (done.1.dropSlot slot, done.2, .executed s.awaited)

/-- Handles an event at its slot. -/
def process (r : Replica) (slot : Slot) (s : LiveSlot) (event : Event) :
    Replica × List Effect × Outcome :=
  if s.applied then (r, [], .pending)
  else
    let applied := r.apply slot s event
    let s := applied.2.1
    let advanced := (applied.1.putSlot slot s).advance slot s
    (advanced.1, applied.2.2 ++ advanced.2.1, advanced.2.2)

@[simp] theorem live_putSlot (r : Replica) (slot : Slot) (s : LiveSlot) :
    (r.putSlot slot s).live = r.live.insert slot s := rfl

@[simp] theorem live_dropSlot (r : Replica) (slot : Slot) :
    (r.dropSlot slot).live = r.live.erase slot := rfl

/-- Retiring a command leaves the slots under way as they are. -/
@[simp] theorem live_retire (r : Replica) (id : CommandId) : (r.retire id).live = r.live := by
  unfold retire; split <;> rfl

/-- Forgetting a pending write leaves the slots under way as they are. -/
@[simp] theorem live_clearPending (r : Replica) (id : CommandId) (c : Command) :
    (r.clearPending id c).live = r.live := by
  unfold clearPending; dsimp only; split <;> rfl

/-- Execution marks its slot as applied and leaves the other slots as they are. -/
theorem live_execute (r : Replica) (slot : Slot) (s : LiveSlot) (id : CommandId) (c : Command) :
    (r.execute slot s id c).1.live = r.live.insert slot { s with applied := true } := by
  simp only [execute, live_clearPending]
  split <;> simp

/-- A slot that executes is no longer under way, and no other slot is touched. -/
theorem live_advance_executed {r r' : Replica} {slot : Slot} {s : LiveSlot} {effects : List Effect}
    {awaited : Bool} (h : r.advance slot s = (r', effects, .executed awaited)) :
    r'.live = (r.live.insert slot { s with applied := true }).erase slot := by
  unfold advance at h
  split at h
  · simp at h
  · dsimp only at h
    split at h
    · simp at h
    · simp only [Prod.mk.injEq] at h
      obtain ⟨rfl, -⟩ := h
      rw [live_dropSlot, live_execute]

/-- A slot that executes when it is woken is no longer under way. -/
theorem size_live_process_wake {r r' : Replica} {slot : Slot} {s : LiveSlot} {effects : List Effect}
    {awaited : Bool} (hs : r.live[slot]? = some s)
    (h : r.process slot s .wake = (r', effects, .executed awaited)) :
    r'.live.size < r.live.size := by
  have hmem : slot ∈ r.live := Std.ExtTreeMap.mem_iff_isSome_getElem?.2 (by simp [hs])
  have hpos : r.live.size ≠ 0 := by
    intro hzero
    have hempty : r.live = ∅ := Std.ExtTreeMap.eq_empty_iff_size_eq_zero.2 hzero
    simp [hempty] at hmem
  unfold process at h
  split at h
  · simp at h
  · simp only [apply, Prod.mk.injEq] at h
    have hlive : r'.live =
        ((r.putSlot slot s).live.insert slot { s with applied := true }).erase slot :=
      live_advance_executed (Prod.ext h.1 (Prod.ext rfl h.2.2))
    rw [hlive, live_putSlot]
    rw [Std.ExtTreeMap.size_erase, Std.ExtTreeMap.size_insert, Std.ExtTreeMap.size_insert]
    simp [Std.ExtTreeMap.contains_iff_mem.2 hmem]
    omega

/-- Wakes a slot, and every slot that its execution makes executable in turn. -/
def wake (r : Replica) (slot : Slot) : Replica × List Effect :=
  match _ : r.live[slot]? with
  | none => (r, [])
  | some s =>
    match _ : r.process slot s .wake with
    | (r', effects, .executed true) =>
      let rest := r'.wake (slot + 1)
      (rest.1, effects ++ rest.2)
    | (r', effects, .executed false) => (r', effects)
    | (r', effects, .pending) => (r', effects)
termination_by r.live.size
decreasing_by exact size_live_process_wake (by assumption) (by assumption)

/-- Hands an event to its slot and wakes the slots that become executable. -/
def route (r : Replica) (slot : Slot) (event : Event) : Replica × List Effect :=
  match r.claim slot event with
  | none => (r, [])
  | some (r, s, opened) =>
    let processed := r.process slot s event
    match processed.2.2 with
    | .executed true =>
      let woken := processed.1.wake (slot + 1)
      (woken.1, opened ++ processed.2.1 ++ woken.2)
    | _ => (processed.1, opened ++ processed.2.1)

end WitnessReplication.Replica
