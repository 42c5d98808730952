import WitnessReplication.Proofs.Freshness
import WitnessReplication.Proofs.Network.Issuing
import WitnessReplication.Proofs.Network.Remembering

/-!
# Strong reads of a client's own writes

A strong read that a client issues after its own strong write of the key has completed returns
that write or one in a later slot, on either path. On the slow path that is the log's result. On
the fast path the leader answers from the write that it remembers for the client, from the latest
weak write, or from its store. It covers the client's write when the read gets its slot: either
it still remembers that write, or it has executed it, and then whatever else it remembers is in a
later slot.
-/

namespace WitnessReplication

/-- A value is that of a write, or it was written to the same key in a later slot. -/
def Log.NoOlder (log : Log) (slotPut : Slot) (put : Request) (value : Value) : Prop :=
  value = put.command.value ∨ ∃ slot q, slotPut < slot ∧ log.request? slot = some q ∧
    q.command.Writes put.command.key value

theorem Log.NoOlder.mono {log log' : Log} {slotPut : Slot} {put : Request} {value : Value}
    (h : log.NoOlder slotPut put value) (hlog : log <+: log') : log'.NoOlder slotPut put value :=
  h.imp_right fun ⟨slot, q, hlt, hq, hwrites⟩ => ⟨slot, q, hlt, Log.request?_mono hlog hq, hwrites⟩

/-- A value written from a slot on is that slot's or later. -/
theorem Log.WrittenSince.noOlder {log : Log} {slotPut : Slot} {put : Request} {value : Value}
    (h : log.WrittenSince slotPut put.command.key value) (hput : log.request? slotPut = some put) :
    log.NoOlder slotPut put value := by
  obtain ⟨slot, q, hle, hq, hwrites⟩ := h
  rcases Nat.lt_or_eq_of_le hle with hlt | rfl
  · exact .inr ⟨slot, q, hlt, hq, hwrites⟩
  · obtain rfl : q = put := Option.some.inj (hq.symm.trans hput)
    left
    rw [hwrites]

namespace Replica

variable {log : Log} {leader : Replica} {put : Request} {id : CommandId} {c : Command}

/-- A leader that covers the latest write of a client to a key answers a strong read of that
client with that write or a later one. -/
theorem Leads.speculate_own (h : leader.Leads log) (hcovers : leader.Covers log put)
    {slotPut : Slot} (hput : log.request? slotPut = some put)
    (hwrite : put.command.isWrite = true) (hop : c.op = .get) (hkey : c.key = put.command.key)
    (hclient : id.client = put.id.client) (hseq : put.id.seq < id.seq)
    (hlast : ∀ slot q, log.request? slot = some q → q.id.client = put.id.client →
      q.command.isWrite = true → q.command.key = put.command.key → put.id.seq ≤ q.id.seq →
        slot = slotPut) :
    log.NoOlder slotPut put (leader.speculate id c true) := by
  have hanswer := h.speculate_get id hop
  rw [hkey] at hanswer
  rcases hcovers with ⟨write, hkept, hle⟩ | ⟨slot, q, hq, hexec, hsame, hqkey, hqwrite, hle⟩
  · -- what the leader remembers is the write itself
    left
    obtain ⟨slot, q, hq, -, hid, hwrites⟩ := h.pending_sound hkept
    obtain rfl := hlast slot q hq (by rw [hid]) (by rw [hwrites]; rfl) (by rw [hwrites])
      (by rw [hid]; exact hle)
    obtain rfl : q = put := Option.some.inj (hq.symm.trans hput)
    have hseq' : write.seq < id.seq := by
      have hwseq : q.id.seq = write.seq := congrArg CommandId.seq hid
      exact hwseq ▸ hseq
    have hown : leader.ownWrite? id q.command.key = some write.value := by
      simp [ownWrite?, hclient, hkept, hseq']
    rw [hanswer, pendingWrite?, hown, hwrites]
    rfl
  · -- the leader has executed the write, and remembers only later ones
    obtain rfl := hlast slot q hq hsame hqwrite hqkey hle
    cases hpending : leader.pendingWrite? id put.command.key with
    | some value =>
        obtain ⟨later, q', hq', hawaits, hwrites⟩ := h.pendingWrite_awaits hpending
        rw [hanswer, hpending]
        exact .inr ⟨later, q', Nat.lt_of_lt_of_le hexec hawaits, hq', hwrites⟩
    | none =>
        rw [hanswer, hpending, Option.getD_none]
        refine Log.WrittenSince.noOlder ?_ hput
        rw [← hkey]
        exact Log.writtenSince_result hput hwrite hexec h.executed_le hop hkey

end Replica

namespace History

variable {config : Config} {bounds : List ReplicaId} {h : History}

/-- Let a client's strong write of a key have completed when the client issues a strong read of
that key, and let the client issue no later write of the key before the read completes. Then the
read returns that write, or a write of the key in a later slot. -/
theorem read_own_write (hh : h.Reachable config bounds) {actions : List Network.Action}
    {put get : Request} {value : Value} {path : Path}
    (hr : h.ReadsAfter (h.run actions) put get value path) (hop : get.command.op = .get)
    (hkey : get.command.key = put.command.key) (hclient : get.id.client = put.id.client)
    (hlast : ∀ q ∈ (h.run actions).issued, q.id.client = put.id.client →
      q.command.isWrite = true → q.command.key = put.command.key → q.id.seq ≤ put.id.seq) :
    ∃ slotPut, (h.run actions).log.request? slotPut = some put ∧
      (h.run actions).log.NoOlder slotPut put value := by
  obtain ⟨slotPut, slotGet, a, hput, ha, rfl, hlt, hleads, hvalue⟩ := hr.slots hh
  have hs := (hh.run actions).sound
  have htake := List.take_prefix slotGet (h.run actions).log
  refine ⟨slotPut, hput, ?_⟩
  rcases hvalue with ⟨-, rfl, -⟩ | ⟨-, rfl⟩
  · obtain ⟨c, hc, rfl⟩ := Chronicle.exists_reachable hh
    obtain ⟨_, _, hissued, -⟩ := hr.put_done
    have hget := hs.records.request_issued (Log.request?_of_getElem? ha)
    have hremembered := (hc.run actions).remembered.assigned slotGet a
    rw [← Chronicle.toHistory_run] at hget ha hput hs htake hleads hlast ⊢
    have hseq := hc.seq_lt_of_new hissued hr.read_new hget hclient.symm
    have hcovers := hremembered ha slotPut put hlt hput hr.put_writes
    have hputTaken := (Log.request?_take hlt).trans hput
    refine Log.NoOlder.mono ?_ htake
    refine hleads.speculate_own hcovers hputTaken hr.put_writes hop hkey hclient hseq ?_
    intro slot q hq hqclient hqwrite hqkey hle
    have hq := Log.request?_mono htake hq
    have hqissued := hs.records.request_issued hq
    have hqle := hlast q hqissued hqclient hqwrite hqkey
    have hid := CommandId.eq_of_seq_eq hqclient (Nat.le_antisymm hqle hle)
    exact hs.records.slot_unique hq hput hid
      (hs.records.issued_unique hqissued (hs.records.request_issued hput) hid ▸ hr.put_strong)
  · have hread : a.command.isWrite = false := by simp [Command.isWrite, hop]
    rw [Store.execute_of_not_isWrite _ hread]
    refine Log.WrittenSince.noOlder ?_ hput
    rw [← hkey]
    exact Log.writtenSince_result hput hr.put_writes hlt
      (Nat.le_of_lt (List.getElem?_eq_some_iff.1 ha).1) hop hkey

/-- Client 1 itself reads key 1, which the leader clears, and so does the other replica. -/
def getOwn : List Network.Action :=
  [.propose 0 (.get 1), .deliver 6, .deliver 7, .deliver 7, .deliver 8]

theorem read_own_write_pair :
    ∃ slotPut, ((pair.run writeBehind).run getOwn).log.request? slotPut =
        some ⟨⟨1, 1⟩, ⟨.put, 1, ⟨[118]⟩⟩, false⟩ ∧
      ((pair.run writeBehind).run getOwn).log.NoOlder slotPut
        ⟨⟨1, 1⟩, ⟨.put, 1, ⟨[118]⟩⟩, false⟩ ⟨[118]⟩ := by
  have hr : (pair.run writeBehind).ReadsAfter ((pair.run writeBehind).run getOwn)
      ⟨⟨1, 1⟩, ⟨.put, 1, ⟨[118]⟩⟩, false⟩ ⟨⟨1, 2⟩, .get 1, false⟩ ⟨[118]⟩ .fast :=
    ⟨rfl, rfl, ⟨.nil, .fast, by decide +kernel, by decide +kernel⟩, rfl, by decide +kernel,
      by decide +kernel, by decide +kernel⟩
  exact read_own_write (reachable_pair.run writeBehind) hr rfl rfl rfl (by decide +kernel)

end History

end WitnessReplication
