import WitnessReplication.Proofs.Network.Answering
import WitnessReplication.Proofs.Network.Copies
import WitnessReplication.Proofs.Overlay
import WitnessReplication.Proofs.ReadYourWrites

/-!
# Weak reads of a client's own writes

Where every replica takes weak commands, a client's weak read completes with the answer of the
replica that the client listens to, given when the read arrives there. If the client waits for
each of its commands, then its latest weak write of the key has completed before that, so that it
has arrived at this replica: it is remembered there, or has executed there. What the replica
remembers for the client is not an earlier write, since all those arrived before.
-/

namespace WitnessReplication

namespace Replica

variable {log : Log} {r : Replica} {put : Request} {id : CommandId} {c : Command}

/-- A replica that covers the latest write of a client to a key and remembers no other one answers
a weak read of that client with that write or a later one. -/
theorem Follows.speculate_own (h : r.Follows log) (hcovers : r.Covers log put)
    (hwrite : put.command.isWrite = true) (hop : c.op = .get) (hkey : c.key = put.command.key)
    (hclient : id.client = put.id.client) (hseq : put.id.seq < id.seq)
    (hkept : ∀ write, r.pendingWrites[ClientKey.mk put.id.client put.command.key]? = some write →
      write = ⟨put.id.seq, put.command.value⟩)
    (hlast : ∀ slot q, log.request? slot = some q → q.id.client = put.id.client →
      q.command.isWrite = true → q.command.key = put.command.key → put.id.seq ≤ q.id.seq →
        q = put) :
    r.speculate id c false = put.command.value ∨ ∃ slotPut, log.request? slotPut = some put ∧
      log.NoOlder slotPut put (r.speculate id c false) := by
  cases hpending : r.pendingWrites[ClientKey.mk put.id.client put.command.key]? with
  | some write =>
      left
      obtain rfl := hkept write hpending
      simp [speculate, hop, hkey, ownWrite?, hclient, hpending, hseq]
  | none =>
      right
      rcases hcovers with ⟨write, hwrite, -⟩ | ⟨slot, q, hq, hexec, hsame, hqkey, hqwrite, hle⟩
      · rw [hpending] at hwrite
        simp at hwrite
      · obtain rfl := hlast slot q hq hsame hqwrite hqkey hle
        have hanswer : r.speculate id c false = (log.storeAt r.executed).result c := by
          simp [speculate, hop, hkey, ownWrite?, hclient, hpending, weakWrite?, h.store_eq]
        refine ⟨slot, hq, ?_⟩
        rw [hanswer]
        refine Log.WrittenSince.noOlder ?_ hq
        rw [← hkey]
        exact Log.writtenSince_result hq hwrite hexec h.executed_le hop hkey

end Replica

namespace Chronicle

open Network Replica

/-- A client's weak read of a key, and its latest write of that key before the read, a weak one. -/
structure ReadsOwn (c : Chronicle) (put get : Request) : Prop where
  put_issued : put ∈ c.issued
  put_weak : put.weak = true
  put_writes : put.command.isWrite = true
  get_issued : get ∈ c.issued
  get_weak : get.weak = true
  get_reads : get.command.op = .get
  key_eq : get.command.key = put.command.key
  client_eq : get.id.client = put.id.client
  seq_lt : put.id.seq < get.id.seq
  latest : ∀ q ∈ c.issued, q.id.client = put.id.client → q.command.isWrite = true →
    q.command.key = put.command.key → q.id.seq ≤ put.id.seq ∨ get.id.seq < q.id.seq

variable {config : Config} {bounds : List ReplicaId} {c c' : Chronicle} {place : Nat}
variable {i id : ReplicaId} {r : Replica} {m : ReplicaMessage} {q q' put get : Request}
variable {state : Replica → Prop}

/-! ### What has reached the replica that a client listens to -/

/-- A weak command that is about to be handled has not reached the replica before. -/
theorem ReachableBy.not_reached (hc : c.ReachableBy .weakOnce config bounds)
    (hweak : q.weak = true) (hm : .toReplica i m ∈ c.network.pool) (hq : m.request? = some q) :
    ¬c.Reached i q state := by
  rintro ⟨d, hd, hdi, hdm, -⟩
  have hnone := hc.copies_eq_zero hweak hm hq
  exact List.countP_eq_zero.1 hnone d hd (decide_eq_true ⟨hdi, hdm⟩)

/-- A weak command that has completed was answered by the replica that its client listens to. -/
theorem Reachable.answered_of_done (hc : c.Reachable config bounds)
    (hvariant : config.variant = .everyReplica) (hclient : q.id.client = place + 1)
    (hweak : q.weak = true) {value : Value} {path : Path} (hdone : c.Completed q value path) :
    ∃ i, bounds[place]? = some i ∧
      c.Reached i q fun r => value = r.speculate q.id q.command false := by
  obtain ⟨hq, hmem⟩ := hdone
  have hs := hc.history.sound
  obtain ⟨⟨command, hissued⟩, -⟩ := hs.completions _ hmem
  have hpath : path = .weak := by
    have hsame := hs.records.issued_unique hq hissued rfl
    rw [hsame] at hweak
    exact of_decide_eq_true hweak
  obtain ⟨place', client, hplace, hid, q', hq', -, hreached⟩ :=
    (hc.answered hvariant).completions _ hmem hpath
  obtain rfl : place' = place := Nat.succ.inj (hid.symm.trans hclient)
  obtain ⟨d, hd, -, hm, -⟩ := id hreached
  obtain rfl := hs.records.issued_unique ((hc.lasts d hd).request_issued q' hm) hq hq'
  refine ⟨client.bound, ?_, hreached⟩
  rw [← hc.bounds_eq, List.getElem?_map, hplace, Option.map_some]

/-- A weak command of a client that waits for each of its commands has arrived at the replica that
the client listens to if it is not the client's last one. -/
theorem ReachableBy.reached_earlier
    (hc : c.ReachableBy (.both .weakOnce (.sequential place)) config bounds)
    (hvariant : config.variant = .everyReplica) (hbound : bounds[place]? = some i)
    (hq : q ∈ c.issued) (hq' : q' ∈ c.issued) (hclient : q.id.client = place + 1)
    (hclient' : q'.id.client = place + 1) (hlt : q.id.seq < q'.id.seq) (hweak : q.weak = true) :
    c.Reached i q fun _ => True := by
  obtain ⟨done, hdone, hid⟩ := hc.right.sequential q hq q' hq' hclient hclient' hlt
  have hcompleted : c.Completed q done.value done.path := ⟨hq, hid ▸ hdone⟩
  obtain ⟨i', hbound', d, hd, hdi, hm, -⟩ :=
    hc.reachable.answered_of_done hvariant hclient hweak hcompleted
  obtain rfl : i' = i := Option.some.inj (hbound'.symm.trans hbound)
  exact ⟨d, hd, hdi, hm, trivial⟩

/-! ### What that replica remembers -/

/-- What a replica remembers of a client's writes to a key is no earlier than any weak write of the
client that has arrived there. -/
def Fresh (c : Chronicle) (i : ReplicaId) (client : ClientId) : Prop :=
  ∀ put : Request, put.id.client = client → put.weak = true → put.command.isWrite = true →
    c.Reached i put (fun _ => True) → ∀ r, c.network.replicas[i]? = some r → ∀ write,
      r.pendingWrites[ClientKey.mk client put.command.key]? = some write → put.id.seq ≤ write.seq

/-- Where every replica takes weak commands, it remembers the write of each. -/
theorem remembers_weak (hvariant : r.config.variant = .everyReplica) (hweak : q.weak = true) :
    r.remembers q = true := by
  simp [remembers, hvariant, hweak]

/-- A strong command that has completed has a slot, so that the leader does not take it up again. -/
theorem Handles.not_remembers (h : c.Handles id r m c') (hs : c.Sound config)
    (hstrong : q.weak = false) {value : Value} {path : Path} (hdone : c.Completed q value path) :
    r.remembers q = false := by
  obtain ⟨slot, a, ha, rfl, -⟩ := hs.strong_result hstrong hdone
  cases hleader : r.isLeader with
  | false => simp [remembers, hleader, hstrong]
  | true =>
      have hknown := ((h.attends hs).leads hleader).slots_complete (Log.request?_of_getElem? ha)
      simp [remembers, hleader, hstrong, hknown]

theorem ReachableBy.fresh_handles
    (hc : c.ReachableBy (.both .weakOnce (.sequential place)) config bounds)
    (hvariant : config.variant = .everyReplica) (hbound : bounds[place]? = some i)
    (h : c.Handles id r m c') (hf : c.Fresh i (place + 1)) : c'.Fresh i (place + 1) := by
  have hs := hc.reachable.history.sound
  have hattends := h.attends hs
  have hremembers : ∀ {q : Request}, q.weak = true → r.remembers q = true :=
    remembers_weak (by rw [hattends.config_eq, hvariant])
  intro put hclient hweak hput hreached r' hr' write hwrite
  rcases (h.reached_iff hs).1 hreached with hold | ⟨rfl, hm, -⟩
  · rcases h.replica_eq hr' with ⟨rfl, rfl⟩ | ⟨-, hr'⟩
    · rcases hattends.pendingWrites_of hwrite with hbefore | ⟨q, hm, hnew, -, hkey, rfl⟩
      · exact hf put hclient hweak hput hold r h.replica write hbefore
      · -- an earlier command of the client has completed, so that it is not taken up here
        refine Nat.le_of_not_lt fun hlt => ?_
        obtain ⟨d, hd, -, hdm, -⟩ := hold
        have hissued := (hc.reachable.lasts d hd).request_issued put hdm
        have hq := h.request_issued hs hm
        have hqclient : q.id.client = place + 1 := (ClientKey.mk.inj hkey).1.symm
        cases hqweak : q.weak with
        | true =>
            have hreached :=
              hc.reached_earlier hvariant hbound hq hissued hqclient hclient hlt hqweak
            exact hc.left.not_reached hqweak h.letter hm hreached
        | false =>
            obtain ⟨done, hdone, hid⟩ :=
              hc.right.sequential q hq put hissued hqclient hclient hlt
            have hcompleted : c.Completed q done.value done.path := ⟨hq, hid ▸ hdone⟩
            rw [h.not_remembers hs hqweak hcompleted] at hnew
            simp at hnew
    · exact hf put hclient hweak hput hold r' hr' write hwrite
  · rcases h.replica_eq hr' with ⟨-, rfl⟩ | ⟨hother, -⟩
    · rw [← hclient] at hwrite
      exact hattends.seq_le_of_new hm (hremembers hweak) hput hwrite
    · exact absurd rfl hother

theorem ReachableBy.fresh
    (hc : c.ReachableBy (.both .weakOnce (.sequential place)) config bounds)
    (hvariant : config.variant = .everyReplica) (hbound : bounds[place]? = some i) :
    c.Fresh i (place + 1) := by
  refine hc.induct (P := fun c => c.Fresh i (place + 1))
    (fun n hn put _ _ _ hreached => ?_) fun c c' action hc _ _ hturn hf => ?_
  · obtain ⟨d, hd, -⟩ := hreached
    simp [Chronicle.start] at hd
  · rcases hturn.quiet_or_handles hc.reachable.history.sound with hquiet | ⟨id, r, m, hhandles⟩
    · unfold Fresh Reached
      rw [hquiet.replicas_eq, hquiet.handled_eq]
      exact hf
    · exact hc.fresh_handles hvariant hbound hhandles hf

/-! ### How a read is answered -/

/-- Handling a read, a replica answers with the latest write before it, or a later one. -/
def ReadsLatest (c : Chronicle) (i : ReplicaId) (client : ClientId) : Prop :=
  ∀ put get, c.ReadsOwn put get → put.id.client = client →
    ∀ d ∈ c.handled, d.replica.id = i → d.message.request? = some get →
      d.replica.speculate get.id get.command false = put.command.value ∨
        ∃ slotPut, c.log.request? slotPut = some put ∧
          c.log.NoOlder slotPut put (d.replica.speculate get.id get.command false)

theorem ReachableBy.reads_handles
    (hc : c.ReachableBy (.both .weakOnce (.sequential place)) config bounds)
    (hvariant : config.variant = .everyReplica) (h : c.Handles i r m c')
    (hbound : bounds[place]? = some i) (hown : c.ReadsOwn put get)
    (hclient : put.id.client = place + 1) (hm : m.request? = some get) :
    r.speculate get.id get.command false = put.command.value ∨
      ∃ slotPut, c.log.request? slotPut = some put ∧
        c.log.NoOlder slotPut put (r.speculate get.id get.command false) := by
  have hs := hc.reachable.history.sound
  have hunread : ¬c.Reached i get fun _ => True := hc.left.not_reached hown.get_weak h.letter hm
  have hgetClient := hown.client_eq.trans hclient
  -- the client has issued nothing after the read
  have hsame : ∀ q ∈ c.issued, q.id.client = put.id.client → q.command.isWrite = true →
      q.command.key = put.command.key → put.id.seq ≤ q.id.seq → q = put := by
    intro q hq hqclient hwrite hkey hle
    rcases hown.latest q hq hqclient hwrite hkey with hearlier | hlater
    · have hid := CommandId.eq_of_seq_eq hqclient (Nat.le_antisymm hearlier hle)
      exact hs.records.issued_unique hq hown.put_issued hid
    · refine absurd ?_ hunread
      exact hc.reached_earlier hvariant hbound hown.get_issued hq hgetClient
        (hqclient.trans hclient) hlater hown.get_weak
  have hreached := hc.reached_earlier hvariant hbound hown.put_issued hown.get_issued hclient
    hgetClient hown.seq_lt hown.put_weak
  obtain ⟨d, hd, hdi, hdm, -⟩ := id hreached
  have hremembers : d.replica.remembers put = true := by
    refine remembers_weak ?_ hown.put_weak
    rw [(hc.reachable.lasts d hd).config_eq, hvariant]
  obtain ⟨r', hr', hcovers⟩ := hc.reachable.remembered.reached i put
    ⟨d, hd, hdi, hdm, hremembers⟩ hown.put_writes
  obtain rfl : r = r' := Option.some.inj (h.replica.symm.trans hr')
  refine (hs.replicas.follows h.replica).speculate_own hcovers hown.put_writes hown.get_reads
    hown.key_eq hown.client_eq hown.seq_lt (fun write hwrite => ?_) fun slot q hq => ?_
  · obtain ⟨q, hq, hid, hwrites, -⟩ := hc.reachable.keepsReached i r h.replica _ write hwrite
    rw [hclient] at hwrite
    have hle := hc.fresh hvariant hbound put hclient hown.put_weak hown.put_writes hreached r
      h.replica write hwrite
    obtain rfl := hsame q hq (by rw [hid]) (by rw [hwrites]; rfl) (by rw [hwrites])
      (by rw [hid]; exact hle)
    rw [hid, hwrites]
  · exact hsame q (hs.records.request_issued hq)

theorem ReachableBy.readsLatest
    (hc : c.ReachableBy (.both .weakOnce (.sequential place)) config bounds)
    (hvariant : config.variant = .everyReplica) (hbound : bounds[place]? = some i) :
    c.ReadsLatest i (place + 1) := by
  refine hc.induct (P := fun c => c.ReadsLatest i (place + 1))
    (fun n hn put get _ _ d hd => ?_) fun c c' action hc hc' _ hturn hreads => ?_
  · simp [Chronicle.start] at hd
  · have hs := hc.reachable.history.sound
    have hgrows := hturn.issued_prefix
    -- a read that a replica has handled was issued, and so was the write before it
    have hbefore : ∀ {put get}, c'.ReadsOwn put get → get ∈ c.issued → c.ReadsOwn put get := by
      intro put get hown hget
      have hput : put ∈ c.issued := by
        by_contra hnew
        have hlt := seq_lt_of_prefix hc'.reachable.pairwise_issued hgrows hget hnew hown.put_issued
          hown.client_eq
        exact Nat.lt_asymm hlt hown.seq_lt
      exact { hown with
        put_issued := hput
        get_issued := hget
        latest := fun q hq => hown.latest q (hgrows.subset hq) }
    intro put get hown hclient d hd hdi hdm
    rcases hturn.quiet_or_handles hs with hquiet | ⟨id, r, m, hhandles⟩
    · rw [hquiet.handled_eq] at hd
      rw [hquiet.log_eq]
      have hget := (hc.reachable.lasts d hd).request_issued get hdm
      exact hreads put get (hbefore hown hget) hclient d hd hdi hdm
    · have hlog := (hhandles.attends hs).prefix_log
      rw [hhandles.handled_eq] at hd
      have hanswer : d.replica.speculate get.id get.command false = put.command.value ∨
          ∃ slotPut, c.log.request? slotPut = some put ∧
            c.log.NoOlder slotPut put (d.replica.speculate get.id get.command false) := by
        rcases List.mem_append.1 hd with hd | hd
        · have hget := (hc.reachable.lasts d hd).request_issued get hdm
          exact hreads put get (hbefore hown hget) hclient d hd hdi hdm
        · obtain rfl := List.mem_singleton.1 hd
          obtain rfl : id = i := (hhandles.id_eq hs).symm.trans hdi
          have hget := hhandles.request_issued hs hdm
          exact hc.reads_handles hvariant hhandles hbound (hbefore hown hget) hclient hdm
      refine hanswer.imp_right ?_
      rintro ⟨slotPut, hslot, hvalue⟩
      exact ⟨slotPut, Log.request?_mono hlog hslot, hvalue.mono hlog⟩

/-- Let every replica take weak commands, let no weak command be repeated, and let a client wait
for each of its commands. If the client's latest write of a key before a weak read is a weak one,
then the read completes with that write's value, or with the value of a write to the key in a
later slot. -/
theorem read_own_weak_write
    (hc : c.ReachableBy (.both .weakOnce (.sequential place)) config bounds)
    (hvariant : config.variant = .everyReplica) (hown : c.ReadsOwn put get)
    (hclient : put.id.client = place + 1) {value : Value} {path : Path}
    (hdone : c.Completed get value path) :
    value = put.command.value ∨ ∃ slotPut slot q, c.log.request? slotPut = some put ∧
      slotPut < slot ∧ c.log.request? slot = some q ∧ q.command.Writes put.command.key value := by
  have hreachable := hc.reachable
  have hgetClient := hown.client_eq.trans hclient
  obtain ⟨i, hbound, d, hd, hdi, hdm, rfl⟩ :=
    hreachable.answered_of_done hvariant hgetClient hown.get_weak hdone
  rcases hc.readsLatest hvariant hbound put get hown hclient d hd hdi hdm with
    hvalue | ⟨slotPut, hslot, hvalue | ⟨slot, q, hlt, hq, hwrites⟩⟩
  · exact .inl hvalue
  · exact .inl hvalue
  · exact .inr ⟨slotPut, slot, q, hslot, hlt, hq, hwrites⟩

/-- Client 1 writes key 1 weakly and then reads it, before the leader knows of either. -/
def readOwnWeak : List Network.Action :=
  [.proposeWeak 0 ⟨.put, 1, ⟨[97]⟩⟩, .deliver 1, .deliver 1, .proposeWeak 0 (.get 1), .deliver 2,
    .deliver 2]

theorem read_own_weak_write_eagerBound :
    (eagerBound.run readOwnWeak).Completed ⟨⟨1, 1⟩, .get 1, true⟩ ⟨[97]⟩ .weak ∧
      ((⟨[97]⟩ : Value) = ⟨[97]⟩ ∨
        ∃ slotPut slot q, (eagerBound.run readOwnWeak).log.request? slotPut = some lateWrite ∧
          slotPut < slot ∧ (eagerBound.run readOwnWeak).log.request? slot = some q ∧
          q.command.Writes 1 ⟨[97]⟩) := by
  have hobeys : obeys (.both .weakOnce (.sequential 0)) eagerBound.network readOwnWeak = true := by
    decide +kernel
  have hissued : (eagerBound.run readOwnWeak).issued =
      [lateWrite, ⟨⟨1, 1⟩, .get 1, true⟩] := by decide +kernel
  have hown : (eagerBound.run readOwnWeak).ReadsOwn lateWrite ⟨⟨1, 1⟩, .get 1, true⟩ :=
    { put_issued := by simp [hissued]
      put_weak := rfl
      put_writes := rfl
      get_issued := by simp [hissued]
      get_weak := rfl
      get_reads := rfl
      key_eq := rfl
      client_eq := rfl
      seq_lt := by decide
      latest := by simp [hissued, lateWrite, Command.isWrite, Command.get] }
  have hdone : (eagerBound.run readOwnWeak).Completed ⟨⟨1, 1⟩, .get 1, true⟩ ⟨[97]⟩ .weak :=
    ⟨by simp [hissued], by decide +kernel⟩
  have hreachable : (eagerBound.run readOwnWeak).ReachableBy (.both .weakOnce (.sequential 0))
      eagerConfig [1, 1] := (ReachableBy.start rfl).run hobeys
  exact ⟨hdone, read_own_weak_write hreachable rfl hown rfl hdone⟩

end Chronicle

end WitnessReplication
