import WitnessReplication.Proofs.Freshness
import WitnessReplication.Proofs.Network.Recording

/-!
# Clear answers to strong reads

When the leader gives a strong read its slot it answers at once, with a value and a verdict. Once
the slot has executed it has another value, the read's result after all earlier slots. The two need
not be the same, also where the leader was clear: that only means that the latest command on the key
was committed. They are the same where the leader had executed all earlier writes of the key when it
gave out the slot (`Chronicle.clear_get`).
-/

namespace WitnessReplication

/-- A key keeps its value as long as no slot writes it. -/
theorem Log.get?_storeAt_eq {log : Log} (key : Key) {low high : Nat} (hle : low ≤ high)
    (hlength : high ≤ log.length)
    (hunwritten : ∀ (slot : Nat) q, low ≤ slot → slot < high → log.request? slot = some q →
      q.command.key = key → q.command.isWrite = false) :
    (log.storeAt high).get? key = (log.storeAt low).get? key := by
  induction high, hle using Nat.le_induction with
  | base => rfl
  | succ high hle ih =>
      obtain ⟨q, hq⟩ := Log.exists_request? (Nat.lt_of_succ_le hlength)
      have hother : ¬(q.command.isWrite = true ∧ q.command.key = key) := by
        rintro ⟨hwrite, hkey⟩
        simp [hunwritten high q hle (Nat.lt_succ_self high) hq hkey] at hwrite
      rw [Log.storeAt_succ hq, Store.get?_execute, if_neg hother]
      exact ih (Nat.le_of_succ_le hlength) fun slot q hlow hhigh =>
        hunwritten slot q hlow (Nat.lt_succ_of_lt hhigh)

/-- A leader that has executed all writes of a key answers a strong read of it with the read's
result. -/
theorem Replica.Leads.speculate_settled {log : Log} {leader : Replica} (h : leader.Leads log)
    (id : CommandId) {c : Command} (hop : c.op = .get)
    (hsettled : ∀ slot q, log.request? slot = some q → q.command.key = c.key →
      q.command.isWrite = true → slot < leader.executed) :
    leader.speculate id c true = (log.storeAt log.length).result c := by
  have hnone : leader.pendingWrite? id c.key = none := by
    rw [Option.eq_none_iff_forall_ne_some]
    intro value hpending
    obtain ⟨slot, q, hq, hle, hwrites⟩ := h.pendingWrite_awaits hpending
    have hlt := hsettled slot q hq (by rw [hwrites]) (by rw [hwrites]; rfl)
    exact Nat.not_le.2 hlt hle
  have hsame := Log.get?_storeAt_eq c.key h.executed_le (Nat.le_refl _)
    fun slot q hlow _ hq hkey => by
      by_contra hwrite
      rw [Bool.not_eq_false] at hwrite
      exact Nat.not_le.2 (hsettled slot q hq hkey hwrite) hlow
  rw [h.speculate_get id hop, hnone, Option.getD_none, Store.result, Store.result, hop]
  dsimp only
  rw [hsame]

namespace Chronicle

open Network Replica

variable {config : Config} {bounds : List ReplicaId} {c : Chronicle}
variable {r : Replica} {client : ClientId} {reply : Reply} {get : Request}

/-- Take a clear answer that the leader has sent to a strong read of a key, at any later time. The
read has one slot. The value that the leader has for the read from the execution of that slot on is
the read's result after all earlier slots. What the leader answered is the pending write that it
knew of when it gave out the slot, and without one the read's result after the slots that it had
executed by then. That is the same value if it had executed all earlier writes of the key by then.
If it had not executed some earlier command on the key, the latest such command was committed. -/
theorem clear_get (hc : c.Reachable config bounds)
    (hr : c.network.replicas[config.leader]? = some r)
    (hreply : .tell client (.reply reply) ∈ c.trace config.leader) (hclear : reply.ok = .clear)
    (hget : get ∈ c.issued) (hid : get.id = reply.id) (hop : get.command.op = .get) :
    ∃ (slot : Nat) (a : Assignment), c.log[slot]? = some a ∧ a.toRequest = get ∧
      (∀ value, r.value? get.id = some value ↔
        slot < r.executed ∧ value = (c.log.storeAt slot).result get.command) ∧
      reply.value = (a.leader.pendingWrite? get.id get.command.key).getD
        ((c.log.storeAt a.leader.executed).result get.command) ∧
      ((∀ earlier q, earlier < slot → c.log.request? earlier = some q →
          q.command.key = get.command.key → q.command.isWrite = true →
            earlier < a.leader.executed) →
        reply.value = (c.log.storeAt slot).result get.command) ∧
      ∀ earlier q, earlier < slot → c.log.request? earlier = some q →
        q.command.key = get.command.key → a.leader.executed ≤ earlier →
          ∃ dep, a.leader.dependency? get.command.key = some dep ∧ earlier ≤ dep ∧
            a.leader.isCommitted dep = true := by
  have hs := hc.history.sound
  obtain ⟨-, slot, a, ha, haid, hstrong, hvalue, hok⟩ :=
    hc.reachableBy.reply_answers config.leader r hr client reply hreply
  have hslot := Log.request?_of_getElem? ha
  obtain rfl : a.toRequest = get :=
    hs.records.issued_unique (hs.records.request_issued hslot) hget (haid.trans hid.symm)
  have hlt : slot < c.log.length := (List.getElem?_eq_some_iff.1 ha).1
  have hleads := hs.records.leader_led ha
  have htake := List.take_prefix slot c.log
  have hlength : (c.log.take slot).length = slot := by
    rw [List.length_take, Nat.min_eq_left (Nat.le_of_lt hlt)]
  have hread : a.command.isWrite = false := by simp [Command.isWrite, hop]
  refine ⟨slot, a, ha, rfl, fun value => ?_, ?_, fun hsettled => ?_, ?_⟩
  · rw [← Store.execute_of_not_isWrite _ hread]
    exact hc.value?_eq_some_iff hr hslot hstrong
  · rw [hvalue, hleads.speculate_get a.id hop, Log.storeAt_mono htake hleads.executed_le]
  · have hresult := hleads.speculate_settled a.id hop fun earlier q hq hkey hwrite => by
      have hearlier := Log.lt_length_of_request? hq
      rw [hlength] at hearlier
      exact hsettled earlier q hearlier (Log.request?_mono htake hq) hkey hwrite
    rw [hvalue, hresult, hlength, Log.storeAt_mono htake (Nat.le_of_eq hlength.symm)]
  · intro earlier q hearlier hq hkey hexec
    rw [hclear] at hok
    exact hleads.committed_of_clear ((Log.request?_take hearlier).trans hq) hkey hexec hok.symm

/-- Client 1 writes keys 9 and 1. The second write is committed while the first one waits for its
acknowledgement. Client 2 reads key 1, which the leader clears and the other replica refuses, so
that client 2 asks for the committed result. At last the first write is acknowledged, and all three
slots execute. -/
def readBehind : List Network.Action :=
  [.propose 0 ⟨.put, 9, ⟨[120]⟩⟩, .deliver 0, .deliver 2, .propose 0 ⟨.put, 1, ⟨[118]⟩⟩,
    .deliver 5, .deliver 4, .deliver 6, .deliver 6, .propose 1 (.get 1), .deliver 8, .deliver 9,
    .deliver 8, .deliver 9, .deliver 8, .deliver 8, .deliver 8, .deliver 2]

/-- The leader answers that read clearly with nothing. -/
def emptyReply : Reply := ⟨0, ⟨2, 0⟩, .nil, .clear⟩

theorem clear_get_readBehind :
    ∃ r, (pair.run readBehind).network.replicas[0]? = some r ∧ r.value? ⟨2, 0⟩ = some ⟨[118]⟩ ∧
      ∃ (slot : Nat) (a : Assignment), (pair.run readBehind).log[slot]? = some a ∧
        slot < r.executed ∧
        ⟨[118]⟩ = ((pair.run readBehind).log.storeAt slot).result (.get 1) ∧
        .nil = (a.leader.pendingWrite? ⟨2, 0⟩ 1).getD
          (((pair.run readBehind).log.storeAt a.leader.executed).result (.get 1)) := by
  have hvalue : ((pair.run readBehind).network.replicas[0]?).bind
      (fun r => r.value? ⟨2, 0⟩) = some ⟨[118]⟩ := by decide +kernel
  obtain ⟨r, hr, hvalue⟩ := Option.bind_eq_some_iff.1 hvalue
  have hreply : .tell 2 (.reply emptyReply) ∈ (pair.run readBehind).trace 0 := by decide +kernel
  have hget : (⟨⟨2, 0⟩, .get 1, false⟩ : Request) ∈ (pair.run readBehind).issued := by
    decide +kernel
  obtain ⟨slot, a, ha, -, hfinal, hanswer, -⟩ :=
    clear_get (reachable_pair.run readBehind) hr hreply rfl hget rfl rfl
  obtain ⟨hexec, hresult⟩ := (hfinal _).1 hvalue
  exact ⟨r, hr, hvalue, slot, a, ha, hexec, hresult, hanswer⟩

/-- A clear answer to a strong read may differ from the value that the leader has for the read once
its slot has executed. -/
theorem not_clear_get_final :
    ¬∀ (config : Config) (bounds : List ReplicaId) (c : Chronicle) (r : Replica)
        (client : ClientId) (reply : Reply) (get : Request) (value : Value),
        c.Reachable config bounds → c.network.replicas[config.leader]? = some r →
        .tell client (.reply reply) ∈ c.trace config.leader → reply.ok = .clear →
        get ∈ c.issued → get.id = reply.id → get.command.op = .get →
        r.value? get.id = some value → reply.value = value := by
  intro hfinal
  have hvalue : ((pair.run readBehind).network.replicas[0]?).bind
      (fun r => r.value? ⟨2, 0⟩) = some ⟨[118]⟩ := by decide +kernel
  obtain ⟨r, hr, hvalue⟩ := Option.bind_eq_some_iff.1 hvalue
  have hreply : .tell 2 (.reply emptyReply) ∈ (pair.run readBehind).trace 0 := by decide +kernel
  have hget : (⟨⟨2, 0⟩, .get 1, false⟩ : Request) ∈ (pair.run readBehind).issued := by
    decide +kernel
  have hsame : Value.nil = ⟨[118]⟩ :=
    hfinal _ _ _ r 2 emptyReply _ _ (reachable_pair.run readBehind) hr hreply rfl hget rfl rfl
      hvalue
  revert hsame
  decide

end Chronicle

end WitnessReplication
