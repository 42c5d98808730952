import WitnessReplication.Proofs.Network.Reporting
import WitnessReplication.Proofs.Network.Vouching
import WitnessReplication.Proofs.Replica.Remembering

/-!
# What replicas remember over a run

In every chronicle the leader covers the writes of its log, also as it was when it gave out a
slot, and a replica covers every write that it has ever remembered. What a replica keeps is the
write of a request that has reached it, and it has executed such a request only if that reached
it once more, or for the first time, when it had executed.
-/

namespace WitnessReplication

namespace Chronicle

open Network Replica

/-- A request has reached a replica when that was in a certain state. -/
def Reached (c : Chronicle) (id : ReplicaId) (q : Request) (state : Replica → Prop) : Prop :=
  ∃ d ∈ c.handled, d.replica.id = id ∧ d.message.request? = some q ∧ state d.replica

/-- Writes that replicas have remembered are covered, and executed requests have results. -/
structure Remembered (config : Config) (c : Chronicle) : Prop where
  results : ∀ (i : ReplicaId) r, c.network.replicas[i]? = some r → r.HasResults c.log
  leader : ∀ leader, c.network.replicas[config.leader]? = some leader → ∀ slot q,
    c.log.request? slot = some q → q.command.isWrite = true → leader.Covers c.log q
  assigned : ∀ (slot : Slot) a, c.log[slot]? = some a → ∀ earlier q, earlier < slot →
    c.log.request? earlier = some q → q.command.isWrite = true →
      a.leader.Covers (c.log.take slot) q
  reached : ∀ (i : ReplicaId) q, c.Reached i q (fun r => r.remembers q = true) →
    q.command.isWrite = true → ∃ r, c.network.replicas[i]? = some r ∧ r.Covers c.log q

/-- What a replica keeps is the write of a request that has reached it, at a time when it had
executed that if it has now. -/
def KeepsReached (c : Chronicle) : Prop :=
  ∀ (i : ReplicaId) r, c.network.replicas[i]? = some r → ∀ (key : ClientKey) write,
    r.pendingWrites[key]? = some write → ∃ q ∈ c.issued, q.id = ⟨key.client, write.seq⟩ ∧
      q.command.Writes key.key write.value ∧ c.Reached i q (fun r => r.remembers q = true) ∧
      (r.values.contains q.id = true → c.Reached i q fun r => r.values.contains q.id = true)

variable {config : Config} {bounds : List ReplicaId} {c c' : Chronicle} {id i : ReplicaId}
variable {r : Replica} {m : ReplicaMessage} {q : Request} {state : Replica → Prop}

/-- What has reached a replica is issued. -/
theorem Handles.request_issued (h : c.Handles id r m c') (hs : c.Sound config)
    (hq : m.request? = some q) : q ∈ c.issued :=
  (h.attends hs).backed.request_mem hq

/-- A request reaches the replica that handles the message, and no other. -/
theorem Handles.reached_iff (h : c.Handles id r m c') (hs : c.Sound config) :
    c'.Reached i q state ↔
      c.Reached i q state ∨ i = id ∧ m.request? = some q ∧ state r := by
  have hid := h.id_eq hs
  simp only [Reached, h.handled_eq, List.mem_append, List.mem_singleton, or_and_right,
    exists_or, exists_eq_left, hid]
  rw [@eq_comm _ id i]

/-- The leader takes up only what it remembers. -/
theorem remembers_of_log_eq (hleader : r.isLeader = true)
    (hnew : q.weak = false → r.slots.contains q.id = false) : r.remembers q = true := by
  cases hweak : q.weak with
  | true => simp [remembers, hleader, hweak]
  | false => simp [remembers, hleader, hweak, hnew hweak]

theorem Handles.remembered (h : c.Handles id r m c') (hstep : c.Step c') (hs : c.Sound config)
    (hr : c.Remembered config) : c'.Remembered config := by
  have hattends := h.attends hs
  have hprefix := hattends.prefix_log
  have hisLeader := hs.replicas.isLeader_eq h.replica
  constructor
  case results =>
    intro i r' hr'
    rcases h.replica_eq hr' with ⟨rfl, rfl⟩ | ⟨-, hr'⟩
    · exact hattends.hasResults (hr.results i r h.replica)
    · exact (hr.results i r' hr').mono (hs.replicas.follows hr') hprefix
  case leader =>
    intro leader hleader slot q hq hwrite
    rcases h.replica_eq hleader with ⟨rfl, rfl⟩ | ⟨hother, hleader⟩
    · have hcovered : ∀ slot q, c.log.request? slot = some q → q.command.isWrite = true →
          (r.handle m).1.Covers c'.log q := fun slot q hq hwrite =>
        hattends.covers (hr.leader r h.replica slot q hq hwrite)
      rcases hattends.log_eq_or with hlog | ⟨hleads, q', -, hm, hnew, hlog⟩
      · rw [hlog] at hq
        exact hcovered slot q hq hwrite
      · rw [hlog] at hq
        rcases Log.request?_append_eq_some hq with hq | ⟨-, rfl⟩
        · exact hcovered slot q hq hwrite
        · exact hattends.covers_new hm (remembers_of_log_eq hleads hnew) hwrite
    · have hlog : c'.log = c.log := by
        rw [h.log_eq, hisLeader]
        simp [Ne.symm hother]
      rw [hlog] at hq ⊢
      exact hr.leader leader hleader slot q hq hwrite
  case assigned =>
    intro slot a ha earlier q hlt hq hwrite
    rcases hattends.log_eq_or with hlog | ⟨hleads, q', -, -, -, hlog⟩
    · rw [hlog] at ha hq ⊢
      exact hr.assigned slot a ha earlier q hlt hq hwrite
    · have hslot := (List.getElem?_eq_some_iff.1 ha).1
      rw [hlog] at ha hq hslot ⊢
      rw [List.length_append, List.length_singleton] at hslot
      have hle := Nat.le_of_lt_succ hslot
      rw [Log.request?_append_left _ (Nat.lt_of_lt_of_le hlt hle)] at hq
      rw [List.take_append_of_le_length hle]
      rcases Nat.lt_or_eq_of_le hle with hold | rfl
      · rw [List.getElem?_append_left hold] at ha
        exact hr.assigned slot a ha earlier q hlt hq hwrite
      · obtain rfl : (⟨q', r⟩ : Assignment) = a := by simpa using ha
        have hid : id = config.leader := by
          rw [hleads] at hisLeader
          exact of_decide_eq_true hisLeader.symm
        rw [List.take_length]
        exact hr.leader r (hid ▸ h.replica) earlier q hq hwrite
  case reached =>
    intro i q hreached hwrite
    rcases (h.reached_iff hs).1 hreached with hold | ⟨rfl, hm, hremembers⟩
    · refine hstep.persist hs (fun r hp => hp.mono hprefix) ?_ (hr.reached i q hold hwrite)
      exact fun r m hhandles hp => (hhandles.attends hs).covers hp
    · exact ⟨_, h.replica', hattends.covers_new hm hremembers hwrite⟩

theorem Step.remembered (h : c.Step c') (hs : c.Sound config) (hr : c.Remembered config) :
    c'.Remembered config := by
  rcases h.quiet_or_handles hs with hquiet | ⟨id, r, m, hhandles⟩
  · constructor
    · rw [hquiet.replicas_eq, hquiet.log_eq]
      exact hr.results
    · rw [hquiet.replicas_eq, hquiet.log_eq]
      exact hr.leader
    · rw [hquiet.log_eq]
      exact hr.assigned
    · unfold Reached
      rw [hquiet.replicas_eq, hquiet.log_eq, hquiet.handled_eq]
      exact hr.reached
  · exact hhandles.remembered h hs hr

theorem Reachable.remembered (hc : c.Reachable config bounds) : c.Remembered config := by
  refine hc.induct (fun n hn => ⟨?_, ?_, ?_, ?_⟩) fun c c' hs hstep hr => hstep.remembered hs hr
  · intro i r _ slot q hq
    simp [Chronicle.start, History.start, Log.request?] at hq
  · intro leader _ slot q hq
    simp [Chronicle.start, History.start, Log.request?] at hq
  · intro slot a ha
    simp [Chronicle.start, History.start] at ha
  · rintro i q ⟨d, hd, -⟩
    simp [Chronicle.start] at hd

/-! ### What has executed -/

/-- A replica that has handled a message was a replica of the cluster, and still has the results
that it had. -/
structure Lasts (config : Config) (c : Chronicle) (d : Handling) : Prop where
  config_eq : d.replica.config = config
  request_issued : ∀ q, d.message.request? = some q → q ∈ c.issued
  now : ∃ r, c.network.replicas[d.replica.id]? = some r ∧
    ∀ id, d.replica.values.contains id = true → r.values.contains id = true

theorem Step.lasts (h : c.Step c') (hs : c.Sound config)
    (hold : ∀ d ∈ c.handled, c.Lasts config d) : ∀ d ∈ c'.handled, c'.Lasts config d := by
  have hstill : ∀ d, c.Lasts config d → c'.Lasts config d := by
    intro d hd
    refine ⟨hd.config_eq, fun q hq => h.issued_subset hs (hd.request_issued q hq), ?_⟩
    refine h.persist hs (fun r hp => hp) ?_ hd.now
    exact fun r m hhandles hp id hvalue => (hhandles.attends hs).contains_values (hp id hvalue)
  rcases h.quiet_or_handles hs with hquiet | ⟨id, r, m, hhandles⟩
  · rw [hquiet.handled_eq]
    exact fun d hd => hstill d (hold d hd)
  · rw [hhandles.handled_eq]
    intro d hd
    rcases List.mem_append.1 hd with hd | hd
    · exact hstill d (hold d hd)
    · obtain rfl := List.mem_singleton.1 hd
      refine ⟨hs.replicas.config_eq hhandles.replica, fun q hq => ?_, _, ?_,
        fun id hvalue => (hhandles.attends hs).contains_values hvalue⟩
      · exact h.issued_subset hs (hhandles.request_issued hs hq)
      · rw [hhandles.id_eq hs]
        exact hhandles.replica'

theorem Reachable.lasts (hc : c.Reachable config bounds) : ∀ d ∈ c.handled, c.Lasts config d := by
  refine hc.induct (fun n hn d hd => ?_) fun c c' hs hstep hold => hstep.lasts hs hold
  simp [Chronicle.start] at hd

/-- A replica has executed a request if the log has it below where the replica is. -/
theorem Reachable.mem_executed_iff_slot (hc : c.Reachable config bounds)
    (hr : c.network.replicas[i]? = some r) :
    q ∈ c.executed i ↔ ∃ slot < r.executed, c.log.request? slot = some q := by
  have hle := (hc.history.sound.replicas.follows hr).executed_le
  rw [hc.executed_eq hr, List.mem_map]
  constructor
  · rintro ⟨a, ha, rfl⟩
    obtain ⟨slot, hslot⟩ := List.mem_iff_getElem?.1 ha
    rw [List.getElem?_take] at hslot
    split at hslot
    · rename_i hlt
      exact ⟨slot, hlt, Log.request?_of_getElem? hslot⟩
    · simp at hslot
  · rintro ⟨slot, hlt, hq⟩
    obtain ⟨a, ha, rfl⟩ := Log.request?_eq_some hq
    exact ⟨a, List.mem_iff_getElem?.2 ⟨slot, by rw [List.getElem?_take_of_lt hlt, ha]⟩, rfl⟩

/-- A replica has executed an issued request if it has its result. -/
theorem Reachable.mem_executed_iff (hc : c.Reachable config bounds)
    (hr : c.network.replicas[i]? = some r) (hq : q ∈ c.issued) :
    q ∈ c.executed i ↔ r.values.contains q.id = true := by
  rw [hc.mem_executed_iff_slot hr]
  constructor
  · rintro ⟨slot, hlt, hslot⟩
    exact hc.remembered.results i r hr slot q hslot hlt
  · intro hvalue
    rw [Std.ExtTreeMap.contains_eq_isSome_getElem?] at hvalue
    obtain ⟨value, hvalue⟩ := Option.isSome_iff_exists.1 hvalue
    have hs := hc.history.sound
    obtain ⟨slot, q', hslot, hid, hlt, -⟩ := (hs.replicas.follows hr).values_result hvalue
    obtain rfl := hs.records.issued_unique (hs.records.request_issued hslot) hq hid
    exact ⟨slot, hlt, hslot⟩

/-- The value that a replica has for a strong command is what the log gives in its slot, and it has
one as soon as the slot has executed. -/
theorem Reachable.value?_eq_some_iff (hc : c.Reachable config bounds)
    (hr : c.network.replicas[i]? = some r) {slot : Slot} (hslot : c.log.request? slot = some q)
    (hstrong : q.weak = false) {value : Value} : r.value? q.id = some value ↔
      slot < r.executed ∧ value = ((c.log.storeAt slot).execute q.command).2 := by
  have hs := hc.history.sound
  have hresult : ∀ value, r.value? q.id = some value →
      slot < r.executed ∧ value = ((c.log.storeAt slot).execute q.command).2 := by
    intro value hvalue
    obtain ⟨other, q', hq, hid, hlt, rfl⟩ := (hs.replicas.follows hr).values_result hvalue
    obtain rfl := hs.records.slot_unique hslot hq hid.symm hstrong
    obtain rfl := Option.some.inj (hslot.symm.trans hq)
    exact ⟨hlt, rfl⟩
  refine ⟨hresult value, ?_⟩
  rintro ⟨hlt, rfl⟩
  have hhas : (r.value? q.id).isSome = true := by
    simpa [Replica.value?] using hc.remembered.results i r hr slot q hslot hlt
  obtain ⟨value, hvalue⟩ := Option.isSome_iff_exists.1 hhas
  rw [hvalue, (hresult value hvalue).2]

/-! ### What is kept -/

/-- A replica that handles a message keeps what it kept, or the write that has just reached it. -/
theorem Handles.keepsReached (h : c.Handles id r m c') (hs : c.Sound config) (hs' : c'.Sound config)
    (hk : c.KeepsReached) : c'.KeepsReached := by
  have hattends := h.attends hs
  have hold : ∀ {i q} {state : Replica → Prop}, c.Reached i q state → c'.Reached i q state :=
    fun hreached => (h.reached_iff hs).2 (.inl hreached)
  intro i r' hr' key write hwrite
  rcases h.replica_eq hr' with ⟨rfl, rfl⟩ | ⟨-, hr'⟩
  · obtain ⟨q, hq, hid, hwrites, hremembered, hlate⟩ : ∃ q ∈ c'.issued,
        q.id = ⟨key.client, write.seq⟩ ∧ q.command.Writes key.key write.value ∧
        c'.Reached i q (fun r => r.remembers q = true) ∧
        (r.values.contains q.id = true →
          c'.Reached i q fun r => r.values.contains q.id = true) := by
      rw [h.issued_eq]
      rcases hattends.pendingWrites_of hwrite with hbefore | ⟨q, hm, hremembers, hput, rfl, rfl⟩
      · obtain ⟨q, hq, hid, hwrites, hremembered, hlate⟩ := hk i r h.replica key write hbefore
        exact ⟨q, hq, hid, hwrites, hold hremembered, fun hvalue => hold (hlate hvalue)⟩
      · exact ⟨q, h.request_issued hs hm, rfl, Command.writes_of_isWrite hput,
          (h.reached_iff hs).2 (.inr ⟨rfl, hm, hremembers⟩),
          fun hvalue => (h.reached_iff hs).2 (.inr ⟨rfl, hm, hvalue⟩)⟩
    refine ⟨q, hq, hid, hwrites, hremembered, fun hvalue => hlate ?_⟩
    have hunique : ∀ slot q', c'.log.request? slot = some q' → q'.id = q.id → q' = q :=
      fun slot q' hslot hsame =>
        hs'.records.issued_unique (hs'.records.request_issued hslot) hq hsame
    cases hbefore : r.values.contains q.id with
    | true => rfl
    | false =>
        rw [hattends.unexecuted_of_pending hunique hwrite hid hwrites hbefore] at hvalue
        simp at hvalue
  · obtain ⟨q, hq, hid, hwrites, hremembered, hlate⟩ := hk i r' hr' key write hwrite
    exact ⟨q, h.issued_eq ▸ hq, hid, hwrites, hold hremembered, fun hvalue => hold (hlate hvalue)⟩

theorem Step.keepsReached (h : c.Step c') (hs : c.Sound config) (hk : c.KeepsReached) :
    c'.KeepsReached := by
  rcases h.quiet_or_handles hs with hquiet | ⟨id, r, m, hhandles⟩
  · unfold KeepsReached Reached
    rw [hquiet.replicas_eq, hquiet.handled_eq]
    intro i r hr key write hwrite
    obtain ⟨q, hq, hrest⟩ := hk i r hr key write hwrite
    exact ⟨q, hquiet.issued_subset hq, hrest⟩
  · exact hhandles.keepsReached hs (h.sound hs) hk

theorem Reachable.keepsReached (hc : c.Reachable config bounds) : c.KeepsReached := by
  refine hc.induct (fun n hn => ?_) fun c c' hs hstep hk => hstep.keepsReached hs hk
  intro i r hr key write hwrite
  rw [replicas_start hn hr] at hwrite
  simp [Replica.initial] at hwrite

end Chronicle

end WitnessReplication
