import WitnessReplication.Proofs.Replica.Following
import WitnessReplication.Proofs.Tracking

/-!
# Leading the log

The leader gives out the slots of the log in order, its witness tracks the unexecuted ones, and
every write that it remembers for a client is one of them. Changes keep this for the log as it
is; giving a request the next slot keeps it for the longer log.
-/

namespace WitnessReplication.Replica

/-- A replica that follows a log leads it if the log is the order in which it gave out slots. -/
structure Leads (log : Log) (r : Replica) : Prop extends Follows log r where
  isLeader : r.isLeader = true
  nextSlot_eq : r.nextSlot = log.length
  slots_sound : ∀ {id slot}, r.slot? id = some slot → ∃ q, log.request? slot = some q ∧ q.id = id
  slots_complete : ∀ {slot q}, log.request? slot = some q → r.slots.contains q.id = true
  tracks : r.witness.Tracks log r.executed
  pending_sound : ∀ {key : ClientKey} {write}, r.pendingWrites[key]? = some write →
    log.Awaits r.executed fun q =>
      q.id = ⟨key.client, write.seq⟩ ∧ q.command.Writes key.key write.value

variable {log : Log} {r r' : Replica} {slot : Slot} {s : LiveSlot} {effects : List Effect}

/-- The leader without messages leads the empty log. -/
theorem leads_initial {config : Config} : (initial config.leader config).Leads [] where
  toFollows := follows_initial config.leader config []
  isLeader := by simp [initial, Replica.isLeader, Config.isLeader]
  nextSlot_eq := rfl
  slots_sound h := by simp [initial, slot?] at h
  slots_complete h := by simp [Log.request?] at h
  tracks := by simpa [initial, Config.isLeader] using Witness.tracks_leader
  pending_sound h := by simp [initial] at h

/-! ### What one change keeps -/

/-- Leading depends on what following depends on, the numbering, the witness and the writes. -/
theorem Leads.congr (h : r.Leads log) (hfollows : r'.Follows log)
    (hleader : r'.isLeader = r.isLeader) (hexec : r'.executed = r.executed)
    (hnext : r'.nextSlot = r.nextSlot) (hslots : r'.slots = r.slots)
    (hwitness : r'.witness = r.witness) (hpending : r'.pendingWrites = r.pendingWrites) :
    r'.Leads log where
  toFollows := hfollows
  isLeader := by rw [hleader, h.isLeader]
  nextSlot_eq := by rw [hnext, h.nextSlot_eq]
  slots_sound hslot := h.slots_sound (by rwa [slot?, ← hslots])
  slots_complete hq := by rw [hslots]; exact h.slots_complete hq
  tracks := by rw [hwitness, hexec]; exact h.tracks
  pending_sound hwrite := by rw [hexec]; exact h.pending_sound (hpending ▸ hwrite)

/-- The writes that stay remembered when a slot executes are those of later slots. -/
theorem Leads.pending_execute {q : Request} (h : r.Leads log)
    (hq : log.request? r.executed = some q) {key : ClientKey} {write : PendingWrite}
    (hwrite : (r.clearPending q.id q.command).pendingWrites[key]? = some write) :
    log.Awaits (r.executed + 1) fun q =>
      q.id = ⟨key.client, write.seq⟩ ∧ q.command.Writes key.key write.value := by
  rw [pendingWrites_clearPending] at hwrite
  have hold : r.pendingWrites[key]? = some write := by
    split at hwrite
    · rw [Std.ExtTreeMap.getElem?_erase] at hwrite
      split at hwrite
      · simp at hwrite
      · exact hwrite
    · exact hwrite
  refine (h.pending_sound hold).succ hq ?_
  -- the write of the executed slot itself would have been forgotten
  rintro ⟨hid, hwrites⟩
  have hkey : ClientKey.mk q.id.client q.command.key = key := by rw [hid, hwrites]
  have hput : q.command.isWrite = true := by rw [hwrites]; rfl
  rw [hkey, hput, hold, hid] at hwrite
  simp at hwrite

/-- Executing the next slot keeps the leader leading. -/
theorem Leads.execute {id : CommandId} {c : Command} (h : r.Leads log)
    (hs : r.live[slot]? = some s) (hx : s.executable? = some (id, c))
    (hturn : slot ≤ r.executed) : ((r.execute slot s id c).1.dropSlot slot).Leads log := by
  obtain ⟨-, -, hid, hc⟩ := LiveSlot.executable?_eq_some hx
  have hq := h.live_fits hs id c hid hc
  have hfollows := h.toFollows.execute hs hx hturn
  obtain ⟨witness, _, _, _, _, hrelease, hframe⟩ := r.execute_frame id c slot s
  obtain rfl := h.eq_executed hs hturn
  rw [hframe] at hfollows ⊢
  constructor
  case toFollows => exact hfollows
  case isLeader => exact h.isLeader
  case nextSlot_eq => exact h.nextSlot_eq
  case slots_sound => exact fun hslot => h.slots_sound hslot
  case slots_complete => exact fun hq => h.slots_complete hq
  case tracks =>
    change witness.Tracks log (r.executed + 1)
    rw [hrelease h.tracks.isLeader]
    exact h.tracks.release hq
  case pending_sound => exact fun hwrite => h.pending_execute hq hwrite

/-- Every change with fitting events keeps the leader leading. -/
theorem Change.leads (h : r.Leads log)
    (hc : Change (fun slot event => event.Fits log true slot) r effects r') : r'.Leads log := by
  have hserving : Serving r.config true log r r [] :=
    ⟨h.toFollows, rfl, Nat.le_refl _, rfl, h.isLeader, by simp⟩
  have hfollows := (hc.serving hserving).follows
  obtain ⟨_, _, _, rfl⟩ | ⟨slot, s, id, c, hs, hx, hturn, rfl⟩ := hc.frame_or_executed
  · exact h.congr hfollows rfl rfl rfl rfl rfl rfl
  · exact h.execute hs hx hturn

/-! ### Taking up a request -/

/-- The leader once it has given a request the next slot. -/
def lead (r : Replica) (q : Request) : Replica :=
  (r.assign q.id q.command (!q.weak)).1.recordPending q.id q.command

/-- A leader's assignment never fails. -/
theorem Leads.assign_eq (h : r.Leads log) (q : Request) :
    ∃ w, w.Tracks (log ++ [⟨q, r⟩]) r.executed ∧
      (q.weak = false → ∀ key, w.weakWrite key = r.witness.weakWrite key) ∧
      r.assign q.id q.command (!q.weak) =
        ({ r with
          witness := w
          nextSlot := log.length + 1
          slots := r.slots.insert q.id log.length },
          .ok (log.length, r.dependency? q.command.key)) := by
  obtain ⟨w, hassign, hw, hweak⟩ := h.tracks.assign ⟨q, r⟩ h.executed_le
  refine ⟨w, hw, hweak, ?_⟩
  simp only [Replica.assign, h.nextSlot_eq, hassign]
  rfl

theorem pendingWrites_recordPending {id : CommandId} {c : Command} {key : ClientKey}
    {write : PendingWrite} (h : (r.recordPending id c).pendingWrites[key]? = some write) :
    r.pendingWrites[key]? = some write ∨
      (c.isWrite = true ∧ key = ⟨id.client, c.key⟩ ∧ write = ⟨id.seq, c.value⟩) := by
  unfold recordPending at h
  dsimp only at h
  split at h
  · exact .inl h
  · rename_i hnew
    simp only [Std.ExtTreeMap.getElem?_insert, Std.compare_eq_iff_eq] at h
    split at h
    · rename_i hkey
      exact .inr ⟨by simp_all, hkey.symm, (Option.some.inj h).symm⟩
    · exact .inl h

/-- The leader leads the log with a request in the next slot, once it has taken that up. -/
theorem Leads.lead (h : r.Leads log) (q : Request) : (r.lead q).Leads (log ++ [⟨q, r⟩]) := by
  obtain ⟨w, hw, -, hassign⟩ := h.assign_eq q
  have hprefix : log <+: log ++ [⟨q, r⟩] := List.prefix_append log _
  have hnew := Log.request?_append_self log ⟨q, r⟩
  have hfollows := h.toFollows.mono hprefix
  obtain ⟨pendingWrites, hframe⟩ := recordPending_frame
    (r.assign q.id q.command (!q.weak)).1 q.id q.command
  have hlead : r.lead q = { r with
      witness := w
      nextSlot := log.length + 1
      slots := r.slots.insert q.id log.length
      pendingWrites } := by
    rw [Replica.lead, hframe, hassign]
  constructor
  case toFollows => rw [hlead]; exact hfollows.congr rfl rfl rfl rfl
  case isLeader => rw [hlead]; exact h.isLeader
  case nextSlot_eq => rw [hlead, List.length_append, List.length_singleton]
  case slots_sound =>
    intro id slot hslot
    rw [hlead, slot?, Std.ExtTreeMap.getElem?_insert] at hslot
    split at hslot
    · rename_i heq
      obtain rfl := Option.some.inj hslot
      exact ⟨q, hnew, Std.LawfulEqOrd.eq_of_compare heq⟩
    · obtain ⟨q', hq', hid⟩ := h.slots_sound hslot
      exact ⟨q', Log.request?_mono hprefix hq', hid⟩
  case slots_complete =>
    intro slot q' hq'
    rw [hlead, Std.ExtTreeMap.contains_insert, Bool.or_eq_true]
    rcases Log.request?_append_eq_some hq' with hold | ⟨-, rfl⟩
    · exact .inr (h.slots_complete hold)
    · exact .inl (by simp)
  case tracks => rw [hlead]; exact hw
  case pending_sound =>
    intro key write hwrite
    have hexec : (r.lead q).executed = r.executed := by rw [hlead]
    rw [hexec]
    rcases pendingWrites_recordPending hwrite with hold | ⟨hput, rfl, rfl⟩
    · rw [hassign] at hold
      exact (h.pending_sound hold).mono hprefix
    · exact ⟨log.length, q, hnew, h.executed_le, rfl, Command.writes_of_isWrite hput⟩

/-! ### What the leader answers -/

/-- The write that a strong read of a key has to see before it executes: the latest one of its own
client, or the latest weak one. -/
def pendingWrite? (r : Replica) (id : CommandId) (key : Key) : Option Value :=
  (r.ownWrite? id key).or (r.weakWrite? true key)

/-- A write that a strong read has to see is that of a slot that has not executed. -/
theorem Leads.pendingWrite_awaits (h : r.Leads log) {id : CommandId} {key : Key} {value : Value}
    (hpending : r.pendingWrite? id key = some value) :
    log.Awaits r.executed fun q => q.command.Writes key value := by
  rcases Option.or_eq_some_iff.1 hpending with hown | ⟨-, hweak⟩
  · unfold ownWrite? at hown
    split at hown
    · rename_i write hwrite
      split at hown
      · obtain rfl := Option.some.inj hown
        obtain ⟨slot, q, hq, hle, -, hwrites⟩ := h.pending_sound hwrite
        exact ⟨slot, q, hq, hle, hwrites⟩
      · simp at hown
    · simp at hown
  · unfold weakWrite? at hweak
    split at hweak
    · obtain ⟨⟨id', value'⟩, hwrite, rfl⟩ := Option.map_eq_some_iff.1 hweak
      rw [Witness.weakWrite, h.tracks.staged_eq, Std.ExtTreeMap.getElem?_empty,
        Option.none_or] at hwrite
      obtain ⟨e, he, hwrite⟩ := Option.bind_eq_some_iff.1 hwrite
      obtain ⟨slot, q, hq, hle, -, -, hwrites⟩ := h.tracks.weakWrite_sound he hwrite
      exact ⟨slot, q, hq, hle, hwrites⟩
    · simp at hweak

/-- The leader answers a read of one key with the write that it has to see, and otherwise with
what the executed part of the log leaves at the key. -/
theorem Leads.speculate_get (h : r.Leads log) (id : CommandId) {c : Command} (hop : c.op = .get) :
    r.speculate id c true =
      (r.pendingWrite? id c.key).getD ((log.storeAt r.executed).result c) := by
  simp [speculate, pendingWrite?, hop, h.store_eq]

/-- The leader answers a scan with what the executed part of the log gives. -/
theorem Leads.speculate_scan (h : r.Leads log) (id : CommandId) {c : Command}
    (hop : c.op = .scan) : r.speculate id c true = (log.storeAt r.executed).result c := by
  simp [speculate, hop, h.store_eq]

/-- Where the leader answers clearly although a command on the key has not executed, the latest
such command is committed. -/
theorem Leads.committed_of_clear (h : r.Leads log) {q : Request} {key : Key}
    (hq : log.request? slot = some q) (hkey : q.command.key = key) (hexec : r.executed ≤ slot)
    (hclear : r.verdict key = .clear) :
    ∃ dep, r.dependency? key = some dep ∧ slot ≤ dep ∧ r.isCommitted dep = true := by
  obtain ⟨e, he, hle⟩ := h.tracks.entry_complete hq hexec
  rw [hkey] at he
  have hdep : r.dependency? key = some e.slot := by rw [dependency?, he, Option.map_some]
  refine ⟨e.slot, hdep, hle, ?_⟩
  simpa [verdict, hdep] using hclear

end WitnessReplication.Replica
