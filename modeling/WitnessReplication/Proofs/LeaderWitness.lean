import Mathlib.Order.Bounds.Basic
import WitnessReplication.Proofs.Network.Apart
import WitnessReplication.Proofs.Network.Copies
import WitnessReplication.Proofs.Replica.Mirroring

/-!
# The leader's witness

The leader learns from its witness which slot a new command depends on: the latest slot of its key
that has not executed. If no weak command is repeated, then the witness describes exactly the slots
that have not executed, so that the slot found is always earlier than the one being given out.
-/

namespace WitnessReplication

variable {log : Log} {executed slot : Slot} {q : Request} {key : Key}

/-- The slots of a log that have not executed and whose requests are of a kind. -/
def Log.pendingSlots (log : Log) (executed : Slot) (kind : Request → Prop) : Set Slot :=
  {slot | executed ≤ slot ∧ ∃ q, log.request? slot = some q ∧ kind q}

/-- An assignment gives the slot after the log, and as what it depends on the latest earlier slot of
the key that has not executed, if there is one. -/
def Log.Assigns (log : Log) (executed : Slot) (key : Key)
    (outcome : Except Witness.AssignError (Slot × Option Slot)) : Prop :=
  ∃ dep, outcome = .ok (log.length, dep) ∧ (∀ slot, dep = some slot → slot < log.length) ∧
    ∀ slot, dep = some slot ↔ IsGreatest (log.pendingSlots executed fun q => q.command.key = key) slot

/-- The last of the unexecuted requests of a kind is in the latest slot of this kind. -/
theorem Log.isGreatest_of_getLast? {kind : Request → Bool}
    (h : ((log.waiting executed).filter kind).getLast? = some q) :
    ∃ slot, IsGreatest (log.pendingSlots executed fun q => kind q = true) slot ∧
      log.request? slot = some q := by
  rw [List.getLast?_filter, List.find?_eq_some_iff_append] at h
  obtain ⟨hkind, after, before, hsplit, hafter⟩ := h
  have hwaiting : log.waiting executed = before.reverse ++ q :: after.reverse := by
    simpa using congrArg List.reverse hsplit
  have hq : log.request? (executed + before.length) = some q := by
    rw [← getElem?_waiting, hwaiting]
    simp
  refine ⟨executed + before.length, ⟨⟨Nat.le_add_right _ _, q, hq, hkind⟩, ?_⟩, hq⟩
  rintro slot ⟨hle, q', hq', hkind'⟩
  -- a later request of the kind would be among those after the last one
  refine Nat.le_of_not_lt fun hlt => ?_
  obtain ⟨n, rfl⟩ := Nat.exists_eq_add_of_lt hlt
  have hmem : q' ∈ after.reverse := by
    refine List.mem_iff_getElem?.2 ⟨n, ?_⟩
    rw [Nat.add_assoc, Nat.add_assoc, ← getElem?_waiting, hwaiting] at hq'
    simpa [List.getElem?_append_right, Nat.add_assoc] using hq'
  have hnot := hafter q' (List.mem_reverse.1 hmem)
  rw [hkind'] at hnot
  simp at hnot

theorem Log.getLast?_waiting {kind : Request → Bool} :
    ((log.waiting executed).filter kind).getLast? = some q ↔
      ∃ slot, IsGreatest (log.pendingSlots executed fun q => kind q = true) slot ∧
        log.request? slot = some q := by
  refine ⟨isGreatest_of_getLast?, ?_⟩
  rintro ⟨slot, hslot, hq⟩
  obtain ⟨hle, q', hq', hkind⟩ := hslot.1
  obtain rfl : q = q' := Option.some.inj (hq.symm.trans hq')
  have hne : (log.waiting executed).filter kind ≠ [] :=
    List.ne_nil_of_mem (List.mem_filter.2 ⟨mem_waiting.2 ⟨slot, hle, hq⟩, hkind⟩)
  rw [List.getLast?_eq_some_getLast hne]
  obtain ⟨slot', hslot', hlast⟩ := isGreatest_of_getLast? (List.getLast?_eq_some_getLast hne)
  obtain rfl := hslot.unique hslot'
  exact hlast.symm.trans hq

namespace Witness

variable {w : Witness}

/-- The entry of a key has the latest slot of the key that has not executed. -/
theorem Tracks.isGreatest (h : w.Tracks log executed) {e : Entry} (he : w.entry? key = some e) :
    IsGreatest (log.pendingSlots executed fun q => q.command.key = key) e.slot := by
  obtain ⟨hle, q, hq, hkey⟩ := h.entry_sound he
  refine ⟨⟨hle, q, hq, hkey⟩, ?_⟩
  rintro slot ⟨hle, q, hq, rfl⟩
  obtain ⟨e', he', hslot⟩ := h.entry_complete hq hle
  obtain rfl : e = e' := Option.some.inj (he.symm.trans he')
  exact hslot

theorem Tracks.entry_iff (h : w.Tracks log executed) :
    (∃ e, w.entry? key = some e) ↔
      (log.pendingSlots executed fun q => q.command.key = key).Nonempty := by
  constructor
  · rintro ⟨e, he⟩
    exact ⟨e.slot, (h.isGreatest he).1⟩
  · rintro ⟨slot, hle, q, hq, rfl⟩
    obtain ⟨e, he, -⟩ := h.entry_complete hq hle
    exact ⟨e, he⟩

end Witness

/-- The slot that the leader finds for a further command on a key is the latest one of the key that
has not executed. -/
theorem Replica.Leads.assigns {r : Replica} (h : r.Leads log) (key : Key) :
    log.Assigns r.executed key (.ok (log.length, r.dependency? key)) := by
  refine ⟨_, rfl, fun slot hslot => ?_, fun slot => ?_⟩
  · obtain ⟨e, he, rfl⟩ := Option.map_eq_some_iff.1 hslot
    exact h.tracks.slot_lt_length he
  · constructor
    · intro hslot
      obtain ⟨e, he, rfl⟩ := Option.map_eq_some_iff.1 hslot
      exact h.tracks.isGreatest he
    · intro hslot
      obtain ⟨e, he⟩ := h.tracks.entry_iff.2 ⟨slot, hslot.1⟩
      refine Option.map_eq_some_iff.2 ⟨e, he, ?_⟩
      exact (h.tracks.isGreatest he).unique hslot

namespace Chronicle

open Network Replica

variable {config : Config} {bounds : List ReplicaId} {c : Chronicle} {r : Replica}

theorem ReachableBy.singleSlots (hc : c.ReachableBy .weakOnce config bounds) :
    c.log.SingleSlots := by
  intro slot slot' q q' hq hq' hid
  have hrecords := hc.reachable.history.sound.records
  obtain rfl := hrecords.issued_unique (hrecords.request_issued hq) (hrecords.request_issued hq') hid
  exact hc.slot_unique hq hq'

/-- If no weak command is repeated, then the leader's witness counts the slots that the leader has not
executed. -/
theorem ReachableBy.mirrorsLog (hc : c.ReachableBy .weakOnce config bounds) :
    ∀ (i : ReplicaId) r, c.network.replicas[i]? = some r → i = config.leader →
      r.MirrorsLog c.log := by
  refine hc.everywhere (P := fun c i r => i = config.leader → r.MirrorsLog c.log)
    (fun n _ i hi => ?_) (fun c c' i r _ hapart hold hi => ?_)
    fun c c' i r m hc hc' h hold hi => ?_
  · have hleader : config.isLeader i = true := decide_eq_true hi.symm
    have hlog : (Chronicle.start n).log = [] := rfl
    simpa [MirrorsLog, initial, hleader, hlog] using Witness.mirrors_leader
  · exact hapart.log_eq hi ▸ hold hi
  · have hs := hc.reachable.history.sound
    exact (h.attends hs).mirrorsLog ((h.isLeader_iff hs).2 hi) hc'.singleSlots (hold hi)

/-- Let no weak command be repeated. The leader has a witness entry for a key exactly if a slot that
it has not executed is of the key. The entry has the latest of these slots, counts the strong writes
in them and has the weak write in the latest one with a weak write. Whatever command is given a slot
next, strong or weak, the assignment succeeds and gives the slot after the log, with the latest one
of the key that has not executed as what it depends on. -/
theorem leader_witness (hc : c.ReachableBy .weakOnce config bounds)
    (hr : c.network.replicas[config.leader]? = some r) :
    (∀ key, (∃ e, r.witness.entry? key = some e) ↔
      (c.log.pendingSlots r.executed fun q => q.command.key = key).Nonempty) ∧
    (∀ key e, r.witness.entry? key = some e →
      IsGreatest (c.log.pendingSlots r.executed fun q => q.command.key = key) e.slot ∧
      e.strongWrites = ((c.log.waiting r.executed).filter (Request.isStrongWrite key)).length ∧
      ∀ id value, e.weakWrite = some (id, value) ↔ ∃ slot q,
        IsGreatest (c.log.pendingSlots r.executed fun q => q.isWeakWrite key = true) slot ∧
          c.log.request? slot = some q ∧ q.id = id ∧ q.command.value = value) ∧
    (∀ id command strong,
      c.log.Assigns r.executed command.key (r.assign id command strong).2) ∧
    ∀ body causal w, (r.respondWeak body causal).weak = some w →
      c.log.Assigns r.executed w.command.key
        ((r.respondWeak body causal).replica.assign w.id w.command false).2 := by
  have hleads := hc.reachable.history.sound.replicas.leads hr
  have hmirrors := hc.mirrorsLog _ r hr rfl
  refine ⟨fun key => hleads.tracks.entry_iff, fun key e he => ⟨hleads.tracks.isGreatest he, ?_, ?_⟩,
    fun id command strong => ?_, fun body causal w hw => ?_⟩
  · have hstrong := hmirrors.strongCount_eq key
    simpa [Witness.strongCount, he, List.countP_eq_length_filter] using hstrong
  · intro id value
    have hweak := hmirrors.pendingWeak_eq key
    rw [Witness.pendingWeak, he, Option.bind_some] at hweak
    rw [hweak]
    simp only [Option.map_eq_some_iff, Log.getLast?_waiting, Prod.mk.injEq]
    constructor
    · rintro ⟨q, ⟨slot, hslot, hq⟩, hid, hvalue⟩
      exact ⟨slot, q, hslot, hq, hid, hvalue⟩
    · rintro ⟨slot, q, hslot, hq, hid, hvalue⟩
      exact ⟨q, ⟨slot, hslot, hq⟩, hid, hvalue⟩
  · obtain ⟨_, -, -, hassign⟩ := hleads.assign_eq ⟨id, command, !strong⟩
    rw [Bool.not_not] at hassign
    rw [hassign]
    exact hleads.assigns command.key
  · rw [respondWeak_of_isLeader hleads.isLeader] at hw ⊢
    obtain rfl := Option.some.inj hw
    dsimp only
    rw [hleads.assign_witnessWeak (q := ⟨body.id, body.command, true⟩) rfl]
    exact hleads.assigns body.command.key

/-- The leader gives a strong and then a weak write of key 1 a slot. -/
def writesAssigned : List Network.Action :=
  [.propose 0 ⟨.put, 1, ⟨[97]⟩⟩, .deliver 0, .proposeWeak 1 ⟨.put, 1, ⟨[98]⟩⟩, .deliver 3]

theorem leader_witness_pair :
    ∃ r, (pair.run writesAssigned).network.replicas[0]? = some r ∧
      IsGreatest ((pair.run writesAssigned).log.pendingSlots r.executed fun q =>
        q.command.key = 1) 1 ∧
      (∃ slot q, IsGreatest ((pair.run writesAssigned).log.pendingSlots r.executed fun q =>
          q.isWeakWrite 1 = true) slot ∧
        (pair.run writesAssigned).log.request? slot = some q ∧ q.id = ⟨2, 0⟩ ∧
          q.command.value = ⟨[98]⟩) ∧
      (pair.run writesAssigned).log.Assigns r.executed 1 (r.assign ⟨2, 1⟩ (.get 1) true).2 := by
  have hobeys : obeys .weakOnce pair.network writesAssigned = true := by decide +kernel
  have hreachable : (pair.run writesAssigned).ReachableBy .weakOnce History.pairConfig [0, 0] :=
    (ReachableBy.start rfl).run hobeys
  have hmap : (pair.run writesAssigned).network.replicas[0]?.map (fun r =>
      (r.witness.entry? 1).map fun e => (e.slot, e.weakWrite)) =
        some (some (1, some (⟨2, 0⟩, ⟨[98]⟩))) := by decide +kernel
  obtain ⟨r, hr, hentry⟩ := Option.map_eq_some_iff.1 hmap
  obtain ⟨e, he, hat⟩ := Option.map_eq_some_iff.1 hentry
  obtain ⟨hslot, hweak⟩ := Prod.mk.inj hat
  obtain ⟨-, hentries, hassigns, -⟩ := leader_witness hreachable hr
  obtain ⟨hgreatest, -, hwrite⟩ := hentries 1 e he
  exact ⟨r, hr, hslot ▸ hgreatest, (hwrite _ _).1 hweak, hassigns ⟨2, 1⟩ (.get 1) true⟩

end Chronicle

end WitnessReplication
