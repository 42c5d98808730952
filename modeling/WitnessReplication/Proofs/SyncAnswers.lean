import WitnessReplication.Proofs.Network.Heeding
import WitnessReplication.Proofs.Network.Moments
import WitnessReplication.Proofs.Network.Recording
import WitnessReplication.Proofs.Replica.Syncing

/-!
# Answers to requests for committed results

A client that wants the committed result of a strong command asks the leader for it. The request may
come before the command, before it commits, before it executes, or more than once, and besides, the
result of a command that the leader refused follows unasked. No request is lost and no execution
answers twice: a request that comes after the execution is answered at once, and the execution
itself sends the result exactly once if there was a request before or a refusal
(`Chronicle.sync_answers`).
-/

namespace WitnessReplication

/-- The replica after it has handled the message. -/
def Handling.after (d : Handling) : Replica := (d.replica.handle d.message).1

/-- What handling a message is to tell the client of a command about the committed result: the one
that there is, to a client that asks; and the one that there comes to be, if a client has asked
before or the command was refused. -/
def Handling.dueSyncReplies (d : Handling) (asked refused : Bool) (id : CommandId) :
    List Replica.Effect :=
  match d.replica.value? id, d.after.value? id with
  | some value, _ =>
    if d.message = .sync ⟨id⟩ then
      [.tell id.client (.syncReply ⟨d.replica.id, id, value, .clear⟩)]
    else []
  | none, some value =>
    if asked || refused then [.tell id.client (.syncReply ⟨d.replica.id, id, value, .clear⟩)]
    else []
  | none, none => []

/-- The tentative answer to a command that an effect tells the client. -/
def Replica.Effect.reply? (id : CommandId) : Replica.Effect → Option Reply
  | .tell _ (.reply m) => if m.id = id then some m else none
  | _ => none

namespace Chronicle

open Network Replica

/-- Whether a replica has been asked for the committed result of a command. -/
def asked (handled : List Handling) (i : ReplicaId) (id : CommandId) : Bool :=
  handled.any fun d => decide (d.replica.id = i ∧ d.message = .sync ⟨id⟩)

/-- The first tentative answer to a command that a replica has sent. -/
def firstReply? (handled : List Handling) (i : ReplicaId) (id : CommandId) : Option Reply :=
  ((handled.filter fun d => d.replica.id = i).flatMap Handling.effects).findSome?
    (Effect.reply? id)

/-- Whether the first tentative answer to a command was a refusal. -/
def refused (handled : List Handling) (i : ReplicaId) (id : CommandId) : Bool :=
  (firstReply? handled i id).any fun reply => decide (reply.ok = .refused)

variable {rule : Rule} {config : Config} {bounds : List ReplicaId} {c c' : Chronicle}
variable {i : ReplicaId} {r : Replica} {m : ReplicaMessage} {id : CommandId}

/-! ### What one message does -/

/-- In every run the leader's slots mark what was refused. -/
theorem ReachableBy.marksRefused (hc : c.ReachableBy rule config bounds) :
    ∀ (i : ReplicaId) r, c.network.replicas[i]? = some r → i = config.leader →
      r.MarksRefused c.log := by
  refine hc.everywhere (P := fun c i r => i = config.leader → r.MarksRefused c.log)
    (fun _ _ i _ => marksRefused_initial i config)
    (fun _ _ _ _ _ hapart hold hi => hapart.log_eq hi ▸ hold hi)
    fun c c' i r m hc hc' h hold hi => ?_
  have hs := hc.reachable.history.sound
  have hrecords' := hc'.reachable.history.sound.records
  exact (h.attends hs).marksRefused ((h.isLeader_iff hs).2 hi) hs.records
    (h.issued_eq ▸ hrecords') (hold hi)

/-- What the leader does about the result of a strong command when it handles a message. -/
structure Syncs (refused : Bool) (id : CommandId) (d : Handling) : Prop where
  sent_eq : d.effects.filter (Effect.isSyncReply id) =
    d.dueSyncReplies (d.replica.syncWaiters.contains id) refused id
  waiting_iff : id ∈ d.after.syncWaiters ↔
    (id ∈ d.replica.syncWaiters ∨ d.message = .sync ⟨id⟩) ∧ d.after.value? id = none
  kept : ∀ value, d.replica.value? id = some value → d.after.value? id = some value

/-- The leader answers a client that asks for a result, or notes that the client waits. -/
theorem Handles.syncs_sync {body : Sync} (h : c.Handles i r (.sync body) c')
    (hc : c.ReachableBy rule config bounds) (hi : i = config.leader) (refused : Bool) :
    Syncs refused id ⟨r, .sync body⟩ := by
  have hleader : r.isLeader = true := (h.isLeader_iff hc.reachable.history.sound).2 hi
  have hnone : id ∈ r.syncWaiters → r.value? id = none :=
    (hc.waiting i r h.replica).value?_eq_none
  have hhandle := handle_sync r body
  rw [if_pos hleader] at hhandle
  by_cases hid : body.id = id
  · subst hid
    cases hvalue : r.value? body.id with
    | some value =>
        simp only [hvalue] at hhandle
        have hnot : body.id ∉ r.syncWaiters := by
          intro hwaits
          rw [hnone hwaits] at hvalue
          simp at hvalue
        constructor
        case sent_eq =>
          simp [Handling.effects, Handling.dueSyncReplies, hhandle, hvalue, syncReply,
            Effect.isSyncReply]
        case waiting_iff => simp [Handling.after, hhandle, hvalue, hnot]
        case kept => simp [Handling.after, hhandle]
    | none =>
        simp only [hvalue] at hhandle
        have hstill :
            Replica.value? { r with syncWaiters := r.syncWaiters.insert body.id } body.id = none :=
          hvalue
        constructor
        case sent_eq =>
          simp [Handling.effects, Handling.dueSyncReplies, Handling.after, hhandle, hvalue, hstill]
        case waiting_iff => simp [Handling.after, hhandle, hstill]
        case kept => simp [hvalue]
  · have hother : ReplicaMessage.sync body ≠ .sync ⟨id⟩ := by
      rintro heq
      exact hid (congrArg Sync.id (ReplicaMessage.sync.inj heq))
    have hsame : (r.handle (.sync body)).1.value? id = r.value? id ∧
        (id ∈ (r.handle (.sync body)).1.syncWaiters ↔ id ∈ r.syncWaiters) ∧
        (r.handle (.sync body)).2.filter (Effect.isSyncReply id) = [] := by
      rw [hhandle]
      cases r.value? body.id with
      | some value => exact ⟨rfl, .rfl, by simp [syncReply, Effect.isSyncReply, hid]⟩
      | none => exact ⟨rfl, by simp [hid], rfl⟩
    obtain ⟨hvalue, hwaiters, hsilent⟩ := hsame
    constructor
    case sent_eq =>
      rw [Handling.effects, hsilent, Handling.dueSyncReplies, Handling.after, hvalue]
      cases r.value? id <;> simp [hother]
    case waiting_iff =>
      simp only [Handling.after, hwaiters, hvalue, hother, or_false]
      exact ⟨fun hwaits => ⟨hwaits, hnone hwaits⟩, And.left⟩
    case kept => simp [Handling.after, hvalue]

/-- Whatever message the leader handles, it sends the result of a strong command exactly if that is
due. -/
theorem Handles.syncs (h : c.Handles i r m c') (hc : c.ReachableBy rule config bounds)
    (hc' : c'.ReachableBy rule config bounds) (hi : i = config.leader)
    (hstrong : ∀ q ∈ c.issued, q.id = id → q.weak = false) :
    Syncs (c'.log.refuses id) id ⟨r, m⟩ := by
  by_cases hasks : ∃ body, m = .sync body
  · obtain ⟨body, rfl⟩ := hasks
    exact h.syncs_sync hc hi _
  · have hs := hc.reachable.history.sound
    have hrecords' := hc'.reachable.history.sound.records
    have hother : m ≠ .sync ⟨id⟩ := fun hm => hasks ⟨_, hm⟩
    have hsettles := (h.attends hs).settles ((h.isLeader_iff hs).2 hi) hs.records
      (h.issued_eq ▸ hrecords') (hc.marksRefused i r h.replica hi) (hc.waiting i r h.replica)
      hstrong fun body hm => hasks ⟨body, hm⟩
    refine ⟨?_, ?_, hsettles.kept⟩
    · rw [Handling.effects, hsettles.sent_eq, due, Handling.dueSyncReplies, Handling.after]
      cases r.value? id <;> cases (r.handle m).1.value? id <;> simp [hother, syncReply]
    · rw [or_iff_left hother]
      exact hsettles.waiting_iff

/-! ### What a run does -/

theorem asked_append (handled : List Handling) (d : Handling) (i : ReplicaId) (id : CommandId) :
    asked (handled ++ [d]) i id =
      (asked handled i id || decide (d.replica.id = i ∧ d.message = .sync ⟨id⟩)) := by
  simp [asked]

theorem asked_own (c : Chronicle) (i : ReplicaId) (id : CommandId) :
    asked (c.own i) i id = asked c.handled i id := by
  simp [asked, own, List.any_filter]

/-- In every run somebody waits at the leader for the result of a strong command exactly if somebody
has asked for it and there is none. -/
theorem ReachableBy.waits_iff (hc : c.ReachableBy rule config bounds) :
    ∀ (i : ReplicaId) r, c.network.replicas[i]? = some r → i = config.leader →
      (∀ q ∈ c.issued, q.id = id → q.weak = false) →
        (id ∈ r.syncWaiters ↔ asked c.handled i id = true ∧ r.value? id = none) := by
  refine hc.everywhere (P := fun c i r => i = config.leader →
      (∀ q ∈ c.issued, q.id = id → q.weak = false) →
        (id ∈ r.syncWaiters ↔ asked c.handled i id = true ∧ r.value? id = none))
    (fun n _ i _ _ => by simp [initial, asked, Chronicle.start])
    (fun c c' i r _ hapart hold hi hstrong => ?_) fun c c' i r m hc hc' h hold hi hstrong => ?_
  · rw [← asked_own, hapart.own_eq, asked_own]
    exact hold hi fun q hq => hstrong q (hapart.issued_subset hq)
  · rw [h.issued_eq] at hstrong
    have hsyncs := h.syncs hc hc' hi hstrong
    have hbefore : (r.handle m).1.value? id = none → r.value? id = none := by
      intro hnone
      rw [Option.eq_none_iff_forall_ne_some]
      intro value hvalue
      have hkept : (r.handle m).1.value? id = some value := hsyncs.kept value hvalue
      simp [hkept] at hnone
    have hwaits : id ∈ (r.handle m).1.syncWaiters ↔
        (id ∈ r.syncWaiters ∨ m = .sync ⟨id⟩) ∧ (r.handle m).1.value? id = none :=
      hsyncs.waiting_iff
    rw [hwaits, hold hi hstrong, h.handled_eq, asked_append]
    simp only [Bool.or_eq_true, decide_eq_true_iff, h.id_eq hc.reachable.history.sound, true_and]
    refine and_congr_left fun hnone => or_congr_left ?_
    rw [and_iff_left (hbefore hnone)]

theorem reply?_eq_some {e : Effect} {reply : Reply} (h : e.reply? id = some reply) :
    reply.id = id ∧ ∃ client, e = .tell client (.reply reply) := by
  cases e with
  | tell client message =>
      cases message with
      | reply body =>
          obtain ⟨hid, rfl⟩ : body.id = id ∧ body = reply := by simpa [Effect.reply?] using h
          exact ⟨hid, client, rfl⟩
      | _ => simp [Effect.reply?] at h
  | _ => simp [Effect.reply?] at h

/-- The leader's first tentative answer to a strong command tells whether that was refused. -/
theorem ReachableBy.refused_eq (hc : c.ReachableBy rule config bounds)
    (hr : c.network.replicas[config.leader]? = some r)
    (hstrong : ∀ q ∈ c.issued, q.id = id → q.weak = false) :
    refused c.handled config.leader id = c.log.refuses id := by
  have hrecords := hc.reachable.history.sound.records
  unfold refused
  cases hfirst : firstReply? c.handled config.leader id with
  | some reply =>
      obtain ⟨e, he, hreply⟩ := List.exists_of_findSome?_eq_some hfirst
      obtain ⟨rfl, client, rfl⟩ := reply?_eq_some hreply
      rw [hrecords.refuses_eq (hc.reply_answers _ r hr client reply he).2]
      rfl
  | none =>
      refine Eq.symm (Bool.eq_false_iff.2 fun hrefuses => ?_)
      obtain ⟨a, ha, hrefused⟩ := List.any_eq_true.1 hrefuses
      obtain ⟨rfl, -⟩ := of_decide_eq_true hrefused
      obtain ⟨slot, hslot⟩ := List.mem_iff_getElem?.1 ha
      have hq := Log.request?_of_getElem? hslot
      obtain ⟨value, ok, hmem⟩ := hc.replied _ r hr rfl slot _ hq
        (hstrong _ (hrecords.request_issued hq) rfl)
      have hnone := List.findSome?_eq_none_iff.1 hfirst _ hmem
      simp [Effect.reply?] at hnone

/-- In every run each message that the leader handles makes it send the result of a strong command
exactly if that is due, and no other replica sends it. -/
theorem ReachableBy.sent_syncReplies (hc : c.ReachableBy rule config bounds)
    (hstrong : ∀ q ∈ c.issued, q.id = id → q.weak = false) {before : List Handling} {d : Handling}
    (hd : before ++ [d] <+: c.handled) :
    d.effects.filter (Effect.isSyncReply id) = if d.replica.id = config.leader then
      d.dueSyncReplies (asked before config.leader id) (refused (before ++ [d]) config.leader id) id
      else [] := by
  obtain ⟨c₀, c₁, hmoment⟩ := hc.exists_moment hd
  have h := hmoment.handles
  have hs := hmoment.reachable.reachable.history.sound
  have hstrong' : ∀ q ∈ c₁.issued, q.id = id → q.weak = false :=
    fun q hq => hstrong q (hmoment.issued_subset hq)
  have hstrong₀ : ∀ q ∈ c₀.issued, q.id = id → q.weak = false := h.issued_eq ▸ hstrong'
  split
  · rename_i hi
    have hafter := h.replica'
    rw [hi] at hafter
    have hsyncs := h.syncs hmoment.reachable hmoment.reachable' hi hstrong₀
    have hwaits := hmoment.reachable.waits_iff _ _ h.replica hi hstrong₀
    have hrefused := hmoment.reachable'.refused_eq hafter hstrong'
    rw [h.handled_eq, hmoment.handled_eq] at hrefused
    rw [hmoment.handled_eq, hi] at hwaits
    rw [hsyncs.sent_eq, hrefused]
    unfold Handling.dueSyncReplies
    cases hvalue : d.replica.value? id with
    | some value => rfl
    | none =>
        have hsame : d.replica.syncWaiters.contains id = asked before config.leader id := by
          rw [Bool.eq_iff_iff, Std.ExtTreeSet.contains_iff_mem, hwaits, and_iff_left hvalue]
        rw [hsame]
  · rename_i hother
    refine List.filter_eq_nil_iff.2 fun e he hsync => hother ?_
    exact (h.isLeader_iff hs).1 ((h.attends hs).leads_of_syncReply he hsync)

/-- The result that is due is the one that there is before or after the message. -/
theorem mem_dueSyncReplies {d : Handling} {asked refused : Bool} {e : Effect}
    (h : e ∈ d.dueSyncReplies asked refused id) :
    ∃ value, e = d.replica.syncReply id value ∧
      (d.replica.value? id = some value ∨ d.after.value? id = some value) := by
  unfold Handling.dueSyncReplies at h
  split at h
  · rename_i value hvalue
    split at h
    · exact ⟨value, List.mem_singleton.1 h, .inl hvalue⟩
    · simp at h
  · rename_i value _ hvalue
    split at h
    · exact ⟨value, List.mem_singleton.1 h, .inr hvalue⟩
    · simp at h
  · simp at h

/-- In every run the leader has sent no other result of a strong command than the one that it
has. -/
theorem ReachableBy.syncReply_eq (hc : c.ReachableBy rule config bounds) :
    ∀ (i : ReplicaId) r, c.network.replicas[i]? = some r → i = config.leader →
      (∀ q ∈ c.issued, q.id = id → q.weak = false) → ∀ e ∈ c.trace i, e.isSyncReply id = true →
        ∃ value, r.value? id = some value ∧ e = r.syncReply id value := by
  refine hc.everywhere (P := fun c i r => i = config.leader →
      (∀ q ∈ c.issued, q.id = id → q.weak = false) → ∀ e ∈ c.trace i, e.isSyncReply id = true →
        ∃ value, r.value? id = some value ∧ e = r.syncReply id value)
    (fun n _ i _ _ e he => by simp [trace_start] at he)
    (fun c c' i r _ hapart hold hi hstrong => ?_)
    fun c c' i r m hc hc' h hold hi hstrong e he hsync => ?_
  · rw [hapart.trace_eq]
    exact hold hi fun q hq => hstrong q (hapart.issued_subset hq)
  · have hs := hc.reachable.history.sound
    rw [h.issued_eq] at hstrong
    have hsyncs := h.syncs hc hc' hi hstrong
    have hreply : ∀ value, (r.handle m).1.syncReply id value = r.syncReply id value := by
      intro value
      rw [syncReply, (h.attends hs).serving.id_eq, syncReply]
    have hkept : ∀ value, r.value? id = some value → (r.handle m).1.value? id = some value :=
      hsyncs.kept
    rw [h.trace_self hs] at he
    rcases List.mem_append.1 he with he | he
    · obtain ⟨value, hvalue, rfl⟩ := hold hi hstrong e he hsync
      exact ⟨value, hkept value hvalue, (hreply value).symm⟩
    · have hdue : e ∈ (⟨r, m⟩ : Handling).dueSyncReplies _ _ id :=
        hsyncs.sent_eq ▸ List.mem_filter.2 ⟨he, hsync⟩
      obtain ⟨value, rfl, hvalue | hvalue⟩ := mem_dueSyncReplies hdue
      · exact ⟨value, hkept value hvalue, (hreply value).symm⟩
      · exact ⟨value, hvalue, (hreply value).symm⟩

/-- Take a strong command at any time of a run. Somebody waits at the leader for its result exactly
if somebody has asked for it and it has not executed, and the leader has a result exactly if it has,
namely what executing its slot in order yields. Whatever message the leader has handled, it has told
a client the result just as that was due: once, at once, if the client asked and there was a result;
once if the message made the command execute, and somebody had asked before or the first answer to
the command was a refusal; and otherwise not at all. No other replica has told anybody a result, and
all that were told are the result. -/
theorem sync_answers (hc : c.Reachable config bounds)
    (hr : c.network.replicas[config.leader]? = some r)
    (hstrong : ∀ q ∈ c.issued, q.id = id → q.weak = false) :
    (id ∈ r.syncWaiters ↔ asked c.handled config.leader id = true ∧ r.value? id = none) ∧
    (∀ value, r.value? id = some value ↔ c.log.Results r.executed id value) ∧
    (∀ before d, before ++ [d] <+: c.handled →
      d.effects.filter (Effect.isSyncReply id) = if d.replica.id = config.leader then
        d.dueSyncReplies (asked before config.leader id)
          (refused (before ++ [d]) config.leader id) id
        else []) ∧
    ∀ d ∈ c.handled, ∀ e ∈ d.effects, e.isSyncReply id = true →
      ∃ value, r.value? id = some value ∧
        e = .tell id.client (.syncReply ⟨r.id, id, value, .clear⟩) := by
  have hs := hc.history.sound
  have hby := hc.reachableBy
  refine ⟨hby.waits_iff _ r hr rfl hstrong, fun value => ⟨fun hvalue => ?_, ?_⟩,
    fun before d hd => hby.sent_syncReplies hstrong hd, fun d hd e he hsync => ?_⟩
  · exact (hs.replicas.follows hr).values_result hvalue
  · rintro ⟨slot, q, hq, rfl, hlt, rfl⟩
    exact (hc.value?_eq_some_iff hr hq (hstrong q (hs.records.request_issued hq) rfl)).2 ⟨hlt, rfl⟩
  · obtain ⟨before, after, hsplit⟩ := List.mem_iff_append.1 hd
    have hprefix : before ++ [d] <+: c.handled := ⟨after, by simp [hsplit]⟩
    have hsent := hby.sent_syncReplies hstrong hprefix
    have hmem := List.mem_filter.2 ⟨he, hsync⟩
    have hleader : d.replica.id = config.leader := by
      by_contra hother
      rw [hsent, if_neg hother] at hmem
      simp at hmem
    refine hby.syncReply_eq _ r hr rfl hstrong e ?_ hsync
    exact List.mem_flatMap.2 ⟨d, mem_own.2 ⟨hd, hleader⟩, he⟩

/-- Client 1 writes a key and client 2 reads it, which the leader refuses. Client 2 asks for the
committed result; the request is repeated. One of the two arrives before the read executes and one
after. -/
def askedRead : List Network.Action :=
  [.propose 0 ⟨.put, 1, ⟨[97]⟩⟩, .propose 1 (.get 1), .deliver 0, .deliver 1, .deliver 4,
    .deliver 2, .deliver 2, .duplicate 3, .deliver 3, .deliver 2, .deliver 2, .deliver 4,
    .deliver 3]

/-- The read executes with the seventh message that is handled, and the late request is the eighth.
Each of them sends the result once. -/
theorem sync_answers_askedRead :
    ∃ r, (pair.run askedRead).network.replicas[0]? = some r ∧
      ⟨2, 0⟩ ∉ r.syncWaiters ∧ (pair.run askedRead).log.Results r.executed ⟨2, 0⟩ ⟨[97]⟩ ∧
      ((pair.run askedRead).handled.map fun d =>
        (d.effects.filter (Effect.isSyncReply ⟨2, 0⟩)).length) = [0, 0, 0, 0, 0, 0, 1, 1] ∧
      ∀ d ∈ (pair.run askedRead).handled, ∀ e ∈ d.effects, e.isSyncReply ⟨2, 0⟩ = true →
        e = .tell 2 (.syncReply ⟨r.id, ⟨2, 0⟩, ⟨[97]⟩, .clear⟩) := by
  have hstrong : ∀ q ∈ (pair.run askedRead).issued, q.id = ⟨2, 0⟩ → q.weak = false := by
    decide +kernel
  have hvalue : ((pair.run askedRead).network.replicas[0]?).bind
      (fun r => r.value? ⟨2, 0⟩) = some ⟨[97]⟩ := by decide +kernel
  obtain ⟨r, hr, hvalue⟩ := Option.bind_eq_some_iff.1 hvalue
  obtain ⟨hwaits, hresults, -, htold⟩ := sync_answers (reachable_pair.run askedRead) hr hstrong
  refine ⟨r, hr, fun hwaiting => ?_, (hresults _).1 hvalue, by decide +kernel,
    fun d hd e he hsync => ?_⟩
  · have hnone := (hwaits.1 hwaiting).2
    rw [hvalue] at hnone
    simp at hnone
  · obtain ⟨value, hsame, rfl⟩ := htold d hd e he hsync
    obtain rfl := Option.some.inj (hvalue.symm.trans hsame)
    rfl

end Chronicle

end WitnessReplication
