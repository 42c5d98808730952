import WitnessReplication.Proofs.Network.Soundness
import WitnessReplication.Proofs.Replica.Carrying

/-!
# What verdicts and acknowledgements vouch for

A replica holds a request while it has it witnessed, and from then on in the slot that the request
gets: it has accepted the request there, or has executed the slot. Nothing that a replica does
makes it lose a request (`Change.holds`): execution takes a command out of the witness only when
the slot of that very command has executed, since no other command has its id.

A verdict on a strong command vouches for this, whether it was given when the command arrived or
because the command is ordered, and an acknowledgement vouches that the slot has accepted its
request (`Vouches`).
-/

namespace WitnessReplication

/-- An accept assigns a request to a slot. -/
def Accept.Assigns (a : Accept) (slot : Slot) (q : Request) : Prop :=
  a.slot = slot ∧ a.id = q.id ∧ a.command = some q.command ∧ a.weak = q.weak

theorem ReplicaMessage.Backed.request_mem {log : Log} {issued : List Request} {leads : Bool}
    {m : ReplicaMessage} {q : Request} (h : m.Backed log issued leads) (hq : m.request? = some q) :
    q ∈ issued := by
  cases m with
  | propose body => exact Option.some.inj hq ▸ h
  | weakPropose body => exact Option.some.inj hq ▸ h
  | causalPropose body => exact Option.some.inj hq ▸ h
  | _ => simp [ReplicaMessage.request?] at hq

namespace Replica

/-- A replica has a request witnessed, or has accepted it in its slot, or has executed it. -/
def Holds (log : Log) (r : Replica) (q : Request) : Prop :=
  r.witnessed[q.id]? = some ⟨q.command, !q.weak⟩ ∨
    ∃ slot, log.request? slot = some q ∧ r.HasAccepted slot q

/-- What a replica has sent since it was `base` and before message `m` vouches for what it holds,
and it holds what it held before. The accepted slots that it has yet to report are accepted. -/
structure Vouches (log : Log) (issued : List Request) (base : Replica) (m : ReplicaMessage)
    (r : Replica) (sent : List Effect) : Prop where
  holds : ∀ q ∈ issued, base.Holds log q → r.Holds log q
  ordered : ∀ (slot : Slot) entry, r.ordered.accepted[slot]? = some entry →
    ∃ q, log.request? slot = some q ∧ (q.id, q.weak) = entry ∧ r.HasAccepted slot q
  verdicts : ∀ client a, .tell client (.recordAck a) ∈ sent →
    a.replica = base.id ∧ ∃ q ∈ issued, q.id = a.id ∧ r.Holds log q
  acks : ∀ a, .acceptAck a ∈ sent → a.replica = base.id ∧ ∃ body q, m = .accept body ∧
    body.Assigns a.slot q ∧ log.request? a.slot = some q ∧ r.HasAccepted a.slot q

variable {log log' : Log} {issued : List Request} {config : Config} {leads : Bool}
variable {base r r' : Replica} {m : ReplicaMessage} {slot : Slot} {s : LiveSlot} {event : Event}
variable {q : Request} {sent effects : List Effect}

/-! ### Holding a request -/

theorem Holds.mono (h : r.Holds log q) (hlog : log <+: log') : r.Holds log' q := by
  rcases h with hwitnessed | ⟨slot, hq, haccepted⟩
  · exact .inl hwitnessed
  · exact .inr ⟨slot, Log.request?_mono hlog hq, haccepted⟩

/-- A request that is recorded is held: if it has a result, then its slot has executed. -/
theorem Recorded.holds (h : r.Recorded q) (hrecords : log.Records issued) (hr : r.Follows log)
    (hq : q ∈ issued) : r.Holds log q := by
  rcases h with hwitnessed | hvalue
  · exact .inl hwitnessed
  · obtain ⟨value, hvalue⟩ : ∃ value, r.value? q.id = some value := by
      rw [Std.ExtTreeMap.contains_eq_isSome_getElem?] at hvalue
      exact Option.isSome_iff_exists.1 hvalue
    obtain ⟨slot, q', hq', hid, hexec, -⟩ := hr.values_result hvalue
    obtain rfl := hrecords.issued_unique (hrecords.request_issued hq') hq hid
    exact .inr ⟨slot, hq', .inl hexec⟩

/-- Execution takes at most the executed command out of the record. -/
theorem witnessed_execute (r : Replica) (slot : Slot) (s : LiveSlot) {id id' : CommandId}
    (c : Command) (hne : id ≠ id') :
    (r.execute slot s id c).1.witnessed[id']? = r.witnessed[id']? := by
  rw [execute_eq]
  dsimp only
  split
  · rfl
  · simp only [Std.ExtTreeMap.getElem?_erase, Std.compare_eq_iff_eq, if_neg hne]

/-- A replica goes on holding a request through every change. -/
theorem Change.holds (hs : Serving config leads log base r []) (hrecords : log.Records issued)
    (hc : Change (fun slot event => event.Fits log leads slot) r effects r') (hq : q ∈ issued)
    (h : r.Holds log q) : r'.Holds log q := by
  rcases h with hwitnessed | ⟨slot, hslot, haccepted⟩
  · obtain ⟨_, _, _, rfl⟩ | ⟨slot, s, id, c, hlive, hx, hturn, rfl⟩ := hc.frame_or_executed
    · exact .inl hwitnessed
    · by_cases hid : id = q.id
      · -- the slot that executes has the request
        right
        obtain ⟨-, -, hsid, hsc⟩ := LiveSlot.executable?_eq_some hx
        have hslot := hs.follows.live_fits hlive id c hsid hsc
        obtain rfl := hrecords.issued_unique (hrecords.request_issued hslot) hq hid
        refine ⟨slot, hslot, .inl ?_⟩
        rw [executed_execute]
        exact Nat.lt_succ_self slot
      · left
        exact (witnessed_execute r slot s c hid).trans hwitnessed
  · exact .inr ⟨slot, hslot, hc.carries hs (lasting_hasAccepted hslot) haccepted⟩

/-- A replica goes on holding a request whatever it notes. -/
theorem Noted.holds (hn : r.Noted m.request? r') (hrecords : log.Records issued)
    (hr' : r'.Follows log) (hm : ∀ q, m.request? = some q → q ∈ issued) (hq : q ∈ issued)
    (h : r.Holds log q) : r'.Holds log q := by
  rcases h with hwitnessed | ⟨slot, hslot, haccepted⟩
  · rcases hn.2 q.id with hsame | ⟨q', hq', hid, hrecorded⟩
    · exact .inl (hsame.trans hwitnessed)
    · obtain rfl := hrecords.issued_unique (hm q' hq') hq hid
      exact hrecorded.holds hrecords hr' hq
  · right
    obtain ⟨⟨_, _, _, _, _, _, rfl⟩, -⟩ := hn
    exact ⟨slot, hslot, haccepted⟩

/-! ### Reporting accepted slots -/

/-- Moving the accepted prefix on reports accepted slots, and leaves others to be reported. -/
theorem OrderedPrefix.advance_spec (o : OrderedPrefix) :
    (∀ (slot : Slot) entry, o.advance.1.accepted[slot]? = some entry →
      o.accepted[slot]? = some entry) ∧
    ∀ entry ∈ o.advance.2, ∃ slot : Slot, o.accepted[slot]? = some entry := by
  fun_induction OrderedPrefix.advance o with
  | case1 o hnone => exact ⟨fun _ _ h => h, by simp⟩
  | case2 o entry hentry rest ih =>
      obtain ⟨hleft, hreported⟩ := ih
      have herase : ∀ (slot : Slot) entry,
          (o.accepted.erase o.next)[slot]? = some entry → o.accepted[slot]? = some entry := by
        intro slot entry h
        rw [Std.ExtTreeMap.getElem?_erase] at h
        split at h
        · simp at h
        · exact h
      constructor
      · intro slot entry h
        exact herase slot entry (hleft slot entry h)
      · intro entry' hmem
        rcases List.mem_cons.1 hmem with rfl | hmem
        · exact ⟨o.next, hentry⟩
        · obtain ⟨slot, h⟩ := hreported entry' hmem
          exact ⟨slot, herase slot entry' h⟩

/-- Counting a slot as accepted reports accepted slots of strong commands only. -/
theorem order_spec (r : Replica) (slot : Slot) (id : CommandId) (weak : Bool) :
    (∀ (other : Slot) entry, (r.order slot id weak).1.ordered.accepted[other]? = some entry →
      r.ordered.accepted[other]? = some entry ∨ (other = slot ∧ (id, weak) = entry)) ∧
    ∀ e ∈ (r.order slot id weak).2, ∃ (other : Slot) (id' : CommandId), e = r.orderedAck id' ∧
      (r.ordered.accepted[other]? = some (id', false) ∨
        (other = slot ∧ (id, weak) = (id', false))) := by
  have hinsert : ∀ (other : Slot) entry,
      (r.ordered.accepted.insert slot (id, weak))[other]? = some entry →
        r.ordered.accepted[other]? = some entry ∨ (other = slot ∧ (id, weak) = entry) := by
    intro other entry h
    rw [Std.ExtTreeMap.getElem?_insert] at h
    split at h
    · rename_i heq
      exact .inr ⟨(Std.LawfulEqOrd.eq_of_compare heq).symm, Option.some.inj h⟩
    · exact .inl h
  unfold order
  split
  · exact ⟨fun _ _ h => .inl h, by simp⟩
  · obtain ⟨hleft, hreported⟩ := OrderedPrefix.advance_spec
      { r.ordered with accepted := r.ordered.accepted.insert slot (id, weak) }
    constructor
    · intro other entry h
      exact hinsert other entry (hleft other entry h)
    · intro e he
      obtain ⟨entry, hmem, rfl⟩ := List.mem_map.1 he
      obtain ⟨hmem, hstrong⟩ := List.mem_filter.1 hmem
      obtain ⟨other, h⟩ := hreported entry hmem
      have hentry : entry = (entry.1, false) := by
        rw [← show entry.2 = false by simpa using hstrong]
      rw [hentry] at h
      exact ⟨other, entry.1, rfl, hinsert other _ h⟩

/-! ### Vouching -/

/-- A change leaves what was vouched for vouched for, and what it newly reports and sends is. -/
theorem Vouches.extend (h : Vouches log issued base m r sent)
    (hs : Serving config leads log base r []) (hrecords : log.Records issued)
    (hc : Change (fun slot event => event.Fits log leads slot) r effects r')
    (hordered : ∀ (slot : Slot) entry, r'.ordered.accepted[slot]? = some entry →
      r.ordered.accepted[slot]? = some entry ∨
        ∃ q, log.request? slot = some q ∧ (q.id, q.weak) = entry ∧ r'.HasAccepted slot q)
    (hverdicts : ∀ client a, .tell client (.recordAck a) ∈ effects →
      a.replica = base.id ∧ ∃ q ∈ issued, q.id = a.id ∧ r'.Holds log q)
    (hacks : ∀ a, .acceptAck a ∈ effects → a.replica = base.id ∧ ∃ body q, m = .accept body ∧
      body.Assigns a.slot q ∧ log.request? a.slot = some q ∧ r'.HasAccepted a.slot q) :
    Vouches log issued base m r' (sent ++ effects) := by
  have haccepted : ∀ {slot q}, log.request? slot = some q → r.HasAccepted slot q →
      r'.HasAccepted slot q := fun hq => hc.carries hs (lasting_hasAccepted hq)
  constructor
  case holds => exact fun q hq hheld => hc.holds hs hrecords hq (h.holds q hq hheld)
  case ordered =>
    intro slot entry hentry
    rcases hordered slot entry hentry with hold | hnew
    · obtain ⟨q, hq, hid, hkept⟩ := h.ordered slot entry hold
      exact ⟨q, hq, hid, haccepted hq hkept⟩
    · exact hnew
  case verdicts =>
    intro client a hmem
    rcases List.mem_append.1 hmem with hmem | hmem
    · obtain ⟨hid, q, hq, hqid, hheld⟩ := h.verdicts client a hmem
      exact ⟨hid, q, hq, hqid, hc.holds hs hrecords hq hheld⟩
    · exact hverdicts client a hmem
  case acks =>
    intro a hmem
    rcases List.mem_append.1 hmem with hmem | hmem
    · obtain ⟨hid, body, q, hm, hassigns, hq, hkept⟩ := h.acks a hmem
      exact ⟨hid, body, q, hm, hassigns, hq, haccepted hq hkept⟩
    · exact hacks a hmem

/-- Taking an accept vouches for the slot. -/
theorem Vouches.accept {a : Accept} (h : Vouches log issued base m r sent)
    (hs : Serving config leads log base r []) (hrecords : log.Records issued)
    (hlive : r.live[slot]? = some s) (happlied : s.applied = false)
    (hstale : (Event.accept a).isStale r.config.ballot = false)
    (hfit : (Event.accept a).Fits log leads slot) (hslot : slot = a.slot) (hm : m = .accept a) :
    Vouches log issued base m
      ((r.apply slot s (.accept a)).1.putSlot slot (r.apply slot s (.accept a)).2.1)
      (sent ++ (r.apply slot s (.accept a)).2.2) := by
  have htook : Change (fun slot event => event.Fits log leads slot) r
      (r.apply slot s (.accept a)).2.2
      ((r.apply slot s (.accept a)).1.putSlot slot (r.apply slot s (.accept a)).2.1) :=
    .took hlive happlied hstale hfit
  obtain ⟨hleads, c, hc, hq⟩ := hfit
  simp only [apply, onAccept] at htook ⊢
  by_cases haccepted : s.accepted = true
  · simp only [if_pos haccepted] at htook ⊢
    exact h.extend hs hrecords htook (fun _ _ h => .inl h) (by simp) (by simp)
  · simp only [if_neg haccepted] at htook ⊢
    obtain ⟨hleft, hreported⟩ := order_spec r slot a.id a.weak
    generalize hr' : ((r.order slot a.id a.weak).1.putSlot slot _) = r' at htook ⊢
    have hnow : r'.HasAccepted slot ⟨a.id, c, a.weak⟩ := by
      subst hr'
      refine .inr ⟨_, by simp; rfl, rfl, rfl, ?_, rfl⟩
      simp [hc]
    -- a slot that is reported is this one, or was accepted before
    have hentry : ∀ (other : Slot) entry, (r.ordered.accepted[other]? = some entry ∨
        (other = slot ∧ (a.id, a.weak) = entry)) →
        ∃ q, log.request? other = some q ∧ (q.id, q.weak) = entry ∧ r'.HasAccepted other q := by
      rintro other entry (hold | ⟨rfl, rfl⟩)
      · obtain ⟨q, hq, hid, hkept⟩ := h.ordered other entry hold
        exact ⟨q, hq, hid, htook.carries hs (lasting_hasAccepted hq) hkept⟩
      · exact ⟨_, hq, rfl, hnow⟩
    apply h.extend hs hrecords htook
    · intro other entry hmem
      subst hr'
      exact .inr (hentry other entry (hleft other entry hmem))
    · intro client a' hmem
      rcases List.mem_cons.1 hmem with hmem | hmem
      · simp at hmem
      · obtain ⟨other, id', he, hold⟩ := hreported _ hmem
        obtain ⟨q, hq, hid, hkept⟩ := hentry other _ hold
        simp only [orderedAck, Effect.tell.injEq, ClientMessage.recordAck.injEq] at he
        obtain ⟨-, rfl⟩ := he
        exact ⟨hs.id_eq, q, hrecords.request_issued hq, (Prod.mk.inj hid).1,
          .inr ⟨other, hq, hkept⟩⟩
    · intro a' hmem
      rcases List.mem_cons.1 hmem with hmem | hmem
      · obtain rfl := Effect.acceptAck.inj hmem
        exact ⟨hs.id_eq, a, _, hm, ⟨hslot.symm, rfl, hc, rfl⟩, hq, hnow⟩
      · obtain ⟨other, id', he, -⟩ := hreported _ hmem
        simp [orderedAck] at he

/-- An event other than an accept reports no slot and sends no verdict. -/
theorem apply_other (r : Replica) (slot : Slot) (s : LiveSlot) (hevent : ∀ a, event ≠ .accept a) :
    (r.apply slot s event).1.ordered = r.ordered ∧
      ∀ e ∈ (r.apply slot s event).2.2,
        e = .committed slot ∨ ∃ body, e = .broadcast (.commit body) := by
  constructor
  · have hcommit : ∀ s, (r.commitSlot slot s).1.ordered = r.ordered := by
      intro s
      unfold commitSlot
      split <;> rfl
    cases event with
    | propose p =>
        simp only [apply, onPropose]
        split
        · exact hcommit _
        · rfl
    | accept a => exact absurd rfl (hevent a)
    | acceptAck a =>
        simp only [apply, onAcceptAck]
        split
        · rfl
        · split
          · exact hcommit _
          · rfl
    | commit b => exact hcommit s
    | wake => rfl
  · intro e he
    rcases effects_apply he with h | h | ⟨a, rfl, -⟩
    · exact .inl h
    · exact .inr h
    · exact absurd rfl (hevent a)

/-- Every change leaves what was vouched for vouched for. -/
theorem Change.vouches (h : Vouches log issued base m r sent)
    (hs : Serving base.config base.isLeader log base r []) (hrecords : log.Records issued)
    (hbatch : ∀ b, m ≠ .batch b)
    (hc : Change (fun slot event => event.Handed log base m slot) r effects r') :
    Vouches log issued base m r' (sent ++ effects) := by
  have hfits := hc.mono fun _ _ hfit => hfit.1
  cases hc with
  | opened hlive hexec =>
      exact h.extend hs hrecords hfits (fun _ _ h => .inl h) (by simp) (by simp)
  | @took slot s event hlive happlied hstale hfit =>
      by_cases haccept : ∃ a, event = .accept a
      · obtain ⟨a, rfl⟩ := haccept
        obtain ⟨hslot, rfl | ⟨b, rfl, -⟩⟩ := hfit.2
        · exact h.accept hs hrecords hlive happlied hstale hfit.1 hslot rfl
        · exact absurd rfl (hbatch b)
      · obtain ⟨hordered, hsent⟩ := apply_other r slot s fun a ha => haccept ⟨a, ha⟩
        apply h.extend hs hrecords hfits
        · intro slot' entry hentry
          exact .inl (hordered ▸ hentry)
        · intro client a hmem
          rcases hsent _ hmem with he | ⟨_, he⟩ <;> simp at he
        · intro a hmem
          rcases hsent _ hmem with he | ⟨_, he⟩ <;> simp at he
  | awaited hlive hexec =>
      exact h.extend hs hrecords hfits (fun _ _ h => .inl h) (by simp) (by simp)
  | @executed slot s id c hlive hx hturn =>
      have hsilent : ∀ e ∈ (r.execute slot s id c).2,
          (∀ client a, e ≠ .tell client (.recordAck a)) ∧ ∀ a, e ≠ .acceptAck a := by
        intro e he
        rcases effects_execute he with rfl | rfl | he
        · simp
        · simp
        · obtain ⟨-, rfl | ⟨causal, rfl⟩⟩ := mem_answers he
          · simp [syncReply]
          · cases causal <;> simp [weakReply]
      apply h.extend hs hrecords hfits
      · intro slot' entry hentry
        obtain ⟨_, _, _, _, _, -, hframe⟩ := r.execute_frame id c slot s
        rw [hframe] at hentry
        exact .inl hentry
      · intro client a hmem
        exact absurd rfl ((hsilent _ hmem).1 client a)
      · intro a hmem
        exact absurd rfl ((hsilent _ hmem).2 a)

/-- What a replica vouches for is kept by all that it does with a message. -/
theorem kept_vouches (hrecords : log.Records issued)
    (hm : ∀ q, m.request? = some q → q ∈ issued) (hbatch : ∀ b, m ≠ .batch b) :
    Kept log base m (Vouches log issued base m) where
  changed hs h hc := hc.vouches h hs hrecords hbatch
  told client message hs h hmessage := by
    constructor
    case holds => exact h.holds
    case ordered => exact h.ordered
    case verdicts =>
      intro client' a hmem
      rcases List.mem_append.1 hmem with hmem | hmem
      · exact h.verdicts client' a hmem
      · simp only [List.mem_singleton, Effect.tell.injEq] at hmem
        obtain ⟨hid, q, hq, hqid, hrecorded⟩ := hmessage a hmem.2.symm
        exact ⟨hid.trans hs.id_eq, q, hm q hq, hqid,
          hrecorded.holds hrecords hs.follows (hm q hq)⟩
    case acks =>
      intro a hmem
      rcases List.mem_append.1 hmem with hmem | hmem
      · exact h.acks a hmem
      · simp at hmem
  announced body h := by
    constructor
    case holds => exact h.holds
    case ordered => exact h.ordered
    case verdicts =>
      intro client a hmem
      exact h.verdicts client a (by simpa using hmem)
    case acks =>
      intro a hmem
      exact h.acks a (by simpa using hmem)
  noted hs h hn := by
    have hfollows := (hn.serving hs).follows
    have hframe := hn.1
    constructor
    case holds => exact fun q hq hheld => hn.holds hrecords hfollows hm hq (h.holds q hq hheld)
    case verdicts =>
      intro client a hmem
      obtain ⟨hid, q, hq, hqid, hheld⟩ := h.verdicts client a hmem
      exact ⟨hid, q, hq, hqid, hn.holds hrecords hfollows hm hq hheld⟩
    all_goals
      obtain ⟨_, _, _, _, _, _, rfl⟩ := hframe
    case ordered => exact h.ordered
    case acks => exact h.acks

/-- Whatever message a replica handles, it vouches only for what it holds. -/
theorem Attends.vouches (h : base.Attends config log issued m log')
    (hrecords : log'.Records issued)
    (hordered : ∀ (slot : Slot) entry, base.ordered.accepted[slot]? = some entry →
      ∃ q, log.request? slot = some q ∧ (q.id, q.weak) = entry ∧ base.HasAccepted slot q) :
    Vouches log' issued base m (base.handle m).1 (base.handle m).2 := by
  have hbatch : ∀ b, m ≠ .batch b := by
    rintro b rfl
    exact h.backed
  apply h.keeps (kept_vouches hrecords (fun _ hq => h.backed.request_mem hq) hbatch)
  constructor
  case holds => exact fun q hq hheld => hheld
  case ordered =>
    intro slot entry hentry
    obtain ⟨q, hq, hid, haccepted⟩ := hordered slot entry hentry
    exact ⟨q, Log.request?_mono h.prefix_log hq, hid, haccepted⟩
  case verdicts => simp
  case acks => simp

end Replica

end WitnessReplication
