import Mathlib.Data.List.Intervals
import Mathlib.Order.Bounds.Basic
import WitnessReplication.Proofs.Replica.Digesting
import WitnessReplication.Proofs.Replica.Uptake

/-!
# The accepted prefix

A replica that does not lead counts the slots for which an accept of its epoch has come, in whatever
order they come. Its prefix ends at the first slot for which none has come
(`Replica.OrderedPrefix.Covers`), and when the prefix moves on, the clients of the strong commands
in the slots that it newly covers are told, in the order of the slots (`Replica.Reports`). -/

namespace WitnessReplication

/-- A message tells a client that its command is ordered. -/
def Sent.isOrderedAck : Sent → Bool
  | .toClient _ (.recordAck a) => a.ok = .ordered
  | _ => false

namespace Accept

/-- The first accept of a slot in an epoch. -/
def first? (ballot : Ballot) (accepts : List Accept) (slot : Slot) : Option Accept :=
  accepts.find? fun a => decide (a.ballot = ballot ∧ a.slot = slot)

/-- The command that is accepted, and whether it is weak. -/
def entry (a : Accept) : CommandId × Bool := (a.id, a.weak)

/-- What a replica tells the client of a strong command that is accepted: it is ordered. -/
def orderedAck? (id : ReplicaId) (ballot : Ballot) (a : Accept) : Option Sent :=
  if a.weak then none
  else some (.toClient a.id.client (.recordAck ⟨id, ballot, a.id, .ordered, none⟩))

/-- What a replica tells the clients of the strong commands in some slots. -/
def orderedAcks (id : ReplicaId) (ballot : Ballot) (accepts : List Accept) (slots : List Slot) :
    List Sent :=
  slots.filterMap fun slot => (first? ballot accepts slot).bind (orderedAck? id ballot)

/-- The entries of the slots for which accepts of an epoch have come. -/
def entry? (ballot : Ballot) (accepts : List Accept) (slot : Slot) : Option (CommandId × Bool) :=
  (first? ballot accepts slot).map entry

variable {id : ReplicaId} {ballot : Ballot} {accepts accepts' more : List Accept} {slot : Slot}
variable {slots slots' : List Slot} {a : Accept}

/-- The first accept of a slot stays what it is when more come. -/
theorem first?_append (h : (first? ballot accepts slot).isSome = true) :
    first? ballot (accepts ++ more) slot = first? ballot accepts slot := by
  rw [first?] at h ⊢
  rw [List.find?_append, Option.or_of_isSome h, first?]

theorem first?_concat_of_ne (h : ¬(a.ballot = ballot ∧ a.slot = slot)) :
    first? ballot (accepts ++ [a]) slot = first? ballot accepts slot := by
  rw [first?, List.find?_append, List.find?_singleton, if_neg (by simpa using h), Option.or_none]
  rfl

theorem first?_concat_self (h : first? a.ballot accepts a.slot = none) :
    first? a.ballot (accepts ++ [a]) a.slot = some a := by
  rw [first?] at h
  rw [first?, List.find?_append, h, List.find?_singleton, if_pos (by simp), Option.none_or]

theorem orderedAcks_append : orderedAcks id ballot accepts (slots ++ slots') =
    orderedAcks id ballot accepts slots ++ orderedAcks id ballot accepts slots' :=
  List.filterMap_append

/-- What clients are told depends on the first accepts of the slots only. -/
theorem orderedAcks_congr
    (h : ∀ slot ∈ slots, first? ballot accepts' slot = first? ballot accepts slot) :
    orderedAcks id ballot accepts' slots = orderedAcks id ballot accepts slots :=
  List.filterMap_congr fun slot hslot => by rw [h slot hslot]

end Accept

namespace Replica

/-- The messages among some effects that tell clients that their commands are ordered. -/
def orderedSent (leader : ReplicaId) (effects : List Effect) : List Sent :=
  (effects.filterMap (Effect.sent leader)).filter Sent.isOrderedAck

namespace OrderedPrefix

/-- A prefix and the later slots hold the entries of all accepted slots. -/
structure Keeps (entries : Slot → Option (CommandId × Bool)) (o : OrderedPrefix) : Prop where
  covered : ∀ slot < o.next, (entries slot).isSome = true
  later : ∀ slot, o.next ≤ slot → o.accepted[slot]? = entries slot

/-- A prefix covers all slots before the first one that is not accepted. -/
structure Covers (entries : Slot → Option (CommandId × Bool)) (o : OrderedPrefix) : Prop
    extends o.Keeps entries where
  ends : entries o.next = none

end OrderedPrefix

/-- What a replica that becomes another one sends: for the slots that its prefix newly covers, that
their strong commands are ordered. -/
structure Reports (id : ReplicaId) (config : Config) (accepts : List Accept) (r : Replica)
    (effects : List Effect) (r' : Replica) : Prop where
  next_le : r.ordered.next ≤ r'.ordered.next
  sent_eq : orderedSent config.leader effects =
    Accept.orderedAcks id config.ballot accepts (List.Ico r.ordered.next r'.ordered.next)

variable {id : ReplicaId} {config : Config} {known : Slot → Notice} {r r' r'' : Replica}
variable {slot : Slot} {event : Event} {effects effects' : List Effect} {m : ReplicaMessage}
variable {accepts accepts' : List Accept} {commits : List Commit} {leader : ReplicaId}
variable {o : OrderedPrefix} {entries entries' : Slot → Option (CommandId × Bool)}
variable {entry : CommandId × Bool}

/-! ### Moving the prefix on -/

namespace OrderedPrefix

/-- The prefix moves up to the first slot that is not accepted, over the entries in between. -/
theorem Keeps.advance (h : o.Keeps entries) : o.advance.1.Covers entries ∧
    o.next ≤ o.advance.1.next ∧
    o.advance.2 = (List.Ico o.next o.advance.1.next).filterMap entries := by
  fun_induction OrderedPrefix.advance o with
  | case1 o hnone =>
      have hends : entries o.next = none := (h.later o.next le_rfl).symm.trans hnone
      exact ⟨⟨h, hends⟩, le_rfl, by rw [List.Ico.self_empty, List.filterMap_nil]⟩
  | case2 o entry hentry rest ih =>
      have hfirst : entries o.next = some entry := (h.later o.next le_rfl).symm.trans hentry
      have hkeeps : Keeps entries ⟨o.next + 1, o.accepted.erase o.next⟩ := by
        constructor
        · intro slot hslot
          rcases Nat.lt_succ_iff_lt_or_eq.1 hslot with hlt | rfl
          · exact h.covered slot hlt
          · rw [hfirst, Option.isSome_some]
        · intro slot hslot
          have hother : ¬compare o.next slot = .eq := fun heq =>
            Nat.ne_of_lt hslot (Std.LawfulEqOrd.eq_of_compare heq)
          rw [Std.ExtTreeMap.getElem?_erase, if_neg hother]
          exact h.later slot (Nat.le_of_lt hslot)
      obtain ⟨hcovers, hle, hentries⟩ := ih hkeeps
      refine ⟨hcovers, Nat.le_of_succ_le hle, ?_⟩
      rw [List.Ico.eq_cons hle, List.filterMap_cons_some hfirst, hentries]

/-- Where a prefix ends, the first slot is that is not accepted. -/
theorem Covers.isLeast (h : o.Covers entries) : IsLeast {slot | entries slot = none} o.next := by
  refine ⟨h.ends, fun slot hslot => ?_⟩
  by_contra hlt
  have hsome := h.covered slot (Nat.not_le.1 hlt)
  rw [hslot] at hsome
  simp at hsome

/-- Counting a slot that was not accepted moves the prefix on if it is the one where that ends. -/
theorem Covers.note (h : o.Covers entries) (hnew : entries slot = none)
    (hslot : entries' slot = some entry)
    (hother : ∀ other, other ≠ slot → entries' other = entries other) :
    (o.note slot (some entry)).1.Covers entries' ∧ o.next ≤ (o.note slot (some entry)).1.next ∧
      (o.note slot (some entry)).2 =
        (List.Ico o.next (o.note slot (some entry)).1.next).filterMap entries' := by
  have hle : o.next ≤ slot := h.isLeast.2 hnew
  have hkeeps : Keeps entries' { o with accepted := o.accepted.insert slot entry } := by
    constructor
    · intro other hlt
      rw [hother other (Nat.ne_of_lt (Nat.lt_of_lt_of_le hlt hle))]
      exact h.covered other hlt
    · intro other hother'
      rw [Std.ExtTreeMap.getElem?_insert]
      split
      · rename_i heq
        rw [← Std.LawfulEqOrd.eq_of_compare heq, hslot]
      · rename_i hne
        rw [hother other fun heq => hne (Std.compare_eq_iff_eq.2 heq.symm)]
        exact h.later other hother'
  rw [OrderedPrefix.note, if_neg (Nat.not_lt.2 hle)]
  exact hkeeps.advance

end OrderedPrefix

/-! ### What is sent -/

theorem orderedSent_append : orderedSent leader (effects ++ effects') =
    orderedSent leader effects ++ orderedSent leader effects' := by
  simp [orderedSent]

theorem orderedSent_eq_nil (h : ∀ client a, .tell client (.recordAck a) ∈ effects →
    a.ok ≠ .ordered) : orderedSent leader effects = [] := by
  refine List.filter_eq_nil_iff.2 fun sent hsent => ?_
  obtain ⟨e, he, hsent⟩ := List.mem_filterMap.1 hsent
  cases e with
  | tell client message =>
      obtain rfl := Option.some.inj hsent
      cases message with
      | recordAck a => simpa [Sent.isOrderedAck] using h client a he
      | _ => simp [Sent.isOrderedAck]
  | _ => simp [Effect.sent] at hsent <;> subst hsent <;> simp [Sent.isOrderedAck]

theorem orderedSent_orderedAcks (accepts : List Accept) (slots : List Slot) :
    orderedSent leader
        (r.orderedAcks (slots.filterMap (Accept.entry? r.config.ballot accepts))) =
      Accept.orderedAcks r.id r.config.ballot accepts slots := by
  induction slots with
  | nil => rfl
  | cons slot slots ih =>
      rw [Accept.orderedAcks] at ih ⊢
      cases haccept : Accept.first? r.config.ballot accepts slot with
      | none => simpa [Accept.entry?, haccept] using ih
      | some a =>
          cases hweak : a.weak <;>
            simpa [Accept.entry?, Accept.entry, Accept.orderedAck?, haccept, hweak, orderedAcks,
              orderedAck, orderedSent, Effect.sent, Sent.isOrderedAck] using ih

/-! ### What the slots do by themselves -/

/-- Slots that take no event leave the prefix as it is and tell nobody that a command is ordered. -/
theorem Change.silent (hc : Change (fun _ _ => False) r effects r') (leader : ReplicaId) :
    r'.ordered = r.ordered ∧ orderedSent leader effects = [] := by
  cases hc with
  | opened hlive hexec => exact ⟨rfl, rfl⟩
  | took hs happlied hstale hfit => exact hfit.elim
  | awaited hs hexec => exact ⟨rfl, rfl⟩
  | @executed slot s cid c hs hx hturn =>
      obtain ⟨_, _, _, _, _, -, hframe⟩ := r.execute_frame cid c slot s
      refine ⟨by rw [hframe]; rfl, orderedSent_eq_nil fun client a hmem => ?_⟩
      rcases effects_execute hmem with heq | heq | hanswer
      · simp at heq
      · simp at heq
      · obtain ⟨-, heq | ⟨causal, heq⟩⟩ := mem_answers hanswer
        · simp [syncReply] at heq
        · cases causal <;> simp [weakReply] at heq

theorem Changes.silent (hc : Changes (fun _ _ => False) r effects r') (leader : ReplicaId) :
    r'.ordered = r.ordered ∧ orderedSent leader effects = [] := by
  refine hc.preserve
    (P := fun r' effects => r'.ordered = r.ordered ∧ orderedSent leader effects = [])
    (fun hp hc => ?_) [] ⟨rfl, rfl⟩
  obtain ⟨hordered, hsilent⟩ := hc.silent leader
  exact ⟨hordered.trans hp.1, by rw [orderedSent_append, hp.2, hsilent, List.append_nil]⟩

namespace Reports

theorem silent (hordered : r'.ordered = r.ordered)
    (hsilent : orderedSent config.leader effects = []) :
    Reports id config accepts r effects r' where
  next_le := Nat.le_of_eq (by rw [hordered])
  sent_eq := by rw [hsilent, hordered, List.Ico.self_empty, Accept.orderedAcks, List.filterMap_nil]

/-- Reports in a row, where more accepts come for slots that are not covered. -/
theorem trans (h : Reports id config accepts r effects r')
    (h' : Reports id config accepts' r' effects' r'')
    (hsame : ∀ slot < r'.ordered.next,
      Accept.first? config.ballot accepts' slot = Accept.first? config.ballot accepts slot) :
    Reports id config accepts' r (effects ++ effects') r'' where
  next_le := Nat.le_trans h.next_le h'.next_le
  sent_eq := by
    have hbefore : Accept.orderedAcks id config.ballot accepts'
        (List.Ico r.ordered.next r'.ordered.next) =
          Accept.orderedAcks id config.ballot accepts _ :=
      Accept.orderedAcks_congr fun slot hslot => hsame slot (List.Ico.mem.1 hslot).2
    rw [orderedSent_append, h.sent_eq, h'.sent_eq, ← hbefore, ← Accept.orderedAcks_append,
      List.Ico.append_consecutive h.next_le h'.next_le]

end Reports

/-! ### Handing events to slots -/

/-- An event is passed over, or a slot takes it; whatever else the slots do is silent. -/
theorem Digests.route_spec (h : r.Digests id config known) (slot : Slot) (hwake : event ≠ .wake)
    (leader : ReplicaId) :
    (event.isStale config.ballot = true ∨ slot < r.executed) ∧ r.route slot event = (r, []) ∨
      event.isStale config.ballot = false ∧ ∃ (r₁ : Replica) (s : LiveSlot),
        r₁.id = id ∧ r₁.config = config ∧ r₁.ordered = r.ordered ∧ s.Digests (known slot) ∧
        (r.route slot event).1.ordered = (r₁.apply slot s event).1.ordered ∧
        orderedSent leader (r.route slot event).2 =
          orderedSent leader (r₁.apply slot s event).2.2 := by
  by_cases hpassed : event.isStale config.ballot = true ∨ slot < r.executed
  · exact .inl ⟨hpassed, route_of_passed h.executed_le (h.config_eq ▸ hpassed)⟩
  · rw [not_or, Bool.not_eq_true, Nat.not_lt] at hpassed
    obtain ⟨hstale, hexec⟩ := hpassed
    obtain ⟨r₁, s, opened, rest, (hopened : Changes (fun _ _ => False) r opened r₁), hs, -, hrest,
      heffects⟩ := route_took h.unapplied (h.config_eq ▸ hstale) hwake hexec
    obtain ⟨hid, hconfig⟩ := hopened.same
    obtain ⟨hordered, hopened'⟩ := hopened.silent leader
    obtain ⟨hordered', hrest'⟩ := hrest.silent leader
    refine .inr ⟨hstale, r₁, s, hid.trans h.id_eq, hconfig.trans h.config_eq, hordered,
      (hopened.digests h).of_live hs, hordered', ?_⟩
    rw [heffects, orderedSent_append, orderedSent_append, hopened', hrest', List.nil_append,
      List.append_nil]

/-- A commit leaves the prefix as it is. -/
theorem Digests.silent_commit (h : r.Digests id config known) (b : Commit) (leader : ReplicaId) :
    (r.route b.slot (.commit b)).1.ordered = r.ordered ∧
      orderedSent leader (r.route b.slot (.commit b)).2 = [] := by
  have hwake : Event.commit b ≠ .wake := by simp
  rcases h.route_spec b.slot hwake leader with
    ⟨-, hroute⟩ | ⟨-, r₁, s, -, -, hordered, -, hnext, hsent⟩
  · rw [hroute]
    exact ⟨rfl, rfl⟩
  · rw [hnext, hsent, apply_eq]
    refine ⟨hordered, ?_⟩
    simp only [Uptake.ofEvent, Uptake.emits, Uptake.commit, OrderedPrefix.note_none]
    split <;> rfl

/-- Once an accept of a covered slot has come, more do not change it. -/
theorem OrderedPrefix.Covers.first?_append
    (h : r.ordered.Covers (Accept.entry? config.ballot accepts)) (more : List Accept) :
    ∀ slot < r.ordered.next, Accept.first? config.ballot (accepts ++ more) slot =
      Accept.first? config.ballot accepts slot := by
  intro slot hslot
  have hsome := h.covered slot hslot
  rw [Accept.entry?, Option.isSome_map] at hsome
  exact Accept.first?_append hsome

/-- An accept that comes moves the prefix on if it is the first one of the slot where that ends. -/
theorem Digests.reports_accept
    (h : r.Digests id config (Notice.ofArrivals config.ballot accepts commits))
    (hcovers : r.ordered.Covers (Accept.entry? config.ballot accepts)) (a : Accept) :
    (r.route a.slot (.accept a)).1.ordered.Covers
        (Accept.entry? config.ballot (accepts ++ [a])) ∧
      Reports id config (accepts ++ [a]) r (r.route a.slot (.accept a)).2
        (r.route a.slot (.accept a)).1 := by
  -- an accept that is not the first one of its slot changes nothing
  have hsame : (a.ballot = config.ballot →
      (Accept.first? config.ballot accepts a.slot).isSome = true) →
      Accept.entry? config.ballot (accepts ++ [a]) = Accept.entry? config.ballot accepts := by
    intro hold
    funext slot
    rw [Accept.entry?, Accept.entry?]
    by_cases hhit : a.ballot = config.ballot ∧ a.slot = slot
    · obtain ⟨hballot, rfl⟩ := hhit
      rw [Accept.first?_append (hold hballot)]
    · rw [Accept.first?_concat_of_ne hhit]
  have hwake : Event.accept a ≠ .wake := by simp
  rcases h.route_spec a.slot hwake config.leader with
    ⟨hpassed, hroute⟩ | ⟨hstale, r₁, s, hid, hconfig, hordered, hs, hnext, hsent⟩
  · rw [hroute, hsame fun hballot => ?_]
    · exact ⟨hcovers, .silent rfl rfl⟩
    · have hlt := hpassed.resolve_left (by simp [Event.isStale, Event.ballot?, hballot])
      exact Option.isSome_of_isSome_bind (h.ready _ hlt).2
  · have hballot : a.ballot = config.ballot := by
      simpa [Event.isStale, Event.ballot?] using hstale
    have haccepted : s.accepted = (Accept.first? config.ballot accepts a.slot).isSome := hs.accepted
    rw [apply_eq] at hnext hsent
    cases hold : Accept.first? config.ballot accepts a.slot with
    | some first =>
        rw [hold, Option.isSome_some] at haccepted
        have hkept : Uptake.ofEvent r₁.id r₁.config a.slot s (.accept a) = { record := s } := by
          simp only [Uptake.ofEvent, if_pos haccepted]
        rw [hkept] at hnext hsent
        rw [hsame fun _ => by rw [hold, Option.isSome_some], hnext]
        exact ⟨hordered ▸ hcovers, .silent (hnext.trans hordered) hsent⟩
    | none =>
        rw [hold, Option.isSome_none] at haccepted
        have hnew : Accept.entry? config.ballot accepts a.slot = none := by
          rw [Accept.entry?, hold, Option.map_none]
        have hslot : Accept.entry? config.ballot (accepts ++ [a]) a.slot = some a.entry := by
          rw [← hballot] at hold ⊢
          rw [Accept.entry?, Accept.first?_concat_self hold, Option.map_some]
        have hother : ∀ other, other ≠ a.slot →
            Accept.entry? config.ballot (accepts ++ [a]) other =
              Accept.entry? config.ballot accepts other := by
          intro other hne
          rw [Accept.entry?, Accept.entry?,
            Accept.first?_concat_of_ne fun hhit => hne hhit.2.symm]
        obtain ⟨hnote, hle, hentries⟩ := hcovers.note hnew hslot hother
        have hcounted : (Uptake.ofEvent r₁.id r₁.config a.slot s (.accept a)).counted? =
            some a.entry := by
          simp only [Uptake.ofEvent, haccepted, Bool.false_eq_true, if_false, Accept.entry]
        have heffects : (Uptake.ofEvent r₁.id r₁.config a.slot s (.accept a)).effects =
            [.acceptAck ⟨r₁.config.ballot, a.slot, r₁.id⟩] := by
          simp only [Uptake.ofEvent, haccepted, Bool.false_eq_true, if_false]
        simp only [Uptake.after, hcounted, hordered] at hnext
        simp only [Uptake.emits, hcounted, heffects, hordered, hentries] at hsent
        subst hid hconfig
        rw [orderedSent_append, orderedSent_orderedAcks] at hsent
        rw [hnext]
        exact ⟨hnote, hnext ▸ hle, by rw [hsent, hnext]; rfl⟩

/-- Accepts that come together are handed on one after another. -/
theorem Digests.reports_accepts
    (h : r.Digests id config (Notice.ofArrivals config.ballot accepts commits))
    (hcovers : r.ordered.Covers (Accept.entry? config.ballot accepts)) (more : List Accept) :
    (r.performAll (more.map fun a => .route a.slot (.accept a))).1.ordered.Covers
        (Accept.entry? config.ballot (accepts ++ more)) ∧
      Reports id config (accepts ++ more) r
        (r.performAll (more.map fun a => .route a.slot (.accept a))).2
        (r.performAll (more.map fun a => .route a.slot (.accept a))).1 := by
  induction more generalizing r accepts with
  | nil =>
      rw [List.append_nil]
      exact ⟨hcovers, .silent rfl rfl⟩
  | cons a more ih =>
      obtain ⟨hcovers₁, hfirst⟩ := h.reports_accept hcovers a
      obtain ⟨hcovers₂, hrest⟩ := ih (h.route_accept a) hcovers₁
      rw [← List.append_cons] at hcovers₂ hrest
      refine ⟨hcovers₂, hfirst.trans hrest ?_⟩
      have hsame := hcovers₁.first?_append more
      rwa [← List.append_cons] at hsame

/-! ### Handling a message -/

/-- A witness never says that a command is ordered. -/
theorem ok_recordWitness (r : Replica) (cid : CommandId) (c : Command) (strong : Bool) :
    (r.recordWitness cid c strong).2.ok ≠ .ordered := by
  unfold recordWitness Witness.record
  dsimp only
  split
  · simp [Witness.Verdict.clear]
  · unfold Witness.Entry.verdict
    split
    · dsimp only
      split <;> simp
    · simp [Witness.Verdict.clear]

/-- A message that brings no accept leaves the prefix as it is, and nobody is told that a command is
ordered. -/
theorem Digests.silent_handle (h : r.Digests id config known) (hleader : config.isLeader id = false)
    (hm : m.accepts = []) (leader : ReplicaId) :
    (r.handle m).1.ordered = r.ordered ∧ orderedSent leader (r.handle m).2 = [] := by
  have hfollower : r.isLeader = false := by rw [isLeader, h.config_eq, h.id_eq, hleader]
  have hnoted : (r.noted m).ordered = r.ordered := by
    obtain ⟨⟨_, _, _, _, _, _, hframe⟩, -⟩ := noted_noted r m
    rw [hframe]
  have hstate := handle_of_not_isLeader hfollower m
  rw [hm] at hstate
  have hweak : ∀ (body : WeakPropose) (causal : Bool), r.respond m = r.respondWeak body causal →
      orderedSent leader (r.handle m).2 = [] := by
    intro body causal hrespond
    obtain ⟨-, -, spoken, hsteps, hspoken⟩ := plain_respondWeak (r := r) body causal
    have hhandle : (r.handle m).2 = spoken := by
      simp only [Replica.handle, hrespond, weak_respondWeak hfollower, hsteps, performAll_emit]
    rw [hhandle]
    refine orderedSent_eq_nil fun client a hmem => ?_
    obtain ⟨client', message, heq, hother⟩ := hspoken _ hmem
    exact absurd (Effect.tell.inj heq).2.symm (hother a)
  cases m with
  | propose body =>
      refine ⟨(congrArg Replica.ordered hstate).trans hnoted, orderedSent_eq_nil ?_⟩
      intro client a hmem
      cases hknown : r.witnessed.contains body.id with
      | true =>
          simp [Replica.handle, respond, hfollower, witnessPropose, hknown, performAll] at hmem
      | false =>
          simp [Replica.handle, respond, hfollower, witnessPropose, hknown, performAll,
            perform] at hmem
          rw [hmem.2]
          exact ok_recordWitness r body.id body.command true
  | sync body =>
      refine ⟨(congrArg Replica.ordered hstate).trans hnoted, ?_⟩
      simp [Replica.handle, respond, respondSync, hfollower, performAll, orderedSent]
  | weakPropose body =>
      exact ⟨(congrArg Replica.ordered hstate).trans hnoted, hweak body false rfl⟩
  | causalPropose body =>
      exact ⟨(congrArg Replica.ordered hstate).trans hnoted, hweak body true rfl⟩
  | accept a => simp [ReplicaMessage.accepts] at hm
  | acceptAck a =>
      refine ⟨(congrArg Replica.ordered hstate).trans hnoted, ?_⟩
      simp [Replica.handle, respond, ackSteps, hfollower, performAll, orderedSent]
  | commit b =>
      have hroute : r.handle (.commit b) = r.route b.slot (.commit b) := by
        simp [Replica.handle, respond, performAll, perform]
      rw [hroute]
      exact h.silent_commit b leader
  | batch b =>
      have hnone : b.accepts = [] := hm
      have hacks : b.acks.flatMap r.ackSteps = [] := by simp [ackSteps, hfollower]
      refine ⟨(congrArg Replica.ordered hstate).trans hnoted, ?_⟩
      simp [Replica.handle, respond, hnone, hacks, performAll, orderedSent]

/-- A message moves the prefix on by the accepts that it brings. -/
theorem Digests.reports_handle
    (h : r.Digests id config (Notice.ofArrivals config.ballot accepts commits))
    (hcovers : r.ordered.Covers (Accept.entry? config.ballot accepts))
    (hleader : config.isLeader id = false) (m : ReplicaMessage) :
    (r.handle m).1.ordered.Covers (Accept.entry? config.ballot (accepts ++ m.accepts)) ∧
      Reports id config (accepts ++ m.accepts) r (r.handle m).2 (r.handle m).1 := by
  have hfollower : r.isLeader = false := by rw [isLeader, h.config_eq, h.id_eq, hleader]
  have hsilent : m.accepts = [] →
      (r.handle m).1.ordered.Covers (Accept.entry? config.ballot (accepts ++ m.accepts)) ∧
        Reports id config (accepts ++ m.accepts) r (r.handle m).2 (r.handle m).1 := by
    intro hm
    obtain ⟨hordered, hsent⟩ := h.silent_handle hleader hm config.leader
    rw [hm, List.append_nil]
    exact ⟨hordered ▸ hcovers, .silent hordered hsent⟩
  cases m with
  | accept a =>
      have hhandle : r.handle (.accept a) =
          r.performAll ([a].map fun a => .route a.slot (.accept a)) := rfl
      rw [hhandle]
      exact h.reports_accepts hcovers [a]
  | batch b =>
      have hacks : b.acks.flatMap r.ackSteps = [] := by simp [ackSteps, hfollower]
      have hhandle : r.handle (.batch b) =
          r.performAll (b.accepts.map fun a => .route a.slot (.accept a)) := by
        simp only [Replica.handle, respond, hacks, List.append_nil]
      rw [hhandle]
      exact h.reports_accepts hcovers b.accepts
  | _ => exact hsilent rfl

end Replica

end WitnessReplication
