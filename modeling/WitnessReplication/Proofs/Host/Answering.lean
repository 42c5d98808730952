import WitnessReplication.Proofs.Host.Notifying
import WitnessReplication.Proofs.Replica.Answering

/-!
# Who answers weak commands

Where only the leader takes weak commands, its host answers a weak command by the command's task
alone: neither its slots nor what it says to a message answers one (`Quiet`).
-/

namespace WitnessReplication

namespace Replica

variable {r : Replica} {m : ReplicaMessage}

/-- A proposal that leaves the answer to others. -/
def Event.Silent (event : Event) : Prop := ∀ p, event = .propose p → p.reply = false

/-- Where only the leader takes weak commands, nothing that is said to a message answers one. -/
theorem not_isWeakAnswer_of_emit (hvariant : r.config.variant = .leaderOnly) {e : Effect}
    (h : Step.emit e ∈ (r.respond m).steps) : ¬e.IsWeakAnswer := by
  intro hanswer
  have hsilent : r.config.variant.repliesSpeculatively = false := by rw [hvariant]; rfl
  cases says_of_emit h with
  | announces body a => exact hanswer
  | answers body reply => exact hanswer
  | judges body hleader hnew => exact hanswer
  | gives body value => exact hanswer
  | replies body hspeculates => simp [hsilent] at hspeculates
  | repliesCausally body hspeculates => simp [hsilent] at hspeculates

end Replica

namespace Host

open Replica (Effect Event)

/-- The weak command that a message answers. -/
def answered? : Sent → Option CommandId
  | .toClient _ (.weakReply m) => some m.id
  | .toClient _ (.causalReply m) => some m.id
  | _ => none

/-- No slot of the host answers a weak command, now or when it has taken what waits for it. -/
structure Quiet (h : Host) : Prop where
  eager : h.replica.Eager
  holds : h.Holds fun _ event => event.Silent

variable {fits : Slot → Event → Prop} {spoken : Effect → Prop} {h h' : Host}
variable {signals : List Signal} {now number : Nat}

theorem answered?_answerTo (id : ReplicaId) (w : Replica.WeakCommand) (value : Value) :
    answered? (answerTo id w value) = some w.id := by
  unfold answerTo
  split <;> rfl

/-- Carrying out an effect answers a weak command only if that is the effect. -/
theorem answered?_emit {effect : Effect} (heffect : ¬effect.IsWeakAnswer) :
    ∀ m ∈ Running.messages (h.emit effect).2, answered? m = none := by
  have hbatch : ∀ (queue : Batcher → Batcher) (alone : Sent), answered? alone = none →
      ∀ m ∈ Running.messages (h.batchOrSend queue alone).2, answered? m = none := by
    intro queue alone halone m hm
    unfold batchOrSend at hm
    split at hm
    · obtain rfl : m = alone := by simpa [Running.messages] using hm
      exact halone
    · split at hm <;> simp [Running.messages] at hm
  cases effect with
  | broadcast b => simp [emit, Running.messages, answered?]
  | tell client b =>
      intro m hm
      obtain rfl : m = .toClient client b := by simpa [emit, Running.messages] using hm
      cases b with
      | weakReply a => exact absurd trivial heffect
      | causalReply a => exact absurd trivial heffect
      | reply a => rfl
      | syncReply a => rfl
      | recordAck a => rfl
  | accept a => exact hbatch _ _ rfl
  | acceptAck a => exact hbatch _ _ rfl
  | opened slot =>
      simp only [emit]
      split <;> simp [Running.messages]
  | committed slot => simp [emit]
  | executed slot => simp [emit]
  | weakExecuted client => simp [emit]

theorem answered?_emitAll {effects : List Effect} (heffects : ∀ e ∈ effects, ¬e.IsWeakAnswer) :
    ∀ m ∈ Running.messages (h.emitAll effects).2, answered? m = none := by
  induction effects generalizing h with
  | nil => simp [emitAll, Running.messages]
  | cons effect effects ih =>
      intro m hm
      rw [emitAll, messages_append] at hm
      rcases List.mem_append.1 hm with hm | hm
      · exact answered?_emit (heffects effect List.mem_cons_self) m hm
      · exact ih (fun e he => heffects e (List.mem_cons_of_mem _ he)) m hm

/-- A host that moves answers no weak command, if its slots do not and it says no such thing. -/
theorem Quiet.moves (hq : h.Quiet)
    (hs : Moves (fun _ event => event.Silent) spoken h signals h')
    (hspoken : ∀ e, spoken e → ¬e.IsWeakAnswer) :
    h'.Quiet ∧ ∀ m ∈ Running.messages signals, answered? m = none := by
  have hmoves : h'.replica.Eager ∧ ∀ m ∈ Running.messages signals, answered? m = none := by
    refine hs.preserve (P := fun h' signals => h'.replica.Eager ∧
      ∀ m ∈ Running.messages signals, answered? m = none) ?_ []
        ⟨hq.eager, by simp [Running.messages]⟩
    clear hs hq
    rintro h₁ h₂ sent signals ⟨heager, hsent⟩ hm
    have hextend : (∀ m ∈ Running.messages signals, answered? m = none) →
        ∀ m ∈ Running.messages (sent ++ signals), answered? m = none := by
      intro hnew m hmem
      rw [messages_append] at hmem
      exact (List.mem_append.1 hmem).elim (hsent m) (hnew m)
    cases hm with
    | @change r effects hc =>
        obtain ⟨hstill, hsilent⟩ := hc.eager heager fun slot p hfit => hfit p rfl
        rw [replica_adopt]
        exact ⟨hstill, hextend (answered?_emitAll hsilent)⟩
    | @say effect hsay =>
        rw [replica_emit]
        exact ⟨heager, hextend (answered?_emit (hspoken effect hsay))⟩
    | queue hbox hadmits => exact ⟨heager, hextend (by simp [enqueue, Running.messages])⟩
    | unload => exact ⟨heager, hextend (by simp [Running.messages])⟩
    | close => exact ⟨heager, hextend (by simp [Running.messages])⟩
  exact ⟨⟨hmoves.1, hs.holds hq.holds⟩, hmoves.2⟩

theorem Quiet.congr (hq : h.Quiet) (hlive : h'.replica.live = h.replica.live)
    (hconfig : h'.replica.config = h.replica.config) (hmail : h'.mailboxes = h.mailboxes) :
    h'.Quiet where
  eager slot s hs := hq.eager slot s (hlive ▸ hs)
  holds hbox event hmem := by
    rw [hconfig]
    exact hq.holds (hmail ▸ hbox) event hmem

theorem Quiet.note {q? : Option Request} {r : Replica} (hq : h.Quiet)
    (hnoted : h.replica.Noted q? r) : { h with replica := r }.Quiet := by
  obtain ⟨⟨_, _, _, _, _, _, rfl⟩, -⟩ := hnoted
  exact hq.congr rfl rfl rfl

theorem silent_of_brought {m : ReplicaMessage} {slot : Slot} {event : Event}
    (h : event.Brought m slot) : event.Silent := by
  rintro p rfl
  exact h.2.2

theorem silent_proposalOf (w : Replica.WeakCommand) : (proposalOf w).Silent := by
  intro p hp
  obtain rfl := Event.propose.inj hp
  rfl

/-- A look of the task of a weak command leaves the host quiet. What it says answers no weak
command but that one, and it says so last. -/
theorem Quiet.look (hq : h.Quiet) (hlook : WeakLook (fun _ event => event.Silent)
      (fun e => ¬e.IsWeakAnswer) now number h h' signals) :
    h'.Quiet ∧ ∃ first last, Running.messages signals = first ++ last ∧
      (∀ m ∈ first, answered? m = none) ∧ (last = [] ∨ ∃ (w : Replica.WeakCommand) (stage : Stage)
        (slot : Slot) (due : Prop), h.weak[number]? = some ⟨w, stage⟩ ∧
          Tending number w slot due h' last) := by
  cases hlook with
  | idle hown => exact ⟨hq, [], [], rfl, by simp, .inl rfl⟩
  | waits hown hstage hsent => exact ⟨hq.congr rfl rfl rfl, [], [], hsent, by simp, .inl rfl⟩
  | @refused w stage _ _ hown hstage hslots hsent =>
      have hassigned := hq.note (noted_assigned h.replica w)
      exact ⟨hassigned.congr rfl rfl rfl, [], [], hsent, by simp, .inl rfl⟩
  | @orders w stage weakDeps woken moved tended h₁ _ hown hstage hready hslots hsent hs ht =>
      have hassigned := hq.note (noted_assigned h.replica w)
      have hordered : Quiet { h with replica := assigned h.replica w, weakDeps } :=
        hassigned.congr rfl rfl rfl
      obtain ⟨hquiet, hsilent⟩ := hordered.moves hs fun _ he => he
      refine ⟨hquiet.congr (by rw [ht.replica_eq]) (by rw [ht.replica_eq]) ht.mailboxes_eq,
        Running.messages moved, Running.messages tended, ?_, hsilent,
        .inr ⟨w, stage, _, _, hown, ht.own⟩⟩
      rw [messages_append, messages_append, hsent, List.nil_append]
  | @tends w stage slot _ _ hown hstage ht =>
      exact ⟨hq.congr (by rw [ht.replica_eq]) (by rw [ht.replica_eq]) ht.mailboxes_eq,
        [], _, rfl, by simp, .inr ⟨w, stage, slot, _, hown, ht.own⟩⟩

end Host

end WitnessReplication
