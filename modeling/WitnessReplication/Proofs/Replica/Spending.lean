import WitnessReplication.Proofs.Replica.Planning
import WitnessReplication.Proofs.Replica.Waiting
import WitnessReplication.Proofs.Tables

/-!
# What a replica may yet send

A message stands for itself and for all messages that it can lead to, its `worth`. What a replica
has taken in and not answered yet is what it still owes, its `Replica.dues`: a slot that counts
acknowledgements owes word of its commit, a slot whose command is answered when it executes owes the
answer, and so do clients that wait and accepted slots that the prefix has not reached.

Handling a message never sends more than the replica owed and the message is worth
(`Replica.spent_handle`). Nothing needs to be known of the replica for this: whatever a slot is
handed, its dues pay for what it sends (`Replica.spent_apply`, `Replica.spent_execute`).
-/

namespace WitnessReplication

/-- The number of replicas beside one. -/
def Config.others (c : Config) : Nat := c.replicas - 1

/-- How many messages a message to a replica stands for: itself and those that it can lead to. The
leader answers a command, announces it to the others, of which each may send an acknowledgement and
a verdict, announces the commit and answers once more. -/
def ReplicaMessage.worth (config : Config) (leads : Bool) : ReplicaMessage → Nat
  | .propose _ | .weakPropose _ | .causalPropose _ => if leads then 4 * config.others + 3 else 2
  | .sync _ => 2
  | .accept _ => 3
  | .acceptAck _ => 1
  | .commit _ => 1
  | .batch b => 2 * b.accepts.length + 1

/-- How many messages a replica's message stands for, with all its addressees. -/
def Sent.worth (config : Config) : Sent → Nat
  | .toAll m => config.others * m.worth config true
  | .toReplica i m => m.worth config (config.isLeader i)
  | .toClient _ _ => 1

open Quorum

namespace Replica

/-- How many messages an effect stands for. -/
def Effect.worth (config : Config) (e : Effect) : Nat :=
  ((e.sent config.leader).map (Sent.worth config)).getD 0

/-- How many messages effects stand for. -/
def spent (config : Config) (effects : List Effect) : Nat := (effects.map (Effect.worth config)).sum

/-- How many messages an event can lead to. -/
def Event.worth (config : Config) : Event → Nat
  | .propose _ => config.others + 1
  | .accept _ => 2
  | _ => 0

/-- How many messages a step can lead to. -/
def Step.worth (config : Config) : Step → Nat
  | .emit e => e.worth config
  | .route _ event => event.worth config

/-- Whether a slot owes an answer, whoever waits for it. -/
def LiveSlot.owesAnswer (s : LiveSlot) : Bool := s.sync || s.reply

/-- How many messages a slot owes: word of its commit, and an answer. -/
def LiveSlot.dues (config : Config) (s : LiveSlot) : Nat :=
  (if s.certificate.any fun c => !c.fired then config.others else 0) + s.owesAnswer.toNat

end Replica

/-- How many messages a replica owes. -/
def Replica.dues (config : Config) (r : Replica) : Nat :=
  Tables.total (LiveSlot.dues config) r.live + r.ordered.accepted.size + r.syncWaiters.size

namespace Replica

variable (config : Config) {r r' : Replica} {slot : Slot} {s : LiveSlot} {event : Event}
variable {m : ReplicaMessage} {effects effects' : List Effect} {e : Effect}

/-! ### What effects are worth -/

@[simp] theorem spent_nil : spent config [] = 0 := rfl

@[simp] theorem spent_cons : spent config (e :: effects) = e.worth config + spent config effects :=
  rfl

@[simp] theorem spent_append :
    spent config (effects ++ effects') = spent config effects + spent config effects' := by
  simp [spent]

@[simp] theorem worth_tell (client : ClientId) (message : ClientMessage) :
    (Effect.tell client message).worth config = 1 := rfl

@[simp] theorem worth_commit (b : Commit) :
    (Effect.broadcast (.commit b)).worth config = config.others := Nat.mul_one _

@[simp] theorem worth_accept (a : Accept) :
    (Effect.accept a).worth config = config.others * 3 := rfl

@[simp] theorem worth_acceptAck (a : AcceptAck) : (Effect.acceptAck a).worth config = 1 := rfl

@[simp] theorem worth_opened (slot : Slot) : (Effect.opened slot).worth config = 0 := rfl

@[simp] theorem worth_committed (slot : Slot) : (Effect.committed slot).worth config = 0 := rfl

@[simp] theorem worth_executed (slot : Slot) : (Effect.executed slot).worth config = 0 := rfl

@[simp] theorem worth_weakExecuted (client : ClientId) :
    (Effect.weakExecuted client).worth config = 0 := rfl

/-- Telling clients something is worth one message each. -/
theorem spent_tells {effects : List Effect} (h : ∀ e ∈ effects, ∃ client m, e = .tell client m) :
    spent config effects = effects.length := by
  induction effects with
  | nil => rfl
  | cons e effects ih =>
      obtain ⟨⟨client, m, rfl⟩, hrest⟩ := List.forall_mem_cons.1 h
      rw [spent_cons, worth_tell, ih hrest, List.length_cons, Nat.add_comm]

/-! ### What a slot owes -/

/-- Moving the accepted prefix takes the slots that it covers out of those that wait. -/
theorem OrderedPrefix.length_advance (o : OrderedPrefix) :
    o.advance.2.length + o.advance.1.accepted.size = o.accepted.size := by
  fun_induction OrderedPrefix.advance o with
  | case1 => simp
  | case2 o entry h rest ih =>
      have hsize := Tables.size_erase h
      change rest.2.length + rest.1.accepted.size = (o.accepted.erase o.next).size at ih
      change rest.2.length + 1 + rest.1.accepted.size = o.accepted.size
      omega

/-- Counting a slot as accepted owes a verdict on it, or sends it. -/
theorem spent_order (r : Replica) (slot : Slot) (id : CommandId) (weak : Bool) :
    spent config (r.order slot id weak).2 + (r.order slot id weak).1.ordered.accepted.size ≤
      r.ordered.accepted.size + 1 := by
  unfold order
  split
  · simp
  · have hadvance := OrderedPrefix.length_advance
      { r.ordered with accepted := r.ordered.accepted.insert slot (id, weak) }
    have hsize : (r.ordered.accepted.insert slot (id, weak)).size ≤ r.ordered.accepted.size + 1 :=
      Std.ExtTreeMap.size_insert_le
    generalize OrderedPrefix.advance
      { r.ordered with accepted := r.ordered.accepted.insert slot (id, weak) } = advanced
      at hadvance ⊢
    dsimp only at hadvance ⊢
    have hacks : spent config ((advanced.2.filter fun entry => !entry.2).map fun entry =>
        r.orderedAck entry.1) ≤ advanced.2.length := by
      rw [spent_tells, List.length_map]
      · exact List.length_filter_le _ _
      · intro e he
        obtain ⟨entry, -, rfl⟩ := List.mem_map.1 he
        exact ⟨_, _, rfl⟩
    omega

theorem LiveSlot.dues_eq {c : Certificate AcceptAck} (hc : s.certificate = some c) :
    s.dues config = (if c.fired then 0 else config.others) + s.owesAnswer.toNat := by
  cases hfired : c.fired <;> simp [LiveSlot.dues, hc, hfired]

/-- Announcing the commit of a slot costs one message for each other replica. -/
theorem spent_commitAsLeader (r : Replica) (slot : Slot) (s : LiveSlot) :
    spent config (r.commitAsLeader slot s).2.2 + (r.commitAsLeader slot s).2.1.dues config +
        (r.commitAsLeader slot s).1.ordered.accepted.size =
      config.others + s.dues config + r.ordered.accepted.size := by
  unfold commitAsLeader commitSlot
  dsimp only
  split
  · simp
  · simp [LiveSlot.dues, LiveSlot.owesAnswer]

/-- A certificate that has not completed owes word of the commit, or completes and sends it. -/
theorem spent_count (r : Replica) (slot : Slot) {c : Certificate AcceptAck} {id : ReplicaId}
    {a : AcceptAck} (hc : s.certificate = some (c.add id a).1)
    {result : Replica × LiveSlot × List Effect}
    (hresult : (if (c.add id a).2.isSome then r.commitAsLeader slot s else (r, s, [])) = result) :
    spent config result.2.2 + result.2.1.dues config + result.1.ordered.accepted.size =
      (if c.fired then 0 else config.others) + s.owesAnswer.toNat + r.ordered.accepted.size := by
  have hfired := c.fired_add id a
  have hdues := LiveSlot.dues_eq config hc
  subst hresult
  cases hdone : c.fired with
  | true =>
      rw [Certificate.add_of_fired hdone] at hdues ⊢
      simpa [hdone] using hdues
  | false =>
      rw [hdone, Bool.false_or] at hfired
      split
      · rename_i hcompletes
        rw [spent_commitAsLeader, hdues, hfired, hcompletes]
        simp
      · rename_i hopen
        rw [hfired] at hdues
        simp [hdues, hopen]

/-- A slot pays for what an event makes it send, with what the event is worth. -/
theorem spent_apply (r : Replica) (slot : Slot) (s : LiveSlot) (event : Event) :
    spent config (r.apply slot s event).2.2 + (r.apply slot s event).2.1.dues config +
        (r.apply slot s event).1.ordered.accepted.size ≤
      s.dues config + r.ordered.accepted.size + event.worth config := by
  cases event with
  | propose p =>
      have hcount := spent_count config r slot rfl (Eq.refl (r.onPropose slot s p))
      have hanswer := Bool.toNat_le (p.sync || p.reply)
      simp only [Certificate.new, LiveSlot.owesAnswer, Bool.false_eq_true, if_false] at hcount
      simp only [apply, Event.worth]
      omega
  | accept a =>
      simp only [apply, onAccept, Event.worth]
      split
      · simp
      · have horder := spent_order config r slot a.id a.weak
        simp [LiveSlot.dues, LiveSlot.owesAnswer]
        omega
  | acceptAck a =>
      simp only [apply, onAcceptAck, Event.worth]
      split
      · simp
      · rename_i c hc
        have hcount := spent_count config r slot
          (s := { s with certificate := some (c.add a.replica a).1 }) rfl rfl
        rw [hcount, LiveSlot.dues_eq config hc]
        exact Nat.le_refl _
  | commit b =>
      simp only [apply, commitSlot, Event.worth]
      split
      · simp
      · simp [LiveSlot.dues, LiveSlot.owesAnswer]
  | wake => simp [apply, Event.worth]

/-! ### Serving slots -/

theorem dues_putSlot (r : Replica) (slot : Slot) (s : LiveSlot) : (r.putSlot slot s).dues config =
    Tables.total (LiveSlot.dues config) (r.live.insert slot s) + r.ordered.accepted.size +
      r.syncWaiters.size := rfl

theorem dues_putSlot_live (hs : r.live[slot]? = some s) (s' : LiveSlot) :
    (r.putSlot slot s').dues config + s.dues config = r.dues config + s'.dues config := by
  have htotal := Tables.total_insert (LiveSlot.dues config) hs s'
  rw [dues_putSlot, Replica.dues]
  omega

/-- The leader's answer to a command that executes is one that the slot owed, or that a client
waited for. -/
theorem spent_answers (r : Replica) (s : LiveSlot) (id : CommandId) (value : Value)
    (waiters : Std.ExtTreeSet CommandId) :
    spent config (r.answers s id value (waiters.contains id)) +
        (if r.isLeader && !s.weak then waiters.erase id else waiters).size ≤
      s.owesAnswer.toNat + waiters.size := by
  unfold answers LiveSlot.owesAnswer
  cases hleader : r.isLeader with
  | false => simp
  | true =>
      cases hweak : s.weak with
      | true => cases s.reply <;> simp [weakReply]
      | false =>
          have hle : (waiters.erase id).size ≤ waiters.size := Std.ExtTreeSet.size_erase_le
          cases hsync : s.sync with
          | true =>
              simp [syncReply]
              omega
          | false =>
              cases hwaits : waiters.contains id with
              | false => simp [hle, Nat.le_add_left_of_le]
              | true =>
                  have herase := Tables.set_size_erase hwaits
                  simp [syncReply]
                  omega

/-- A slot that executes pays for its answer, or those who wait do. -/
theorem spent_execute {id : CommandId} {c : Command} (hs : r.live[slot]? = some s) :
    spent config (r.execute slot s id c).2 +
        ((r.execute slot s id c).1.dropSlot slot).dues config ≤ r.dues config := by
  have hleader : (r.execute slot s id c).1.isLeader = r.isLeader := by
    rw [execute_eq]
    rfl
  have hanswers := spent_answers config (r.execute slot s id c).1 s id
    (r.store.execute c).2 r.syncWaiters
  have hlive : ((r.execute slot s id c).1.dropSlot slot).live = r.live.erase slot := by
    rw [live_dropSlot, live_execute, Tables.erase_insert_self]
  have hordered : ((r.execute slot s id c).1.dropSlot slot).ordered = r.ordered := by
    rw [execute_eq]
    rfl
  have hwaiters : ((r.execute slot s id c).1.dropSlot slot).syncWaiters =
      if r.isLeader && !s.weak then r.syncWaiters.erase id else r.syncWaiters :=
    syncWaiters_execute r slot s id c
  have htotal := Tables.total_erase (LiveSlot.dues config) hs
  have hdues : s.owesAnswer.toNat ≤ s.dues config := Nat.le_add_left _ _
  have hreports : spent config
      (.executed slot :: if s.weak then [.weakExecuted id.client] else []) = 0 := by
    split <;> simp
  rw [hleader] at hanswers
  rw [effects_execute_eq, spent_append, hreports, Replica.dues, Replica.dues, hlive, hordered,
    hwaiters]
  omega

/-- What happens to a slot without an event pays for itself. -/
theorem Change.spent_le (hc : Change (fun _ _ => False) r effects r') :
    spent config effects + r'.dues config ≤ r.dues config := by
  cases hc with
  | @opened slot hlive hexec =>
      have htotal := Tables.total_insert_new (LiveSlot.dues config) (v := {}) hlive
      have hnothing : LiveSlot.dues config {} = 0 := rfl
      rw [spent_cons, worth_opened, spent_nil, dues_putSlot]
      simp only [Replica.dues]
      omega
  | took hs happlied hstale hfit => exact hfit.elim
  | @awaited slot s hs hexec =>
      have hput := dues_putSlot_live config hs { s with awaited := true }
      have hsame : LiveSlot.dues config { s with awaited := true } = s.dues config := rfl
      rw [spent_nil]
      omega
  | executed hs hx hturn => exact spent_execute config hs

theorem Changes.spent_le (hc : Changes (fun _ _ => False) r effects r') :
    spent config effects + r'.dues config ≤ r.dues config := by
  refine hc.preserve (P := fun r' sent => spent config sent + r'.dues config ≤ r.dues config)
    (fun hp hlast => ?_) [] (by simp)
  have hchange := hlast.spent_le config
  rw [spent_append]
  omega

theorem spent_advance (hs : r.live[slot]? = some s) :
    spent config (r.advance slot s).2.1 + (r.advance slot s).1.dues config ≤ r.dues config :=
  (changes_advance hs).spent_le config

theorem spent_wake (r : Replica) (slot : Slot) :
    spent config (r.wake slot).2 + (r.wake slot).1.dues config ≤ r.dues config :=
  (changes_wake r slot).spent_le config

/-- A slot that takes an event pays for what that makes the replica send. -/
theorem spent_took (hs : r.live[slot]? = some s) (event : Event) :
    spent config (r.apply slot s event).2.2 +
        ((r.apply slot s event).1.putSlot slot (r.apply slot s event).2.1).dues config ≤
      r.dues config + event.worth config := by
  have happly := spent_apply config r slot s event
  have hlive := live_apply r slot s event
  have hwaiters := syncWaiters_apply r slot s event
  have hput := dues_putSlot_live config (hlive ▸ hs) (r.apply slot s event).2.1
  simp only [Replica.dues, hlive, hwaiters] at hput ⊢
  omega

/-- A slot that handles an event pays for what that makes the replica send. -/
theorem spent_process (hs : r.live[slot]? = some s) (event : Event) :
    spent config (r.process slot s event).2.1 + (r.process slot s event).1.dues config ≤
      r.dues config + event.worth config := by
  unfold process
  split
  · simp
  · have htook := spent_took config hs event
    have hadvance := spent_advance
      (r := (r.apply slot s event).1.putSlot slot (r.apply slot s event).2.1) config
      (show _ = some (r.apply slot s event).2.1 from Std.ExtTreeMap.getElem?_insert_self)
    dsimp only
    rw [spent_append]
    omega

theorem spent_route (r : Replica) (slot : Slot) (event : Event) :
    spent config (r.route slot event).2 + (r.route slot event).1.dues config ≤
      r.dues config + event.worth config := by
  unfold route
  split
  · simp
  · rename_i r₁ s opened hclaim
    obtain ⟨-, hs, hopened⟩ : _ ∧ _ ∧ Changes (fun _ _ => False) r opened r₁ :=
      changes_claim hclaim
    have hopens := hopened.spent_le config
    have hprocess := spent_process config hs event
    dsimp only
    split
    · have hwake := spent_wake config (r₁.process slot s event).1 (slot + 1)
      simp only [spent_append]
      omega
    · simp only [spent_append]
      omega

/-! ### Handling a message -/

theorem spent_performAll (r : Replica) (steps : List Step) :
    spent config (r.performAll steps).2 + (r.performAll steps).1.dues config ≤
      r.dues config + (steps.map (Step.worth config)).sum := by
  induction steps generalizing r with
  | nil => simp [performAll]
  | cons step steps ih =>
      have hfirst : spent config (r.perform step).2 + (r.perform step).1.dues config ≤
          r.dues config + step.worth config := by
        cases step with
        | emit e => simp [perform, Step.worth, Nat.add_comm]
        | route slot event => exact spent_route config r slot event
      have hrest := ih (r.perform step).1
      simp only [performAll, spent_append, List.map_cons, List.sum_cons]
      omega

theorem dues_assign (r : Replica) (id : CommandId) (c : Command) (strong : Bool) :
    (r.assign id c strong).1.dues config = r.dues config := by
  unfold assign
  dsimp only
  split <;> rfl

theorem dues_recordPending (r : Replica) (id : CommandId) (c : Command) :
    (r.recordPending id c).dues config = r.dues config := by
  obtain ⟨_, hframe⟩ := r.recordPending_frame id c
  rw [hframe]
  rfl

theorem dues_recordWitness (r : Replica) (id : CommandId) (c : Command) (strong : Bool) :
    (r.recordWitness id c strong).1.dues config = r.dues config := by
  obtain ⟨_, _, hframe⟩ := r.recordWitness_frame id c strong
  rw [hframe]
  rfl

theorem dues_witnessWeak (r : Replica) (id : CommandId) (c : Command) :
    (r.witnessWeak id c).dues config = r.dues config := by
  unfold witnessWeak
  split
  · rfl
  · split
    · rfl
    · exact dues_recordWitness config r id c false

/-- The leader takes up a strong command for what that is worth to it. -/
theorem dues_leadPropose (r : Replica) (id : CommandId) (c : Command) :
    (r.leadPropose id c).replica.dues config +
        ((r.leadPropose id c).steps.map (Step.worth config)).sum ≤
      r.dues config + (4 * config.others + 2) := by
  have hassign := dues_assign config r id c true
  unfold leadPropose
  split
  · simp
  · split
    · rename_i r' e heq
      rw [heq] at hassign
      simp [hassign]
    · rename_i r' slot dep heq
      rw [heq] at hassign
      simp only [dues_recordPending, hassign, Step.worth, Event.worth, worth_tell, worth_accept,
        List.map_cons, List.map_nil, List.sum_cons, List.sum_nil]
      omega

theorem dues_witnessPropose (r : Replica) (id : CommandId) (c : Command) :
    (r.witnessPropose id c).replica.dues config +
        ((r.witnessPropose id c).steps.map (Step.worth config)).sum ≤ r.dues config + 1 := by
  unfold witnessPropose
  split
  · simp
  · simp [dues_recordWitness, Step.worth]

/-- Whoever asks for a committed result is answered, or waits for what the leader then owes. -/
theorem dues_respondSync (r : Replica) (id : CommandId) :
    (r.respondSync id).replica.dues config +
        ((r.respondSync id).steps.map (Step.worth config)).sum ≤ r.dues config + 1 := by
  unfold respondSync
  split
  · simp
  · split
    · simp [Step.worth, syncReply]
    · have hsize : (r.syncWaiters.insert id).size ≤ r.syncWaiters.size + 1 :=
        Std.ExtTreeSet.size_insert_le
      simp only [Replica.dues, List.map_nil, List.sum_nil]
      omega

/-- A weak command is answered once at most before it is put in order. -/
theorem dues_respondWeak (r : Replica) (body : WeakPropose) (causal : Bool) :
    (r.respondWeak body causal).replica.dues config +
        ((r.respondWeak body causal).steps.map (Step.worth config)).sum ≤ r.dues config + 1 := by
  unfold respondWeak
  split
  · simp
  · simp only [dues_witnessWeak, dues_recordPending]
    split
    · simp [Step.worth, weakReply]
    · simp

/-- Putting a weak command in order proposes and announces it. -/
theorem spent_performWeak (r : Replica) (w : WeakCommand) :
    spent config (r.performWeak w).2 + (r.performWeak w).1.dues config ≤
      r.dues config + (4 * config.others + 1) := by
  have hassign := dues_assign config r w.id w.command false
  unfold performWeak orderWeak
  cases h : r.assign w.id w.command false with
  | mk r' outcome =>
      rw [h] at hassign
      dsimp only at hassign
      cases outcome with
      | error e => simp [hassign]
      | ok given =>
          have hsteps := spent_performAll config r' [
            .route given.1 (.propose ⟨w.id, w.command, true, false,
              r.config.variant.repliesAfterExecute, w.causal⟩),
            .emit (.accept (r'.acceptFor given.1 w.id w.command true))]
          simp only [List.map_cons, List.map_nil, List.sum_cons, List.sum_nil, Step.worth,
            Event.worth, worth_accept] at hsteps
          dsimp only
          omega

/-- A message that leaves no weak command to put in order costs what its steps do. -/
theorem spent_planned (hweak : (r.respond m).weak = none) :
    spent config (r.handle m).2 + (r.handle m).1.dues config ≤
      (r.respond m).replica.dues config +
        ((r.respond m).steps.map (Step.worth config)).sum := by
  unfold handle
  simp only [hweak]
  exact spent_performAll config (r.respond m).replica (r.respond m).steps

/-- A weak command is answered and, by the leader, put in order, for what that is worth. -/
theorem spent_handle_weak {body : WeakPropose} {causal : Bool}
    (hm : r.respond m = r.respondWeak body causal) :
    spent config (r.handle m).2 + (r.handle m).1.dues config + 1 ≤
      r.dues config + if r.isLeader then 4 * config.others + 3 else 2 := by
  have hrespond := dues_respondWeak config r body causal
  rw [← hm] at hrespond
  have hsteps := spent_performAll config (r.respond m).replica (r.respond m).steps
  cases hleader : r.isLeader with
  | false =>
      have hweak : (r.respond m).weak = none := by
        rw [hm]
        exact weak_respondWeak hleader body causal
      have hplanned := spent_planned config hweak
      simp only [Bool.false_eq_true, if_false]
      omega
  | true =>
      cases hweak : (r.respond m).weak with
      | none =>
          have hplanned := spent_planned config hweak
          simp only [if_true]
          omega
      | some w =>
          have hordered := spent_performWeak config
            ((r.respond m).replica.performAll (r.respond m).steps).1 w
          simp only [handle, hweak, spent_append, if_true]
          omega

/-- A replica pays for what a message makes it send, with what it owed and what the message is
worth. -/
theorem spent_handle (r : Replica) (m : ReplicaMessage) :
    spent config (r.handle m).2 + (r.handle m).1.dues config + 1 ≤
      r.dues config + m.worth config r.isLeader := by
  have hacks : ∀ acks : List AcceptAck,
      ((acks.flatMap r.ackSteps).map (Step.worth config)).sum = 0 := by
    refine fun acks => List.sum_eq_zero_iff_forall_eq_nat.2 fun worth hworth => ?_
    obtain ⟨step, hstep, rfl⟩ := List.mem_map.1 hworth
    obtain ⟨a, -, hstep⟩ := List.mem_flatMap.1 hstep
    rw [plain_ackSteps hstep]
    rfl
  cases m with
  | propose body =>
      have hweak : (r.respond (.propose body)).weak = none := weak_respond_eq_none trivial
      have hplanned := spent_planned config hweak
      cases hleader : r.isLeader with
      | true =>
          have hlead := dues_leadPropose config r body.id body.command
          simp only [respond, hleader, ReplicaMessage.worth, if_true] at hplanned ⊢
          omega
      | false =>
          have hwitness := dues_witnessPropose config r body.id body.command
          simp only [respond, hleader, ReplicaMessage.worth, Bool.false_eq_true, if_false]
            at hplanned ⊢
          omega
  | sync body =>
      have hweak : (r.respond (.sync body)).weak = none := weak_respond_eq_none trivial
      have hplanned := spent_planned config hweak
      have hsync := dues_respondSync config r body.id
      simp only [respond, ReplicaMessage.worth] at hplanned ⊢
      omega
  | weakPropose body => exact spent_handle_weak config rfl
  | causalPropose body => exact spent_handle_weak config rfl
  | accept a =>
      have hplanned := spent_planned config (r := r) (m := .accept a) rfl
      simpa [respond, Step.worth, Event.worth, ReplicaMessage.worth] using hplanned
  | acceptAck a =>
      have hplanned := spent_planned config (r := r) (m := .acceptAck a) rfl
      have hsteps := hacks [a]
      simp only [List.flatMap_cons, List.flatMap_nil, List.append_nil] at hsteps
      simp only [respond, ReplicaMessage.worth] at hplanned ⊢
      omega
  | commit b =>
      have hplanned := spent_planned config (r := r) (m := .commit b) rfl
      simpa [respond, Step.worth, Event.worth, ReplicaMessage.worth] using hplanned
  | batch b =>
      have hplanned := spent_planned config (r := r) (m := .batch b) rfl
      have haccepts : ((b.accepts.map fun a => Step.route a.slot (.accept a)).map
          (Step.worth config)).sum = 2 * b.accepts.length := by
        simp [Function.comp_def, Step.worth, Event.worth, Nat.mul_comm]
      have hsteps := hacks b.acks
      simp only [respond, ReplicaMessage.worth, List.map_append, List.sum_append] at hplanned ⊢
      omega

end Replica

end WitnessReplication
