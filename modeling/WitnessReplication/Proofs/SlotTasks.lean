import WitnessReplication.Proofs.Host.Inline
import WitnessReplication.Proofs.Host.Journal

/-!
# Slots served by tasks and slots served on the spot

A host gives slots tasks of their own as long as there is room. How much room there is makes no
difference to what it does with a message, once its tasks have run: `Running.slot_tasks_agree`
compares a host with one that has room for none.

A host at rest (`Running.Resting`) that gets a message resolves the events that the message hands to
slots, in an order that agrees with theirs slot by slot (`Resting.receive`). So two hosts whose
replicas look alike end up alike, and send the same messages, in some order (`Alike.message`). A
host without room does what its replica does by itself, so that every host does
(`Running.view_exchange`).
-/

namespace WitnessReplication.Host

open Replica (Effect Event SameBySlot Trace View atSlot routedBy spokenBy)

namespace Running

/-- A host without tasks but those of slots serves its slots, and each task that has events to read
is in the queue. -/
structure Working (r : Run Running Task) : Prop where
  lone : r.state.host.Lone
  tended : r.state.host.Tended ∅
  attended : ∀ slot, r.state.host.queue slot ≠ [] → .slot slot ∈ r.clock.ready

/-- A host at rest: no task is in the queue. -/
structure Resting (leads : Bool) (r : Run Running Task) : Prop where
  working : Working r
  ready : r.clock.ready = []
  sane : r.state.host.replica.view.Sane
  leads_eq : r.state.host.replica.isLeader = leads

/-- Two hosts at rest whose replicas look alike, and which have sent the same, in some order. -/
structure Alike (leads : Bool) (r r' : Run Running Task) : Prop where
  left : Resting leads r
  right : Resting leads r'
  view : r.state.host.replica.view = r'.state.host.replica.view
  sent : r.state.sent.Perm r'.state.sent

variable {r r' : Run Running Task} {leads : Bool} {m : ReplicaMessage} {slot : Slot}
variable {id : ReplicaId} {config : Config} {task : Task} {ready : List Task}

/-! ### Running tasks -/

/-- A task that is in the queue, or is to be woken, is in the queue when the requests have been
granted. -/
theorem mem_ready_put {c : Clock Task} {signals : List Signal}
    (h : task ∈ c.ready ∨ Signal.request (.wake task) ∈ signals) :
    task ∈ (c.grantAll (requests signals)).ready := by
  rcases h with hmem | hmem
  · exact Clock.mem_ready_grantAll hmem _
  · exact Clock.mem_ready_of_wake (mem_requests.2 hmem)

/-- A look of a task serves the events in its mailbox. -/
theorem Working.look (hw : Working r) (hready : r.clock.ready = task :: ready) :
    Working (Run.put ⟨{ r.clock with ready := ready }, r.state⟩
        (program.look r.clock.now task r.state)) ∧
      r.state.host.Serves [] [] (r.state.host.look r.clock.now task).2
        (r.state.host.look r.clock.now task).1 [] := by
  have hlone := (hw.lone.look r.clock.now task).lone
  have hold : ∀ slot, task ≠ .slot slot → r.state.host.queue slot ≠ [] → .slot slot ∈ ready := by
    intro slot hne hqueue
    have hmem := hw.attended slot hqueue
    rw [hready] at hmem
    exact (List.mem_cons.1 hmem).resolve_left hne.symm
  by_cases hslot : ∃ slot, task = .slot slot
  · obtain ⟨own, rfl⟩ := hslot
    obtain ⟨htended, hserves, hwoken⟩ := hw.tended.lookSlot own []
    refine ⟨⟨hlone, htended, fun slot hqueue => mem_ready_put ?_⟩, hserves⟩
    exact (hwoken slot hqueue).imp_left fun ⟨hne, hqueue⟩ => hold slot (by simpa using hne.symm) hqueue
  · have heq := hw.lone.look_eq r.clock.now (not_exists.1 hslot)
    refine ⟨⟨hlone, ?_, fun slot hqueue => mem_ready_put (.inl ?_)⟩, ?_⟩
    · simp only [Run.put, program, note, heq]
      exact hw.tended
    · simp only [Run.put, program, note, heq] at hqueue
      exact hold slot (not_exists.1 hslot slot) hqueue
    · rw [heq]
      exact .refl _ _

/-- Letting tasks run serves the events in mailboxes. -/
theorem Working.settleWithin (hw : Working r) (bound : Nat) :
    Working (r.settleWithin program bound) ∧ ∃ signals,
      r.state.host.Serves [] [] signals (r.settleWithin program bound).state.host [] ∧
        (r.settleWithin program bound).state.sent = r.state.sent ++ messages signals := by
  induction bound generalizing r with
  | zero => exact ⟨hw, [], .refl _ _, (List.append_nil _).symm⟩
  | succ bound ih =>
      unfold Run.settleWithin
      split
      · exact ⟨hw, [], .refl _ _, (List.append_nil _).symm⟩
      · rename_i task ready hready
        obtain ⟨hlooked, hfirst⟩ := hw.look hready
        obtain ⟨hdone, signals, hrest, hsent⟩ := ih hlooked
        refine ⟨hdone, _, hfirst.trans hrest, ?_⟩
        rw [hsent, messages_append, ← List.append_assoc]
        rfl

/-! ### Hosts at rest -/

theorem Working.queue_eq_nil (hw : Working r) (hready : r.clock.ready = []) :
    r.state.host.queue slot = [] := by
  by_contra hqueue
  have hmem := hw.attended slot hqueue
  rw [hready] at hmem
  simp at hmem

/-- When no task is in the queue, no slot is left that could execute. -/
theorem Working.next?_eq_none (hw : Working r) (hready : r.clock.ready = []) :
    r.state.host.replica.view.next? = none := by
  have hwoken : ∀ slot, slot ∉ (∅ ∪ r.state.host.woken : Set Slot) := by
    rintro slot (hmem | hmem)
    · exact hmem
    · rw [mem_woken, hw.queue_eq_nil hready] at hmem
      simp at hmem
  obtain ⟨top, hsteady⟩ := hw.tended.steady
  cases hlive : r.state.host.replica.live[r.state.host.replica.executed]? with
  | none =>
      have hslot := Replica.slots_view_of_not_live hlive
      exact congrArg Replica.LiveSlot.executable? hslot
  | some s =>
      have hslot := Replica.slots_view_of_live hlive
      refine (congrArg Replica.LiveSlot.executable? hslot).trans ?_
      by_contra hx
      have hx' : s.executable?.isSome = true := Option.isSome_iff_ne_none.2 hx
      exact Nat.lt_irrefl _ (hsteady.waits hlive hx' (hwoken _)).1

/-- A host that has been put under way is at rest. -/
theorem resting_fresh (id : ReplicaId) (config : Config) :
    Resting (config.isLeader id) (fresh id config) where
  working := by
    have hqueue : ∀ slot, (fresh id config).state.host.queue slot = [] := fun slot => by
      simp [queue, fresh]
    refine ⟨⟨rfl, rfl, fun _ => ?_, fun _ => ?_, fun _ => ?_⟩, ⟨rfl, ?_, ?_, ?_, ?_⟩, ?_⟩
    · exact Registry.subscribers_empty _
    · exact Registry.subscribers_empty _
    · exact Registry.subscribers_empty _
    · exact Replica.unapplied_initial id config
    · exact ⟨0, (Replica.steady_initial id config).weaken (Set.empty_subset _)⟩
    · exact fun slot hslot => absurd (hqueue slot) hslot
    · intro slot event hmem
      rw [hqueue] at hmem
      simp at hmem
    · exact fun slot hslot => absurd (hqueue slot) hslot
  ready := rfl
  sane := Replica.sane_initial id config
  leads_eq := rfl

/-! ### Messages -/

/-- The host once its replica has noted a message. -/
def noted (h : Host) (m : ReplicaMessage) : Host := { h with replica := (h.replica.respond m).replica }

/-- The events that a message hands to the slots of a host. -/
def handed (h : Host) (m : ReplicaMessage) : List (Slot × Event) :=
  routedBy h.replica.config.ballot (h.replica.respond m).steps

/-- What a message makes a host send before it serves any slot. -/
def spoken (h : Host) (m : ReplicaMessage) : List Sent :=
  spokenBy h.replica.config.leader (h.replica.respond m).steps

theorem Resting.noted (hr : Resting leads r) (m : ReplicaMessage) :
    (Running.noted r.state.host m).Tended ∅ := by
  obtain ⟨⟨_, _, _, _, _, _, hframe⟩, -⟩ := r.state.host.replica.noted_respond m
  obtain ⟨hunbatched, hunapplied, ⟨top, hsteady⟩, hlive, hcurrent⟩ := hr.working.tended
  rw [Running.noted, hframe]
  exact ⟨hunbatched, hunapplied, ⟨top, hsteady.congr rfl rfl⟩, hlive, hcurrent⟩

/-- A host at rest that handles a message serves the events that the message hands to slots. -/
theorem Resting.handle (hr : Resting leads r) (hm : m.Routine leads) :
    Working (r.put (r.state.note (r.state.host.handle m))) ∧
      (Running.noted r.state.host m).Serves (handed r.state.host m) (spoken r.state.host m)
        (r.state.host.handle m).2 (r.state.host.handle m).1 [] := by
  have hhandle : r.state.host.handle m =
      (Running.noted r.state.host m).performAll (r.state.host.replica.respond m).steps := by
    have hroutine : m.Routine r.state.host.replica.isLeader := hr.leads_eq ▸ hm
    simp only [Host.handle, Replica.weak_respond_eq_none hroutine, Running.noted]
  obtain ⟨htended, hserves⟩ := (hr.noted m).performAll (r.state.host.replica.regular_respond m)
  have hconfig : (Running.noted r.state.host m).replica.config = r.state.host.replica.config :=
    (r.state.host.replica.noted_respond m).config_eq
  rw [hconfig, ← hhandle] at hserves
  rw [← hhandle] at htended
  refine ⟨⟨?_, htended, fun slot hqueue => mem_ready_put (.inr ?_)⟩, hserves⟩
  · change (r.state.host.handle m).1.Lone
    rw [hhandle]
    exact (hr.working.lone.replace _).performAll _
  · exact (hserves.woken slot hqueue).resolve_left
      (absurd (hr.working.queue_eq_nil hr.ready))

/-- A host at rest that gets a message resolves the events that the message hands to slots, and is
at rest again. -/
theorem Resting.receive (hr : Resting leads r) (hm : m.Routine leads) :
    Resting leads (message r m) ∧ ∃ taken sent,
      (Running.noted r.state.host m).replica.view.Resolves taken sent
        (message r m).state.host.replica.view ∧
      SameBySlot taken (handed r.state.host m) ∧
      (message r m).state.sent.Perm (r.state.sent ++ (sent ++ spoken r.state.host m)) := by
  obtain ⟨hworking, hfirst⟩ := hr.handle hm
  have hready : (message r m).clock.ready = [] := ready_settle hworking.lone
  obtain ⟨hdone, signals, hrest, hsent⟩ : Working (message r m) ∧ ∃ signals,
      (r.state.host.handle m).1.Serves [] [] signals (message r m).state.host [] ∧
        (message r m).state.sent =
          (r.state.sent ++ messages (r.state.host.handle m).2) ++ messages signals :=
    hworking.settleWithin _
  obtain ⟨taken, effects, htrace, hmessages, horder⟩ := (hfirst.trans hrest).trace
  have hsame : SameBySlot taken (handed r.state.host m) := by
    intro slot
    have hslot := horder slot
    have hempty : (Running.noted r.state.host m).queue slot = [] :=
      hr.working.queue_eq_nil hr.ready
    rw [hempty, hdone.queue_eq_nil hready] at hslot
    simpa [news, atSlot] using hslot.symm
  obtain ⟨hsane, hsuits⟩ := hr.sane.respond (hr.leads_eq ▸ hm : m.Routine _)
    r.state.host.replica.config.ballot
  obtain ⟨hresolves, hsane'⟩ := htrace.resolves (hr.noted m).current_replica hsane
    (hsuits.congr hsame) (hdone.next?_eq_none hready)
  refine ⟨⟨hdone, hready, hsane', ?_⟩, taken, _, hresolves, hsame, ?_⟩
  · have hnoted := r.state.host.replica.noted_respond m
    obtain ⟨⟨_, _, _, _, _, _, hframe⟩, -⟩ := hnoted
    obtain ⟨hid, hconfig⟩ := htrace.same
    rw [Replica.isLeader, hid, hconfig, Running.noted, hframe]
    exact hr.leads_eq
  · rw [hsent, List.append_assoc, ← messages_append]
    rw [List.append_nil] at hmessages
    exact hmessages.append_left _

/-! ### Hosts alike -/

/-- A message finds hosts alike and leaves them alike. -/
theorem Alike.message (ha : Alike leads r r') (hm : m.Routine leads) :
    Alike leads (Running.message r m) (Running.message r' m) := by
  obtain ⟨hleft, taken, sent, hresolves, hsame, hsent⟩ := ha.left.receive hm
  obtain ⟨hright, taken', sent', hresolves', hsame', hsent'⟩ := ha.right.receive hm
  have hbase := congrArg View.base ha.view
  have hsteps : (r.state.host.replica.respond m).steps = (r'.state.host.replica.respond m).steps := by
    have hleft := congrArg Replica.Response.steps (r.state.host.replica.respond_bare m)
    have hright := congrArg Replica.Response.steps (r'.state.host.replica.respond_bare m)
    exact hleft.symm.trans ((congrArg (fun base => (base.respond m).steps) hbase).trans hright)
  have hballot : r.state.host.replica.config.ballot = r'.state.host.replica.config.ballot :=
    congrArg (fun base => base.config.ballot) hbase
  have hleader : r.state.host.replica.config.leader = r'.state.host.replica.config.leader :=
    congrArg (fun base => base.config.leader) hbase
  have hnoted : (noted r.state.host m).replica.view = (noted r'.state.host m).replica.view := by
    rw [noted, noted, Replica.view_respond, Replica.view_respond, ha.view]
  have hhanded : handed r.state.host m = handed r'.state.host m := by
    rw [handed, handed, hballot, hsteps]
  have hspoken : spoken r.state.host m = spoken r'.state.host m := by
    rw [spoken, spoken, hleader, hsteps]
  have horderly : (noted r.state.host m).replica.view.Orderly :=
    (ha.left.sane.respond (ha.left.leads_eq ▸ hm : m.Routine _) 0).1.orderly
  rw [← hnoted] at hresolves'
  rw [← hhanded] at hsame'
  obtain ⟨hview, hperm⟩ := hresolves.unique hresolves' horderly
    fun slot => (hsame slot).trans (hsame' slot).symm
  refine ⟨hleft, hright, hview, hsent.trans (List.Perm.trans ?_ hsent'.symm)⟩
  rw [hspoken]
  exact ha.sent.append (hperm.append_right _)

theorem Alike.takeSent (ha : Alike leads r r') :
    Alike leads (Running.takeSent r).1 (Running.takeSent r').1 ∧
      (Running.takeSent r).2.Perm (Running.takeSent r').2 := by
  obtain ⟨⟨⟨hlone, htended, hattended⟩, hready, hsane, hleads⟩,
    ⟨⟨hlone', htended', hattended'⟩, hready', hsane', hleads'⟩, hview, hsent⟩ := ha
  exact ⟨⟨⟨⟨hlone, htended, hattended⟩, hready, hsane, hleads⟩,
    ⟨⟨hlone', htended', hattended'⟩, hready', hsane', hleads'⟩, hview, .refl _⟩, hsent⟩

/-- How much room there is for tasks does not show in a host that has done nothing yet. -/
theorem alike_fresh (id : ReplicaId) (config : Config) :
    Alike (config.isLeader id) (fresh id config) (fresh id config.inline) where
  left := resting_fresh id config
  right := resting_fresh id config.inline
  view := rfl
  sent := .refl _

/-- Hands a message to a host, lets its tasks run, and takes what it has sent. -/
def exchange (r : Run Running Task) (m : ReplicaMessage) : Run Running Task × List Sent :=
  takeSent (message r m)

/-- Hands messages to a host one after another, and lets its tasks run after each. -/
def exchangeAll (r : Run Running Task) (ms : List ReplicaMessage) : Run Running Task :=
  ms.foldl (fun r m => (exchange r m).1) r

/-- Two hosts have come to the same: the same store, slots executed, results and committed slots.
They have sent the same messages, in some order. -/
structure Agrees (done done' : Run Running Task × List Sent) : Prop where
  store : done.1.state.host.replica.store = done'.1.state.host.replica.store
  executed : done.1.state.host.replica.executed = done'.1.state.host.replica.executed
  values : done.1.state.host.replica.values = done'.1.state.host.replica.values
  committed : done.1.state.host.replica.committed = done'.1.state.host.replica.committed
  sent : done.2.Perm done'.2

theorem Alike.exchange (ha : Alike leads r r') (hm : m.Routine leads) :
    Alike leads (Running.exchange r m).1 (Running.exchange r' m).1 ∧
      Agrees (Running.exchange r m) (Running.exchange r' m) := by
  obtain ⟨hdone, hsent⟩ := (ha.message hm).takeSent
  have hbase := congrArg View.base hdone.view
  have hstore := congrArg Replica.store hbase
  have hexecuted := congrArg Replica.executed hbase
  have hvalues := congrArg Replica.values hbase
  have hcommitted := congrArg Replica.committed hbase
  exact ⟨hdone, hstore, hexecuted, hvalues, hcommitted, hsent⟩

theorem Alike.exchangeAll {ms : List ReplicaMessage} (ha : Alike leads r r')
    (hms : ∀ m ∈ ms, m.Routine leads) :
    Alike leads (Running.exchangeAll r ms) (Running.exchangeAll r' ms) := by
  induction ms generalizing r r' with
  | nil => exact ha
  | cons m ms ih =>
      exact ih (ha.exchange (hms m List.mem_cons_self)).1
        fun m hmem => hms m (List.mem_cons_of_mem _ hmem)

/-- Whatever room a host has for tasks of slots, what comes of each message, once its tasks have
run, is what comes of it where every slot is served on the spot. The leader may get strong commands,
requests for results and acknowledgements, alone or batched; any other replica may get anything. -/
theorem slot_tasks_agree (hstart : start id config = .ok r) (hbatching : config.batching = false) :
    ∃ inline, start id config.inline = .ok inline ∧
      ∀ (before : List ReplicaMessage) (m : ReplicaMessage),
        (∀ m' ∈ before ++ [m], m'.Routine (config.isLeader id)) →
        Agrees (exchange (exchangeAll r before) m) (exchange (exchangeAll inline before) m) := by
  have hvalid : config.validateReplica id = .ok () := by
    cases hvalid : config.validateReplica id with
    | error e => simp [start, Host.start, hvalid] at hstart
    | ok => rfl
  rw [start_eq_fresh hvalid hbatching] at hstart
  obtain rfl := Except.ok.inj hstart
  refine ⟨fresh id config.inline, start_eq_fresh hvalid hbatching, fun before m hms => ?_⟩
  obtain ⟨hbefore, hm⟩ := List.forall_mem_append.1 hms
  exact (((alike_fresh id config).exchangeAll hbefore).exchange (hm m List.mem_cons_self)).2

/-- A cluster of three replicas in which one slot at a time may have a task. -/
def narrow : Config := { replicas := 3, leader := 0, maxSlotTasks := 1 }

/-- Three slots are committed and then accepted, the last one first. -/
def reversed : List ReplicaMessage :=
  [.commit ⟨0, 2⟩, .commit ⟨0, 1⟩, .commit ⟨0, 0⟩,
    .accept ⟨0, ⟨1, 2⟩, 2, some ⟨.put, 3, ⟨[99]⟩⟩, false⟩,
    .accept ⟨0, ⟨1, 1⟩, 1, some ⟨.put, 2, ⟨[98]⟩⟩, false⟩]

/-- The accept of the first slot, after which all three slots execute. -/
def opening : ReplicaMessage := .accept ⟨0, ⟨1, 0⟩, 0, some ⟨.put, 1, ⟨[97]⟩⟩, false⟩

theorem slot_tasks_agree_reversed :
    Agrees (exchange (exchangeAll (fresh 1 narrow) reversed) opening)
        (exchange (exchangeAll (fresh 1 narrow.inline) reversed) opening) ∧
      (exchangeAll (fresh 1 narrow) reversed).state.host.mailboxes.size = 1 ∧
      (exchange (exchangeAll (fresh 1 narrow) reversed) opening).1.state.host.replica.executed = 3 := by
  have hvalid : narrow.validateReplica 1 = .ok () := by decide +kernel
  have hfresh : start 1 narrow.inline = .ok (fresh 1 narrow.inline) := start_eq_fresh hvalid rfl
  obtain ⟨inline, hinline, hagrees⟩ := slot_tasks_agree (start_eq_fresh hvalid rfl) rfl
  obtain rfl := Except.ok.inj (hfresh.symm.trans hinline)
  refine ⟨hagrees reversed opening ?_, by decide +kernel, by decide +kernel⟩
  simp [reversed, opening, ReplicaMessage.Routine, Config.isLeader, narrow]

/-! ### Replicas by themselves -/

/-- A host without room for tasks that is at rest, with the replica that it has. -/
structure Solitary (leads : Bool) (replica : Replica) (r : Run Running Task) : Prop where
  resting : Resting leads r
  inline : r.state.host.Inline
  replica_eq : r.state.host.replica = replica
  sent : r.state.sent = []

theorem Solitary.exchange {replica : Replica} (hs : Solitary leads replica r)
    (hm : m.Routine leads) : Solitary leads (replica.step m).1 (Running.exchange r m).1 ∧
      (Running.exchange r m).2 = (replica.step m).2 := by
  obtain ⟨hresting, hinline, rfl, hnone⟩ := hs
  obtain ⟨⟨⟨hlone, htended, hattended⟩, hready, hsane, hleads⟩, -⟩ := hresting.receive hm
  obtain ⟨hinline', hreplica, hsent⟩ := message_inline hinline hresting.working.lone hresting.ready
    (hresting.leads_eq ▸ hm)
  rw [hnone, List.nil_append] at hsent
  exact ⟨⟨⟨⟨hlone, htended, hattended⟩, hready, hsane, hleads⟩, hinline', hreplica, rfl⟩, hsent⟩

/-- Hands messages to a replica one after another. -/
def stepAll (replica : Replica) (ms : List ReplicaMessage) : Replica :=
  ms.foldl (fun replica m => (replica.step m).1) replica

theorem Solitary.exchangeAll {replica : Replica} {ms : List ReplicaMessage}
    (hs : Solitary leads replica r) (hms : ∀ m ∈ ms, m.Routine leads) :
    Solitary leads (stepAll replica ms) (Running.exchangeAll r ms) := by
  induction ms generalizing replica r with
  | nil => exact hs
  | cons m ms ih =>
      exact ih (hs.exchange (hms m List.mem_cons_self)).1
        fun m hmem => hms m (List.mem_cons_of_mem _ hmem)

/-- Whatever room a host has for tasks of slots, what comes of each message is what its replica
makes of it by itself. -/
theorem view_exchange (id : ReplicaId) (config : Config) (before : List ReplicaMessage)
    (m : ReplicaMessage) (hms : ∀ m' ∈ before ++ [m], m'.Routine (config.isLeader id)) :
    (exchange (exchangeAll (fresh id config) before) m).1.state.host.replica.view =
        ((stepAll (.initial id config.inline) before).step m).1.view ∧
      (exchange (exchangeAll (fresh id config) before) m).2.Perm
        ((stepAll (.initial id config.inline) before).step m).2 := by
  obtain ⟨hbefore, hm⟩ := List.forall_mem_append.1 hms
  have hroutine := hm m List.mem_cons_self
  have hsolitary : Solitary (config.isLeader id) (.initial id config.inline)
      (fresh id config.inline) := ⟨resting_fresh id config.inline, ⟨rfl, rfl⟩, rfl, rfl⟩
  obtain ⟨hdone, hsent⟩ := (hsolitary.exchangeAll hbefore).exchange hroutine
  obtain ⟨halike, hagrees⟩ := ((alike_fresh id config).exchangeAll hbefore).exchange hroutine
  rw [← hdone.replica_eq, ← hsent]
  exact ⟨halike.view, hagrees.sent⟩

end Running

end WitnessReplication.Host
