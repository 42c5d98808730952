import WitnessReplication.Proofs.Host.Tending
import WitnessReplication.Proofs.Replica.Naming
import WitnessReplication.Proofs.Replica.Repeating

/-!
# The weak commands that a host has put in order

A look of the task of a weak command may give the command the next slot
(`Moment.ordering?`). `Ordered` says what a journal and the leader's host have in common at any time:
every weak command that has been handed over has had a task, the slots it was given increase, and
the slots of the replica carry the commands that they were given to. `Journal.ordered` says that
this always holds.

## Implementation notes

A slot may also carry a strong command, or one that an accept names. Which commands are followed is
up to `cares`: where no message smuggles in one of these, they are carried only by slots that they
were given.
-/

namespace WitnessReplication

namespace Replica

/-- The slots that a replica has given out come before the next one. -/
def SlotsBelow (r : Replica) : Prop :=
  ∀ (id : CommandId) (slot : Slot), r.slots[id]? = some slot → slot < r.nextSlot

variable {r r' : Replica} {id : CommandId} {c : Command} {effects : List Effect}

theorem SlotsBelow.congr (h : r.SlotsBelow) (hnext : r'.nextSlot = r.nextSlot)
    (hslots : r'.slots = r.slots) : r'.SlotsBelow := by
  intro id slot hslot
  rw [hnext]
  exact h id slot (hslots ▸ hslot)

theorem SlotsBelow.assign (h : r.SlotsBelow) (strong : Bool) :
    (r.assign id c strong).1.SlotsBelow := by
  unfold Replica.assign
  dsimp only
  split
  · exact fun id' slot hslot => Nat.lt_succ_of_lt (h id' slot hslot)
  · intro id' slot hslot
    simp only [Std.ExtTreeMap.getElem?_insert] at hslot
    split at hslot
    · rw [← Option.some.inj hslot]
      exact Nat.lt_succ_self _
    · exact Nat.lt_succ_of_lt (h id' slot hslot)

/-- A response gives out at most the next slot. -/
theorem SlotsBelow.respond (h : r.SlotsBelow) (hleader : r.isLeader = true) (m : ReplicaMessage) :
    (r.respond m).replica.SlotsBelow ∧ r.nextSlot ≤ (r.respond m).replica.nextSlot := by
  have hweak : ∀ (body : WeakPropose) (causal : Bool), (r.respondWeak body causal).replica.SlotsBelow ∧
      r.nextSlot ≤ (r.respondWeak body causal).replica.nextSlot := by
    intro body causal
    obtain ⟨_, hpending⟩ := r.recordPending_frame body.id body.command
    have hrecorded : (r.recordPending body.id body.command).isLeader = true := by
      rw [hpending]
      exact hleader
    rw [respondWeak_of_isLeader hleader, witnessWeak_of_isLeader hrecorded, hpending]
    exact ⟨h, Nat.le_refl _⟩
  cases m with
  | propose body =>
      simp only [Replica.respond, hleader, if_true, leadPropose]
      split
      · exact ⟨h, Nat.le_refl _⟩
      · have hassign : (r.assign body.id body.command true).1.SlotsBelow := h.assign true
        have hnext : (r.assign body.id body.command true).1.nextSlot = r.nextSlot + 1 := by
          unfold Replica.assign
          dsimp only
          split <;> rfl
        split
        · rename_i r' e heq
          rw [heq] at hassign hnext
          exact ⟨hassign, by rw [hnext]; exact Nat.le_succ _⟩
        · rename_i r' slot dep heq
          rw [heq] at hassign hnext
          obtain ⟨_, hpending⟩ := r'.recordPending_frame body.id body.command
          dsimp only
          rw [hpending]
          exact ⟨hassign, by rw [hnext]; exact Nat.le_succ _⟩
  | sync body =>
      simp only [Replica.respond, respondSync]
      split
      · exact ⟨h, Nat.le_refl _⟩
      · split <;> exact ⟨h, Nat.le_refl _⟩
  | weakPropose body => exact hweak body false
  | causalPropose body => exact hweak body true
  | accept a => exact ⟨h, Nat.le_refl _⟩
  | acceptAck a => exact ⟨h, Nat.le_refl _⟩
  | commit b => exact ⟨h, Nat.le_refl _⟩
  | batch b => exact ⟨h, Nat.le_refl _⟩

theorem Changes.numbering {fits : Slot → Event → Prop} (hc : Changes fits r effects r') :
    r'.nextSlot = r.nextSlot ∧ r'.slots = r.slots :=
  hc.preserve (P := fun r' _ => r'.nextSlot = r.nextSlot ∧ r'.slots = r.slots)
    (fun hp hlast => ⟨hlast.numbering.1.trans hp.1, hlast.numbering.2.trans hp.2⟩) [] ⟨rfl, rfl⟩

end Replica

namespace Host

open Replica (Effect Event WeakCommand)

/-- The weak command that a look puts in order, with the slot that it gets: its task was yet to
order it, and afterwards it has the slot that was the next one. -/
def Moment.ordering? (x : Moment) : Option (WeakCommand × Slot) :=
  match x.act with
  | .look _ (.weak number) =>
    match x.host.weak[number]? with
    | some ⟨w, stage⟩ =>
      if stage.slot? = none ∧ x.outcome.1.replica.slot? w.id = some x.host.replica.nextSlot then
        some (w, x.host.replica.nextSlot)
      else none
    | none => none
  | _ => none

theorem Moment.ordering?_eq_some {x : Moment} {w : WeakCommand} {slot : Slot}
    (hx : x.ordering? = some (w, slot)) : ∃ (now number : Nat) (stage : Stage),
      x.act = .look now (.weak number) ∧ x.host.weak[number]? = some ⟨w, stage⟩ ∧
        stage.slot? = none ∧ x.outcome.1.replica.slot? w.id = some x.host.replica.nextSlot ∧
          slot = x.host.replica.nextSlot := by
  unfold ordering? at hx
  split at hx
  · rename_i now number hact
    split at hx
    · rename_i w' stage hown
      simp only [Option.ite_none_right_eq_some, Option.some.injEq, Prod.mk.injEq] at hx
      obtain ⟨⟨hstage, hslot⟩, rfl, rfl⟩ := hx
      exact ⟨now, number, stage, hact, hown, hstage, hslot, rfl⟩
    · simp at hx
  · simp at hx

/-- A look of a task puts its command in order if that was yet to be done, and then the command has
the slot that was the next one. -/
theorem ordering?_look {h : Host} {number : Nat} {w : WeakCommand} {stage : Stage} (now : Nat)
    (hown : h.weak[number]? = some ⟨w, stage⟩) :
    (⟨h, .look now (.weak number)⟩ : Moment).ordering? =
      if stage.slot? = none ∧
          (h.lookWeak now number).1.replica.slot? w.id = some h.replica.nextSlot then
        some (w, h.replica.nextSlot)
      else none := by
  simp only [Moment.ordering?, hown, Moment.outcome, look]
  rfl

/-- The weak commands put in order, each with its slot. -/
def orderings (log : List Moment) : List (WeakCommand × Slot) :=
  log.filterMap Moment.ordering?

/-- A task that tends the slot of its command has the slot that the command was given. -/
theorem Tending.placed {h' : Host} {number : Nat} {w : WeakCommand} {slot : Slot} {due : Prop}
    {sent : List Sent} {given : List (WeakCommand × Slot)}
    (ht : Tending number w slot due h' sent) (hmem : (w, slot) ∈ given) {task : WeakTask}
    (htask : h'.weak[number]? = some task) :
    task.command = w ∧ ∀ slot, task.stage.slot? = some slot → (w, slot) ∈ given := by
  obtain ⟨hcommand, hstage⟩ := ht.own htask
  refine ⟨hcommand, fun other hother => ?_⟩
  obtain rfl := Option.some.inj (hstage.symm.trans hother)
  exact hmem

/-- A slot may carry what it was given to, of the commands that matter. -/
def carried (cares : CommandId → Bool → Prop) (given : List (WeakCommand × Slot)) (id : CommandId)
    (weak : Bool) (slot : Slot) : Prop :=
  cares id weak → ∃ w, (w, slot) ∈ given ∧ w.id = id

/-- A message smuggles in no command that matters: neither as a strong command nor by an accept. -/
structure Honest (cares : CommandId → Bool → Prop) (ballot : Ballot) (m : ReplicaMessage) :
    Prop where
  propose : ∀ body, m = .propose body → ¬cares body.id false
  accepts : ∀ a ∈ m.accepts, a.ballot = ballot → ¬cares a.id a.weak

/-- The slots of the leader's replica carry what they were given to. -/
structure Carries (cares : CommandId → Bool → Prop) (id : ReplicaId) (config : Config)
    (log : List Moment) (h : Host) : Prop where
  id_eq : h.replica.id = id
  config_eq : h.replica.config = config
  increasing : (orderings log).Pairwise fun a b => a.2 < b.2
  below : ∀ {w slot}, (w, slot) ∈ orderings log → slot < h.replica.nextSlot
  slots_below : h.replica.SlotsBelow
  holds : h.Holds (Event.Names (carried cares (orderings log)) config.ballot)
  named : h.replica.Named (carried cares (orderings log))

/-- What the leader's host has in common with its journal. -/
structure Ordered (cares : CommandId → Bool → Prop) (id : ReplicaId) (config : Config)
    (log : List Moment) (h : Host) : Prop extends Carries cares id config log h where
  /-- Every weak command has had a task, numbered by arrival. -/
  spawned_eq : h.spawned = (commands log).length
  numbered : ∀ {number : Nat} {task : WeakTask}, h.weak[number]? = some task →
    (commands log)[number]? = some task.command
  /-- A task that tends a slot was given it. -/
  placed : ∀ {number : Nat} {task : WeakTask} {slot}, h.weak[number]? = some task →
    task.stage.slot? = some slot → (task.command, slot) ∈ orderings log
  /-- A command was given a slot by its own task, which tends that slot or has ended. -/
  started : ∀ {w slot}, (w, slot) ∈ orderings log → ∃ number : Nat,
    (commands log)[number]? = some w ∧
      ∀ task : WeakTask, h.weak[number]? = some task → task.stage.slot? = some slot

variable {cares : CommandId → Bool → Prop} {id : ReplicaId} {config : Config}
variable {log : List Moment} {h h' : Host} {signals : List Signal}

theorem handled_append (log more : List Moment) :
    handled (log ++ more) = handled log ++ handled more := by
  simp [handled]

theorem handled_subset (log more : List Moment) : handled log ⊆ handled (log ++ more) := by
  rw [handled_append]
  exact List.subset_append_left _ _

theorem commands_append (log more : List Moment) :
    commands (log ++ more) = commands log ++ commands more := by
  simp [commands, handled_append]

theorem orderings_append (log more : List Moment) :
    orderings (log ++ more) = orderings log ++ orderings more := by
  simp [orderings]

theorem carried.append {given : List (WeakCommand × Slot)} {id : CommandId} {weak : Bool}
    {slot : Slot} (hcarried : carried cares given id weak slot)
    (more : List (WeakCommand × Slot)) : carried cares (given ++ more) id weak slot := by
  intro hcares
  obtain ⟨w, hmem, hid⟩ := hcarried hcares
  exact ⟨w, List.mem_append_left _ hmem, hid⟩

/-- What an honest message hands to a slot names no command that matters. -/
theorem Honest.names {ballot : Ballot} {m : ReplicaMessage} {given : List (WeakCommand × Slot)}
    {slot : Slot} {event : Event} (hm : Honest cares ballot m) (hbrought : event.Brought m slot) :
    event.Names (carried cares given) ballot slot := by
  cases event with
  | propose p =>
      obtain ⟨⟨body, hbody, hid⟩, hweak, -⟩ := hbrought
      intro hcares
      rw [hid, hweak] at hcares
      exact absurd hcares (hm.propose body hbody)
  | accept a => exact fun hballot hcares => absurd hcares (hm.accepts a hbrought.2 hballot)
  | acceptAck a => trivial
  | commit b => trivial
  | wake => trivial

/-! ### What slots do -/

namespace Carries

theorem congr {log' : List Moment} (hc : Carries cares id config log h)
    (horder : orderings log' = orderings log) (hreplica : h'.replica = h.replica)
    (hmail : h'.mailboxes = h.mailboxes) : Carries cares id config log' h' := by
  exact {
    id_eq := by rw [hreplica]; exact hc.id_eq
    config_eq := by rw [hreplica]; exact hc.config_eq
    increasing := by rw [horder]; exact hc.increasing
    below := by rw [horder, hreplica]; exact hc.below
    slots_below := by rw [hreplica]; exact hc.slots_below
    holds := by
      intro slot queue hbox
      rw [horder, hreplica]
      rw [hmail] at hbox
      exact hc.holds hbox
    named := by rw [horder, hreplica]; exact hc.named }

/-- A replica that notes something goes on carrying what it carries. -/
theorem note {q? : Option Request} {r : Replica} (hc : Carries cares id config log h)
    (hnoted : h.replica.Noted q? r) (hnext : h.replica.nextSlot ≤ r.nextSlot)
    (hslots : r.SlotsBelow) : Carries cares id config log { h with replica := r } := by
  obtain ⟨⟨_, _, _, _, _, _, rfl⟩, -⟩ := hnoted
  exact {
    id_eq := hc.id_eq
    config_eq := hc.config_eq
    increasing := hc.increasing
    below := fun hmem => Nat.lt_of_lt_of_le (hc.below hmem) hnext
    slots_below := hslots
    holds := hc.holds
    named := hc.named.congr rfl rfl rfl rfl }

/-- What a host does for its slots keeps them carrying what they were given to. -/
theorem moves (hc : Carries cares id config log h)
    {spoken : Effect → Prop}
    (hs : Moves (Event.Names (carried cares (orderings log)) config.ballot) spoken h signals h') :
    Carries cares id config log h' := by
  obtain ⟨effects, hchanges⟩ := hs.changes
  obtain ⟨hid, hconfig⟩ := hchanges.same
  obtain ⟨hnext, hslots⟩ := hchanges.numbering
  obtain ⟨hnamed, -, -⟩ := hchanges.named hc.named (congrArg Config.ballot hc.config_eq)
  exact {
    id_eq := hid.trans hc.id_eq
    config_eq := hconfig.trans hc.config_eq
    increasing := hc.increasing
    below := by rw [hnext]; exact hc.below
    slots_below := hc.slots_below.congr hnext hslots
    holds := hs.holds hc.holds
    named := hnamed }

/-- A weak command is given the next slot, which may carry it from then on. -/
theorem order {x : Moment} {w : WeakCommand} (hc : Carries cares id config log h)
    (hx : x.ordering? = some (w, h.replica.nextSlot)) :
    Carries cares id config (log ++ [x]) { h with replica := assigned h.replica w } := by
  have horder : orderings (log ++ [x]) = orderings log ++ [(w, h.replica.nextSlot)] := by
    simp [orderings, hx]
  have hcarried : ∀ id weak slot, carried cares (orderings log) id weak slot →
      carried cares (orderings (log ++ [x])) id weak slot := by
    intro id weak slot hcarried
    rw [horder]
    exact hcarried.append _
  have hassigned := hc.note (noted_assigned h.replica w)
    (by rw [nextSlot_assigned]; exact Nat.le_succ _) (hc.slots_below.assign false)
  exact {
    id_eq := hassigned.id_eq
    config_eq := hassigned.config_eq
    increasing := by
      rw [horder, List.pairwise_append]
      refine ⟨hc.increasing, List.pairwise_singleton _ _, fun a ha b hb => ?_⟩
      rw [List.mem_singleton.1 hb]
      exact hc.below ha
    below := by
      intro w' slot hmem
      simp only [nextSlot_assigned]
      rw [horder] at hmem
      rcases List.mem_append.1 hmem with hmem | hmem
      · exact Nat.lt_succ_of_lt (hc.below hmem)
      · rw [(Prod.mk.inj (List.mem_singleton.1 hmem)).2]
        exact Nat.lt_succ_self _
    slots_below := hassigned.slots_below
    holds := by
      intro slot queue hbox event hmem
      exact (hassigned.holds hbox event hmem).mono fun slot event hnames => hnames.mono hcarried
    named := hassigned.named.mono hcarried }

end Carries

/-! ### What a moment does -/

namespace Ordered

/-- The next weak command has no task yet. -/
theorem weak_spawned (ho : Ordered cares id config log h) : h.weak[h.spawned]? = none := by
  refine Option.eq_none_iff_forall_ne_some.2 fun task htask => ?_
  have hlt := (List.getElem?_eq_some_iff.1 (ho.numbered htask)).1
  rw [← ho.spawned_eq] at hlt
  exact Nat.lt_irrefl _ hlt

/-- A moment without weak commands leaves what the tasks have in common with the journal. -/
theorem idle {log' : List Moment} (ho : Ordered cares id config log h)
    (hc : Carries cares id config log' h') (hcommands : commands log' = commands log)
    (horder : orderings log' = orderings log) (hweak : h'.weak = h.weak)
    (hspawned : h'.spawned = h.spawned) : Ordered cares id config log' h' where
  toCarries := hc
  spawned_eq := by rw [hspawned, hcommands]; exact ho.spawned_eq
  numbered := by rw [hweak, hcommands]; exact ho.numbered
  placed := by rw [hweak, horder]; exact ho.placed
  started := by rw [hweak, horder, hcommands]; exact ho.started

/-- A weak command that is handed over gets a task of its own. -/
theorem spawn {log' : List Moment} {w : WeakCommand} (ho : Ordered cares id config log h)
    (hcommands : commands log' = commands log ++ [w]) (horder : orderings log' = orderings log) :
    Ordered cares id config log' (h.spawnWeak w).1 where
  toCarries := ho.toCarries.congr horder rfl rfl
  spawned_eq := by
    rw [hcommands, List.length_append, ← ho.spawned_eq]
    rfl
  numbered := by
    intro number task htask
    simp only [spawnWeak, setStage, Std.ExtTreeMap.getElem?_insert, Std.compare_eq_iff_eq] at htask
    rw [hcommands]
    split at htask
    · rename_i hnew
      obtain rfl := Option.some.inj htask
      rw [← hnew, ho.spawned_eq]
      simp
    · have hold := ho.numbered htask
      rwa [List.getElem?_append_left (List.getElem?_eq_some_iff.1 hold).1]
  placed := by
    intro number task slot htask hslot
    simp only [spawnWeak, setStage, Std.ExtTreeMap.getElem?_insert, Std.compare_eq_iff_eq] at htask
    rw [horder]
    split at htask
    · obtain rfl := Option.some.inj htask
      simp [Stage.slot?] at hslot
    · exact ho.placed htask hslot
  started := by
    intro w' slot hmem
    rw [horder] at hmem
    obtain ⟨number, hnumber, htasks⟩ := ho.started hmem
    have hlt : number < h.spawned := ho.spawned_eq ▸ (List.getElem?_eq_some_iff.1 hnumber).1
    refine ⟨number, ?_, fun task htask => htasks task ?_⟩
    · rw [hcommands, List.getElem?_append_left (ho.spawned_eq ▸ hlt), hnumber]
    · simpa [spawnWeak, setStage, Std.ExtTreeMap.getElem?_insert, Nat.ne_of_gt hlt] using htask

/-- Handling an honest message. -/
theorem handle (ho : Ordered cares id config log h) (hleader : config.isLeader id = true)
    {m : ReplicaMessage} (hm : Honest cares config.ballot m) :
    Ordered cares id config (log ++ [⟨h, .handle m⟩]) (h.handle m).1 := by
  have hleads : h.replica.isLeader = true := by
    rw [Replica.isLeader, ho.config_eq, ho.id_eq, hleader]
  obtain ⟨h₁, signals, hs, heq⟩ := handle_eq
    (Event.Names (carried cares (orderings log)) config.ballot) (fun _ => True) hleads
    (fun _ _ hbrought => hm.names hbrought) fun _ _ => trivial
  obtain ⟨hslots, hnext⟩ := ho.slots_below.respond hleads m
  have hcarries := (ho.toCarries.note (h.replica.noted_respond m) hnext hslots).moves hs
  obtain ⟨hweak, hspawned⟩ := hs.weak_eq
  have horder : orderings (log ++ [⟨h, .handle m⟩]) = orderings log := by
    simp [orderings, Moment.ordering?]
  have hmoved : Ordered cares id config log h₁ :=
    ho.idle hcarries rfl rfl hweak hspawned
  rw [heq]
  cases hw : m.weakCommand? with
  | none =>
      refine hmoved.idle (hcarries.congr horder rfl rfl) ?_ horder rfl rfl
      simp [commands, handled, Moment.message?, hw]
  | some w =>
      refine hmoved.spawn ?_ horder
      simp [commands, handled, Moment.message?, hw]

/-- A look of one task concerns only that task, which goes on tending the slot it has. -/
theorem attend {log' : List Moment} {number : Nat} {w : WeakCommand} {stage : Stage}
    (ho : Ordered cares id config log h) (hc : Carries cares id config log' h')
    (hcommands : commands log' = commands log) (hspawned : h'.spawned = h.spawned)
    (hown : h.weak[number]? = some ⟨w, stage⟩)
    (hothers : ∀ other, other ≠ number → h'.weak[other]? = h.weak[other]?)
    (hnext : ∀ task : WeakTask, h'.weak[number]? = some task → task.command = w ∧
      ∀ slot, task.stage.slot? = some slot → (w, slot) ∈ orderings log')
    (hkept : ∀ (slot : Slot) (task : WeakTask), stage.slot? = some slot →
      h'.weak[number]? = some task → task.stage.slot? = some slot)
    (hsubset : orderings log ⊆ orderings log')
    (hnew : ∀ w' slot, (w', slot) ∈ orderings log' → (w', slot) ∈ orderings log ∨ w' = w ∧
      ∀ task : WeakTask, h'.weak[number]? = some task → task.stage.slot? = some slot) :
    Ordered cares id config log' h' where
  toCarries := hc
  spawned_eq := by rw [hspawned, hcommands]; exact ho.spawned_eq
  numbered := by
    intro other task htask
    rw [hcommands]
    by_cases hother : other = number
    · subst hother
      rw [(hnext task htask).1]
      exact ho.numbered hown
    · exact ho.numbered (hothers other hother ▸ htask)
  placed := by
    intro other task slot htask hslot
    by_cases hother : other = number
    · subst hother
      obtain ⟨hcommand, hgiven⟩ := hnext task htask
      rw [hcommand]
      exact hgiven slot hslot
    · exact hsubset (ho.placed (hothers other hother ▸ htask) hslot)
  started := by
    intro w' slot hmem
    rw [hcommands]
    rcases hnew w' slot hmem with hold | ⟨rfl, htasks⟩
    · obtain ⟨other, hother, htasks⟩ := ho.started hold
      refine ⟨other, hother, fun task htask => ?_⟩
      by_cases hsame : other = number
      · subst hsame
        exact hkept slot task (htasks _ hown) htask
      · exact htasks task (hothers other hsame ▸ htask)
    · exact ⟨number, ho.numbered hown, htasks⟩

/-- A look of one task that puts nothing in order. -/
theorem attend_idle {log' : List Moment} {number : Nat} {w : WeakCommand} {stage : Stage}
    (ho : Ordered cares id config log h) (hc : Carries cares id config log' h')
    (horder : orderings log' = orderings log) (hcommands : commands log' = commands log)
    (hspawned : h'.spawned = h.spawned) (hown : h.weak[number]? = some ⟨w, stage⟩)
    (hothers : ∀ other, other ≠ number → h'.weak[other]? = h.weak[other]?)
    (hnext : ∀ task : WeakTask, h'.weak[number]? = some task → task.command = w ∧
      ∀ slot, task.stage.slot? = some slot → (w, slot) ∈ orderings log)
    (hkept : ∀ (slot : Slot) (task : WeakTask), stage.slot? = some slot →
      h'.weak[number]? = some task → task.stage.slot? = some slot) :
    Ordered cares id config log' h' := by
  refine ho.attend hc hcommands hspawned hown hothers ?_ hkept ?_ ?_
  · rw [horder]
    exact hnext
  · rw [horder]
    exact List.Subset.refl _
  · rw [horder]
    exact fun w' slot hmem => .inl hmem

/-- Nothing is put in order by a look after which the command does not have the next slot. -/
theorem orderings_look {number : Nat} {w : WeakCommand} {stage : Stage}
    (ho : Ordered cares id config log h) (now : Nat) (hown : h.weak[number]? = some ⟨w, stage⟩)
    (hslots : stage.slot? = none → (h.lookWeak now number).1.replica.slots = h.replica.slots) :
    orderings (log ++ [⟨h, .look now (.weak number)⟩]) = orderings log := by
  have hordering : (⟨h, .look now (.weak number)⟩ : Moment).ordering? = none := by
    rw [ordering?_look now hown]
    refine if_neg fun ⟨hstage, hslot⟩ => ?_
    rw [Replica.slot?, hslots hstage] at hslot
    exact Nat.lt_irrefl _ (ho.slots_below _ _ hslot)
  simp [orderings, hordering]

theorem lookWeak (ho : Ordered cares id config log h) (now number : Nat) :
    Ordered cares id config (log ++ [⟨h, .look now (.weak number)⟩]) (h.lookWeak now number).1 := by
  have hcommands : commands (log ++ [⟨h, .look now (.weak number)⟩]) = commands log := by
    simp [commands, handled, Moment.message?]
  cases hown : h.weak[number]? with
  | none =>
      have horder : orderings (log ++ [⟨h, .look now (.weak number)⟩]) = orderings log := by
        simp [orderings, Moment.ordering?, hown]
      have hlook : h.lookWeak now number = (h, []) := by simp [Host.lookWeak, hown]
      rw [hlook]
      exact ho.idle (ho.toCarries.congr horder rfl rfl) hcommands horder rfl rfl
  | some task =>
      obtain ⟨w, stage⟩ := task
      have hordering := ordering?_look now hown
      have hidle := ho.orderings_look now hown
      have hlook := weakLook_lookWeak (Event.Names (carried cares
        (orderings log ++ [(w, h.replica.nextSlot)])) config.ballot) (fun _ => True) h now number (by
          intro w' stage' hown' _ _
          obtain ⟨rfl, -⟩ := WeakTask.mk.inj (Option.some.inj (hown.symm.trans hown'))
          exact ⟨w, by simp, rfl⟩) fun _ => trivial
      generalize h.lookWeak now number = result at hlook hordering hidle ⊢
      obtain ⟨h', signals⟩ := result
      have hothers : ∀ other, other ≠ number → h'.weak[other]? = h.weak[other]? :=
        fun _ => hlook.others
      cases hlook with
      | idle hown' => simp [hown] at hown'
      | @waits w' stage' deadline weakDeps _ hown' hstage hsent =>
          obtain ⟨rfl, rfl⟩ := WeakTask.mk.inj (Option.some.inj (hown.symm.trans hown'))
          have horder := hidle fun _ => rfl
          refine ho.attend_idle (ho.toCarries.congr horder rfl rfl) horder hcommands rfl hown
            hothers ?_ ?_
          · intro task htask
            obtain rfl : _ = task := by simpa using htask
            exact ⟨rfl, fun slot hslot => by simp [Stage.slot?] at hslot⟩
          · intro slot task hslot
            rw [hstage] at hslot
            simp at hslot
      | @refused w' stage' weakDeps _ hown' hstage hslots hsent =>
          obtain ⟨rfl, rfl⟩ := WeakTask.mk.inj (Option.some.inj (hown.symm.trans hown'))
          have horder := hidle fun _ => hslots
          have hassigned := ho.toCarries.note (noted_assigned h.replica w)
            (by rw [nextSlot_assigned]; exact Nat.le_succ _)
            (ho.slots_below.assign false)
          refine ho.attend_idle (hassigned.congr horder rfl rfl) horder hcommands rfl hown hothers
            ?_ ?_
          · intro task htask
            simp at htask
          · intro slot task hslot
            rw [hstage] at hslot
            simp at hslot
      | @orders w' stage' weakDeps woken signals signals' h₁ _ hown' hstage hready hslots hsent hs
          htends =>
          obtain ⟨rfl, rfl⟩ := WeakTask.mk.inj (Option.some.inj (hown.symm.trans hown'))
          obtain ⟨effects, hchanges⟩ := hs.changes
          have hslot : h'.replica.slot? w.id = some h.replica.nextSlot := by
            rw [Replica.slot?, htends.replica_eq, hchanges.numbering.2]
            simp [hslots]
          rw [if_pos ⟨hstage, hslot⟩] at hordering
          have horder : orderings (log ++ [⟨h, .look now (.weak number)⟩]) =
              orderings log ++ [(w, h.replica.nextSlot)] := by
            simp [orderings, hordering]
          have hcarries : Carries cares id config (log ++ [⟨h, .look now (.weak number)⟩])
              { h with replica := assigned h.replica w, weakDeps } :=
            (ho.toCarries.order hordering).congr rfl rfl rfl
          rw [← horder] at hs
          refine ho.attend ((hcarries.moves hs).congr rfl htends.replica_eq htends.mailboxes_eq)
            hcommands (htends.spawned_eq.trans hs.weak_eq.2) hown hothers ?_ ?_ ?_ ?_
          · rw [horder]
            exact fun _ => htends.own.placed (List.mem_append_right _ (List.mem_singleton.2 rfl))
          · intro slot task hslot
            rw [hstage] at hslot
            simp at hslot
          · rw [horder]
            exact List.subset_append_left _ _
          · intro w' slot hmem
            rw [horder] at hmem
            rcases List.mem_append.1 hmem with hmem | hmem
            · exact .inl hmem
            · obtain ⟨rfl, rfl⟩ := Prod.mk.inj (List.mem_singleton.1 hmem)
              exact .inr ⟨rfl, fun task htask => (htends.own.own htask).2⟩
      | @tends w' stage' slot _ _ hown' hstage htends =>
          obtain ⟨rfl, rfl⟩ := WeakTask.mk.inj (Option.some.inj (hown.symm.trans hown'))
          have horder := hidle fun hnone => by simp [hstage] at hnone
          refine ho.attend_idle (ho.toCarries.congr horder htends.replica_eq htends.mailboxes_eq)
            horder hcommands htends.spawned_eq hown hothers ?_ ?_
          · exact fun _ => htends.own.placed (ho.placed hown hstage)
          · intro slot' task hslot' htask
            rw [← hslot', hstage]
            exact (htends.own.own htask).2

theorem look (ho : Ordered cares id config log h) (now : Nat) (task : Task) :
    Ordered cares id config (log ++ [⟨h, .look now task⟩]) (h.look now task).1 := by
  have hcommands : commands (log ++ [⟨h, .look now task⟩]) = commands log := by
    simp [commands, handled, Moment.message?]
  cases task with
  | slot slot =>
      have horder : orderings (log ++ [⟨h, .look now (.slot slot)⟩]) = orderings log := by
        simp [orderings, Moment.ordering?]
      have hs : Moves _ (fun _ => True) h _ _ := moves_lookSlot ho.holds slot
      obtain ⟨hweak, hspawned⟩ := hs.weak_eq
      exact ho.idle ((ho.toCarries.moves hs).congr horder rfl rfl) hcommands horder hweak hspawned
  | weak number => exact ho.lookWeak now number
  | flush =>
      have horder : orderings (log ++ [⟨h, .look now .flush⟩]) = orderings log := by
        simp [orderings, Moment.ordering?]
      have hflush : ∃ batcher, (h.lookFlush now).1 = { h with batcher } := by
        unfold lookFlush
        split <;> exact ⟨_, rfl⟩
      obtain ⟨batcher, hflush⟩ := hflush
      rw [Host.look, hflush]
      exact ho.idle (ho.toCarries.congr horder rfl rfl) hcommands horder rfl rfl

end Ordered

/-- A configuration in which a replica runs has no wait of no length. -/
theorem wait_pos_of_validateReplica (h : config.validateReplica id = .ok ()) (wait : WaitKind) :
    0 < config.wait wait := by
  have hvalid : [WaitKind.commit, .execute, .causal].find?
      (fun wait => decide (config.wait wait = 0)) = none := by
    simp only [Config.validateReplica, Config.validate] at h
    split at h
    · simp at h
    · rename_i hvalidate
      split at hvalidate
      · simp at hvalidate
      · split at hvalidate
        · simp at hvalidate
        · split at hvalidate
          · simp at hvalidate
          · assumption
  have hwait := List.find?_eq_none.1 hvalid wait (by cases wait <;> simp)
  simp only [decide_eq_true_eq] at hwait
  exact Nat.pos_of_ne_zero hwait

/-- A host that is put under way is valid and has done nothing yet. -/
theorem start_eq {signals : List Signal} (hstart : Host.start id config = .ok (h, signals)) :
    config.validateReplica id = .ok () ∧ h = {
      replica := .initial id config
      mailboxes := ∅
      weak := ∅
      spawned := 0
      commits := .empty
      executions := .empty
      weakDeps := .empty
      batcher := h.batcher } := by
  unfold Host.start at hstart
  split at hstart
  · simp at hstart
  · rename_i hvalid
    obtain ⟨rfl, -⟩ := Prod.mk.inj (Except.ok.inj hstart)
    exact ⟨hvalid, rfl⟩

/-- What a running host was put under way as. -/
theorem Running.exists_of_start {r : Run Running Task} (hstart : Running.start id config = .ok r) :
    ∃ host signals, Host.start id config = .ok (host, signals) ∧
      r = Run.put ⟨{}, { host }⟩ ({ host }, requests signals) := by
  unfold Running.start at hstart
  split at hstart
  · simp at hstart
  · rename_i host signals hhost
    exact ⟨host, signals, hhost, (Except.ok.inj hstart).symm⟩

/-- No wait of a host that runs is of no length. -/
theorem Running.Journal.wait_pos {r : Run Running Task} (hj : Running.Journal id config r log)
    (wait : WaitKind) : 0 < config.wait wait := by
  induction hj with
  | start hstart =>
      obtain ⟨host, signals, hhost, -⟩ := Running.exists_of_start hstart
      exact wait_pos_of_validateReplica (start_eq hhost).1 wait
  | handle hj m ih => exact ih
  | look hj hready ih => exact ih
  | pass hj hle ih => exact ih
  | take hj ih => exact ih

theorem ordered_start {signals : List Signal} (hstart : Host.start id config = .ok (h, signals)) :
    Ordered cares id config [] h := by
  obtain ⟨-, heq⟩ := start_eq hstart
  rw [heq]
  exact {
    id_eq := rfl
    config_eq := rfl
    increasing := List.Pairwise.nil
    below := by simp [orderings]
    slots_below := by simp [Replica.SlotsBelow, Replica.initial]
    holds := by simp [Holds]
    named := Replica.named_initial id config
    spawned_eq := rfl
    numbered := by simp
    placed := by simp
    started := by simp [orderings] }

/-- Where all messages are honest, the host goes by its journal at any time. -/
theorem Running.Journal.ordered {r : Run Running Task} (hj : Running.Journal id config r log)
    (hleader : config.isLeader id = true)
    (honest : ∀ m ∈ handled log, Honest cares config.ballot m) :
    Ordered cares id config log r.state.host := by
  induction hj with
  | start hstart =>
      obtain ⟨host, signals, hhost, rfl⟩ := Running.exists_of_start hstart
      exact ordered_start hhost
  | @handle r log hj m ih =>
      have ho := ih fun m hm => honest m (handled_subset _ _ hm)
      exact ho.handle hleader (honest m (by simp [handled, Moment.message?]))
  | @look r log hj task ready hready ih =>
      have ho := ih fun m hm => honest m (handled_subset _ _ hm)
      exact ho.look _ _
  | pass hj hle ih => exact ih honest
  | take hj ih => exact ih honest

end Host

end WitnessReplication
