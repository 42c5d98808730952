import WitnessReplication.Proofs.Host.Journal
import WitnessReplication.Proofs.Registry.Looking

/-!
# Looks of the tasks of weak commands

One look of the task of a weak command either waits for what the command depends on, or puts the
command in order, or tends the slot that the command has: it waits for the slot to commit or to
execute, gives up, or answers the client and ends. `Tends` says what tending a slot may do, and
`lookWeak_cases` is the case distinction.
-/

namespace WitnessReplication

namespace Host

open Replica (Effect Event WeakCommand)

/-- The slot that a task waits for. -/
def Stage.slot? : Stage → Option Slot
  | .begin => none
  | .dependency _ => none
  | .commit slot _ => some slot
  | .execute slot _ => some slot

/-- The answer to a weak command, as a message. -/
def answerTo (id : ReplicaId) (w : WeakCommand) (value : Value) : Sent :=
  .toClient w.id.client
    (if w.causal then .causalReply ⟨id, w.id, value⟩ else .weakReply ⟨id, w.id, value⟩)

/-- The answer to a weak command once its slot has executed: the remembered result, if there is one
and the variant answers after execution. -/
def answers (r : Replica) (w : WeakCommand) : List Sent :=
  if r.config.variant.repliesAfterExecute then (r.values[w.id]?).toList.map (answerTo r.id w) else []

/-- What comes of the task itself when it tends its slot: it waits for the slot to commit, or to
execute, or it has ended, and then it gave up, which takes that it was `due`, or it has answered. -/
inductive Tending (number : Nat) (w : WeakCommand) (slot : Slot) (due : Prop) (h' : Host) :
    List Sent → Prop
  | commits {deadline : Nat} (hown : h'.weak[number]? = some ⟨w, .commit slot deadline⟩)
      (hsub : Task.weak number ∈ h'.commits.subscribers slot) : Tending number w slot due h' []
  | executes {deadline : Nat} (hown : h'.weak[number]? = some ⟨w, .execute slot deadline⟩)
      (hsub : Task.weak number ∈ h'.executions.subscribers slot) : Tending number w slot due h' []
  | gaveUp (hown : h'.weak[number]? = none) (hexec : h'.replica.isExecuted slot = false)
      (hdue : due) : Tending number w slot due h' []
  | answered (hown : h'.weak[number]? = none) (hexec : h'.replica.isExecuted slot = true) :
      Tending number w slot due h' (answers h'.replica w)

/-- What a host does when the task of a weak command tends the command's slot. Subscribers whose
channel is closed are woken, and nobody subscribes to a goal that holds. -/
structure Tends (number : Nat) (w : WeakCommand) (slot : Slot) (due : Prop) (h h' : Host)
    (signals : List Signal) : Prop where
  replica_eq : h'.replica = h.replica
  mailboxes_eq : h'.mailboxes = h.mailboxes
  spawned_eq : h'.spawned = h.spawned
  others : ∀ other, other ≠ number → h'.weak[other]? = h.weak[other]?
  commits_of : ∀ t key, t ∈ h'.commits.subscribers key →
    t ∈ h.commits.subscribers key ∨ h.replica.isCommitted key = false
  commits_kept : ∀ t key, t ∈ h.commits.subscribers key →
    t ∈ h'.commits.subscribers key ∨ .request (.wake t) ∈ signals ∨ t = .weak number
  executions_of : ∀ t key, t ∈ h'.executions.subscribers key →
    t ∈ h.executions.subscribers key ∨ h.replica.isExecuted key = false
  executions_kept : ∀ t key, t ∈ h.executions.subscribers key →
    t ∈ h'.executions.subscribers key ∨ .request (.wake t) ∈ signals ∨ t = .weak number
  own : Tending number w slot due h' (Running.messages signals)

theorem Tending.mono {number : Nat} {w : WeakCommand} {slot : Slot} {due due' : Prop} {h' : Host}
    {sent : List Sent} (ht : Tending number w slot due h' sent) (hdue : due → due') :
    Tending number w slot due' h' sent := by
  cases ht with
  | commits hown hsub => exact .commits hown hsub
  | executes hown hsub => exact .executes hown hsub
  | gaveUp hown hexec h => exact .gaveUp hown hexec (hdue h)
  | answered hown hexec => exact .answered hown hexec

/-- A task that tends a slot goes on tending it, or ends. -/
theorem Tending.own {number : Nat} {w : WeakCommand} {slot : Slot} {due : Prop} {h' : Host}
    {sent : List Sent} (ht : Tending number w slot due h' sent) {task : WeakTask}
    (htask : h'.weak[number]? = some task) :
    task.command = w ∧ task.stage.slot? = some slot := by
  cases ht with
  | commits hown hsub =>
      obtain rfl := Option.some.inj (hown.symm.trans htask)
      exact ⟨rfl, rfl⟩
  | executes hown hsub =>
      obtain rfl := Option.some.inj (hown.symm.trans htask)
      exact ⟨rfl, rfl⟩
  | gaveUp hown hexec hdue => simp [hown] at htask
  | answered hown hexec => simp [hown] at htask

variable {h : Host} {now number deadline : Nat} {w : WeakCommand} {slot : Slot}

@[simp] theorem messages_append (signals signals' : List Signal) :
    Running.messages (signals ++ signals') =
      Running.messages signals ++ Running.messages signals' := List.filterMap_append ..

@[simp] theorem messages_wakeAll (tasks : List Task) : Running.messages (wakeAll tasks) = [] := by
  simp [Running.messages, wakeAll]

@[simp] theorem messages_alarmIf (fresh : Bool) (number deadline : Nat) :
    Running.messages (alarmIf fresh number deadline) = [] := by
  unfold alarmIf
  split <;> rfl

theorem mem_wakeAll {tasks : List Task} {t : Task} :
    Signal.request (.wake t) ∈ wakeAll tasks ↔ t ∈ tasks := by
  simp [wakeAll]

theorem mem_request_append {t : Task} {signals signals' : List Signal}
    (hmem : Signal.request (.wake t) ∈ signals) :
    Signal.request (.wake t) ∈ signals ++ signals' := List.mem_append_left _ hmem

/-- A task that is notified of the execution of its slot answers and ends. -/
theorem awaitExecution_notified
    (hended : (h.executions.look (.weak number) slot deadline now
      (h.replica.isExecuted slot)).outcome = some .notified) :
    h.awaitExecution now number w slot deadline =
      ({ h with
          executions := (h.executions.look (.weak number) slot deadline now
            (h.replica.isExecuted slot)).registry
          weak := h.weak.erase number },
        wakeAll (h.executions.look (.weak number) slot deadline now
          (h.replica.isExecuted slot)).reached ++ (answers h.replica w).map .send ++
            [.request (.calm (.weak number))]) := by
  simp only [awaitExecution, hended]
  cases hvalue : h.replica.values[w.id]? with
  | none => simp [answers, hvalue, endWeak]
  | some value =>
      cases hvariant : h.replica.config.variant.repliesAfterExecute with
      | false => simp [answers, hvariant, endWeak]
      | true => simp [answers, hvalue, hvariant, emit, Replica.weakReply, answerTo, endWeak]

/-- A task gives up at the deadline if its slot has not executed. -/
theorem weak_awaitExecution_due (hdue : deadline ≤ now)
    (hexec : h.replica.isExecuted slot = false) :
    (h.awaitExecution now number w slot deadline).1.weak[number]? = none := by
  have hended : (h.executions.look (.weak number) slot deadline now
      (h.replica.isExecuted slot)).outcome = some .timedOut := by
    rw [hexec]
    exact Registry.look_due hdue
  simp [awaitExecution, hended, endWeak]

/-- Whoever waits once a task has looked waited before, or waits for what has not come so far. -/
theorem of_mem_look {r : Registry Slot Task} {goal : Slot → Bool} {t : Task} {key : Slot}
    (hmem : t ∈ (r.look (.weak number) slot deadline now (goal slot)).registry.subscribers key) :
    t ∈ r.subscribers key ∨ goal key = false := by
  refine (Registry.of_mem_subscribers_look hmem).imp_right ?_
  rintro ⟨-, rfl, hgoal⟩
  exact hgoal

/-- Whoever waits goes on waiting when a task looks, or is woken, or is that task. -/
theorem mem_look {r : Registry Slot Task} {goal : Bool} {t : Task} {key : Slot}
    (hmem : t ∈ r.subscribers key) (signals : List Signal) :
    t ∈ (r.look (.weak number) slot deadline now goal).registry.subscribers key ∨
      .request (.wake t) ∈
        wakeAll (r.look (.weak number) slot deadline now goal).reached ++ signals ∨
      t = .weak number :=
  (Registry.mem_subscribers_look hmem).imp_right
    (Or.imp (fun hreached => mem_request_append (mem_wakeAll.2 hreached)) And.left)

/-- A look at the executions tends the slot if nothing else changes but the task itself. -/
theorem tends_looked {h : Host} {due : Prop} {weak : Std.ExtTreeMap Nat WeakTask}
    {signals : List Signal} (hothers : ∀ other, other ≠ number → weak[other]? = h.weak[other]?)
    (hown : Tending number w slot due
      { h with
        executions := (h.executions.look (.weak number) slot deadline now
          (h.replica.isExecuted slot)).registry
        weak } (Running.messages signals)) :
    Tends number w slot due h
      { h with
        executions := (h.executions.look (.weak number) slot deadline now
          (h.replica.isExecuted slot)).registry
        weak }
      (wakeAll (h.executions.look (.weak number) slot deadline now
        (h.replica.isExecuted slot)).reached ++ signals) where
  replica_eq := rfl
  mailboxes_eq := rfl
  spawned_eq := rfl
  others := hothers
  commits_of _ _ hmem := .inl hmem
  commits_kept _ _ hmem := .inl hmem
  executions_of _ _ hmem := of_mem_look hmem
  executions_kept _ _ hmem := mem_look hmem signals
  own := by
    rw [messages_append, messages_wakeAll, List.nil_append]
    exact hown

/-- Waiting for the slot to execute tends it. -/
theorem tends_awaitExecution (h : Host) (now number : Nat) (w : WeakCommand) (slot : Slot)
    (deadline : Nat) :
    Tends number w slot (deadline ≤ now) h (h.awaitExecution now number w slot deadline).1
      (h.awaitExecution now number w slot deadline).2 := by
  have hset : ∀ task other, other ≠ number →
      (h.weak.insert number task)[other]? = h.weak[other]? := fun task other hne => by
    simp [Std.ExtTreeMap.getElem?_insert, hne.symm]
  have herase : ∀ other, other ≠ number → (h.weak.erase number)[other]? = h.weak[other]? :=
    fun other hne => by simp [Std.ExtTreeMap.getElem?_erase, hne.symm]
  cases hended : (h.executions.look (.weak number) slot deadline now
    (h.replica.isExecuted slot)).outcome with
  | none =>
      obtain ⟨hsub, -⟩ := Registry.look_waiting hended
      simp only [awaitExecution, hended]
      refine tends_looked (hset _) ?_
      rw [messages_alarmIf]
      exact .executes Std.ExtTreeMap.getElem?_insert_self hsub
  | some outcome =>
      cases outcome with
      | timedOut =>
          obtain ⟨hgoal, hdue⟩ := Registry.look_timedOut hended
          simp only [awaitExecution, hended]
          exact tends_looked herase (.gaveUp Std.ExtTreeMap.getElem?_erase_self hgoal hdue)
      | notified =>
          have hgoal := Registry.look_notified hended
          rw [awaitExecution_notified hended, List.append_assoc]
          refine tends_looked herase ?_
          have hsent : Running.messages ((answers h.replica w).map .send ++
              [.request (.calm (.weak number))]) = answers h.replica w := by
            simp [Running.messages]
          rw [hsent]
          exact .answered Std.ExtTreeMap.getElem?_erase_self hgoal

/-- Waiting for the slot to commit, and then to execute, tends it. -/
theorem tends_awaitCommit (h : Host) (now number : Nat) (w : WeakCommand) (slot : Slot)
    (deadline : Nat) :
    Tends number w slot (h.replica.config.executeWait = 0) h
      (h.awaitCommit now number w slot deadline).1
      (h.awaitCommit now number w slot deadline).2 := by
  cases hended : (h.commits.look (.weak number) slot deadline now
    (h.replica.isCommitted slot)).outcome with
  | none =>
      obtain ⟨hsub, -⟩ := Registry.look_waiting hended
      simp only [awaitCommit, hended]
      constructor
      case replica_eq => rfl
      case mailboxes_eq => rfl
      case spawned_eq => rfl
      case others =>
        intro other hne
        simp [setStage, Std.ExtTreeMap.getElem?_insert, hne.symm]
      case commits_of => exact fun t key hmem => of_mem_look hmem
      case commits_kept => exact fun t key hmem => mem_look hmem _
      case executions_of => exact fun t key hmem => .inl hmem
      case executions_kept => exact fun t key hmem => .inl hmem
      case own =>
        simp only [messages_append, messages_wakeAll, messages_alarmIf, List.append_nil]
        exact .commits Std.ExtTreeMap.getElem?_insert_self hsub
  | some outcome =>
      simp only [awaitCommit, hended]
      have hnext := tends_awaitExecution { h with commits := (h.commits.look (.weak number) slot
        deadline now (h.replica.isCommitted slot)).registry } now number w slot
        (now + h.replica.config.executeWait)
      constructor
      case replica_eq => exact hnext.replica_eq
      case mailboxes_eq => exact hnext.mailboxes_eq
      case spawned_eq => exact hnext.spawned_eq
      case others => exact hnext.others
      case commits_of =>
        intro t key hmem
        rcases hnext.commits_of t key hmem with hmem | hgoal
        · exact of_mem_look hmem
        · exact .inr hgoal
      case commits_kept =>
        intro t key hmem
        rcases mem_look hmem _ with hmem | hwoken
        · exact (hnext.commits_kept t key hmem).imp_right
            (Or.imp_left (List.mem_append_right _))
        · exact .inr hwoken
      case executions_of => exact hnext.executions_of
      case executions_kept =>
        exact fun t key hmem => (hnext.executions_kept t key hmem).imp_right
          (Or.imp_left (List.mem_append_right _))
      case own =>
        rw [messages_append, messages_wakeAll, List.nil_append]
        refine hnext.own.mono fun hdue => ?_
        omega

/-! ### Putting a command in order -/

/-- The proposal of a weak command at its slot; a host's slots leave the answer to the task. -/
def proposalOf (w : WeakCommand) : Event :=
  .propose ⟨w.id, w.command, true, false, false, w.causal⟩

/-- A replica that has put a weak command in order. -/
def assigned (r : Replica) (w : WeakCommand) : Replica := (r.assign w.id w.command false).1

theorem nextSlot_assigned (r : Replica) (w : WeakCommand) :
    (assigned r w).nextSlot = r.nextSlot + 1 := by
  simp only [assigned, Replica.assign]
  split <;> rfl

/-- Putting a weak command in order is among what a replica notes. -/
theorem noted_assigned (r : Replica) (w : WeakCommand) : r.Noted none (assigned r w) :=
  Replica.Noted.assign r w.id w.command false

/-- Putting a weak command in order changes no result and executes nothing. -/
theorem settled_assigned (r : Replica) (w : WeakCommand) :
    (assigned r w).values = r.values ∧ (assigned r w).executed = r.executed := by
  simp only [assigned, Replica.assign]
  split <;> exact ⟨rfl, rfl⟩

/-- A look of the task of a weak command, with the host and the signals that come of it. -/
inductive WeakLook (fits : Slot → Event → Prop) (spoken : Effect → Prop) (now number : Nat)
    (h : Host) :
    Host → List Signal → Prop
  /-- There is no such task. -/
  | idle (hown : h.weak[number]? = none) : WeakLook fits spoken now number h h []
  /-- The task waits for what its command depends on. -/
  | waits {w : WeakCommand} {stage : Stage} {deadline : Nat} {weakDeps : Registry ClientId Task}
      {signals : List Signal} (hown : h.weak[number]? = some ⟨w, stage⟩)
      (hstage : stage.slot? = none) (hsent : Running.messages signals = []) :
      WeakLook fits spoken now number h
        { h with
          weakDeps
          weak := h.weak.insert number ⟨w, .dependency deadline⟩ } signals
  /-- The command is refused a slot, and the task ends. -/
  | refused {w : WeakCommand} {stage : Stage} {weakDeps : Registry ClientId Task}
      {signals : List Signal} (hown : h.weak[number]? = some ⟨w, stage⟩)
      (hstage : stage.slot? = none) (hslots : (assigned h.replica w).slots = h.replica.slots)
      (hsent : Running.messages signals = []) :
      WeakLook fits spoken now number h
        { h with
          replica := assigned h.replica w
          weakDeps
          weak := h.weak.erase number } signals
  /-- The command gets the next slot, which the task tends from then on. -/
  | orders {w : WeakCommand} {stage : Stage} {weakDeps : Registry ClientId Task}
      {woken signals signals' : List Signal} {h₁ h₂ : Host}
      (hown : h.weak[number]? = some ⟨w, stage⟩) (hstage : stage.slot? = none)
      (hready : h.dependencyMet w = true ∨ h.replica.config.causalWait = 0 ∨
        ∃ deadline, stage = .dependency deadline ∧ deadline ≤ now ∧ h.dependencyMet w = false)
      (hslots : (assigned h.replica w).slots = h.replica.slots.insert w.id h.replica.nextSlot)
      (hsent : Running.messages woken = [])
      (hmoves : Moves fits spoken { h with replica := assigned h.replica w, weakDeps } signals h₁)
      (htends : Tends number w h.replica.nextSlot (h.replica.config.executeWait = 0) h₁ h₂
        signals') :
      WeakLook fits spoken now number h h₂ (woken ++ (signals ++ signals'))
  /-- The task tends the slot of its command. -/
  | tends {w : WeakCommand} {stage : Stage} {slot : Slot} {signals : List Signal} {h' : Host}
      (hown : h.weak[number]? = some ⟨w, stage⟩) (hstage : stage.slot? = some slot)
      (htends : Tends number w slot (h.replica.config.executeWait = 0 ∨
        ∃ deadline, stage = .execute slot deadline ∧ deadline ≤ now) h h' signals) :
      WeakLook fits spoken now number h h' signals

namespace WeakLook

variable {fits fits' : Slot → Event → Prop} {spoken : Effect → Prop} {h' : Host}
variable {signals : List Signal}

theorem mono (hlook : WeakLook fits spoken now number h h' signals)
    (hfits : ∀ slot event, fits slot event → fits' slot event) :
    WeakLook fits' spoken now number h h' signals := by
  cases hlook with
  | idle hown => exact .idle hown
  | waits hown hstage hsent => exact .waits hown hstage hsent
  | refused hown hstage hslots hsent => exact .refused hown hstage hslots hsent
  | orders hown hstage hready hslots hsent hmoves htends =>
      exact .orders hown hstage hready hslots hsent (hmoves.mono hfits) htends
  | tends hown hstage htends => exact .tends hown hstage htends

/-- A look leaves the other tasks as they are. -/
theorem others (hlook : WeakLook fits spoken now number h h' signals) {other : Nat}
    (hother : other ≠ number) : h'.weak[other]? = h.weak[other]? := by
  cases hlook with
  | idle hown => rfl
  | waits hown hstage hsent => simp [Std.ExtTreeMap.getElem?_insert, hother.symm]
  | refused hown hstage hslots hsent => simp [Std.ExtTreeMap.getElem?_erase, hother.symm]
  | orders hown hstage hready hslots hsent hmoves htends =>
      rw [htends.others other hother, hmoves.weak_eq.1]
  | tends hown hstage htends => exact htends.others other hother

/-- A task keeps its command as long as it is there. -/
theorem own (hlook : WeakLook fits spoken now number h h' signals) {stage : Stage}
    {task : WeakTask} (hown : h.weak[number]? = some ⟨w, stage⟩)
    (htask : h'.weak[number]? = some task) : task.command = w := by
  have hsame : ∀ {w' : WeakCommand} {stage' : Stage},
      h.weak[number]? = some ⟨w', stage'⟩ → w' = w := fun hown' =>
    congrArg WeakTask.command (Option.some.inj (hown'.symm.trans hown))
  cases hlook with
  | idle hown' => simp [hown] at hown'
  | waits hown' hstage hsent =>
      obtain rfl : _ = task := by simpa using htask
      exact hsame hown'
  | refused hown' hstage hslots hsent => simp at htask
  | orders hown' hstage hready hslots hsent hmoves htends =>
      exact (htends.own.own htask).1.trans (hsame hown')
  | tends hown' hstage htends => exact (htends.own.own htask).1.trans (hsame hown')

end WeakLook

theorem Tends.mono {due due' : Prop} {h' : Host} {signals : List Signal}
    (ht : Tends number w slot due h h' signals) (hdue : due → due') :
    Tends number w slot due' h h' signals :=
  { ht with own := ht.own.mono hdue }

variable {fits : Slot → Event → Prop} {spoken : Effect → Prop}

/-- Putting a command in order, once what it depends on has executed or the wait is over. -/
theorem weakLook_orderNow {stage : Stage} (hown : h.weak[number]? = some ⟨w, stage⟩)
    (hstage : stage.slot? = none) (hfit : fits h.replica.nextSlot (proposalOf w))
    (hspoken : ∀ a, spoken (.accept a))
    (hready : h.dependencyMet w = true ∨ h.replica.config.causalWait = 0 ∨
      ∃ deadline, stage = .dependency deadline ∧ deadline ≤ now ∧ h.dependencyMet w = false)
    (weakDeps : Registry ClientId Task) {woken : List Signal}
    (hsent : Running.messages woken = []) :
    WeakLook fits spoken now number h ({ h with weakDeps }.orderNow now number w).1
      (woken ++ ({ h with weakDeps }.orderNow now number w).2) := by
  cases hassign : h.replica.assign w.id w.command false with
  | mk r outcome =>
      have hr : assigned h.replica w = r := congrArg Prod.fst hassign
      cases outcome with
      | error e =>
          have hslots : (assigned h.replica w).slots = h.replica.slots := by
            rw [hr]
            simp only [Replica.assign] at hassign
            split at hassign
            · rw [← (Prod.mk.inj hassign).1]
            · simp at hassign
          simp only [orderNow, Replica.orderWeak, hassign]
          refine hr ▸ .refused hown hstage hslots ?_
          rw [messages_append, hsent]
          rfl
      | ok given =>
          obtain ⟨hslot, hslots⟩ : given.1 = h.replica.nextSlot ∧
              (assigned h.replica w).slots = h.replica.slots.insert w.id h.replica.nextSlot := by
            rw [hr]
            simp only [Replica.assign] at hassign
            split at hassign
            · simp at hassign
            · obtain ⟨rfl, heq⟩ := Prod.mk.inj hassign
              exact ⟨(congrArg Prod.fst (Except.ok.inj heq)).symm, rfl⟩
          have hconfig : r.config = h.replica.config := hr ▸ (noted_assigned h.replica w).config_eq
          simp only [orderNow, Replica.orderWeak, hassign]
          rw [hslot]
          have hsuits : ∀ step ∈ [.route h.replica.nextSlot (proposalOf w),
              .emit (.accept (r.acceptFor h.replica.nextSlot w.id w.command true))],
              Suits fits spoken step := by simp [Suits, hfit, hspoken]
          have hmoves : Moves fits spoken { h with replica := r, weakDeps } _ _ :=
            moves_performAll hsuits
          refine .orders hown hstage hready hslots hsent (by rw [hr]; exact hmoves)
            ((tends_awaitCommit _ now number w h.replica.nextSlot _).mono fun hwait => ?_)
          have hexecute := congrArg Config.executeWait (hmoves.config_eq.trans hconfig)
          exact hexecute.symm.trans hwait

/-- One look of the task of a weak command. -/
theorem weakLook_awaitDependency {stage : Stage} (hown : h.weak[number]? = some ⟨w, stage⟩)
    (hstage : stage.slot? = none) (hfit : fits h.replica.nextSlot (proposalOf w))
    (hspoken : ∀ a, spoken (.accept a))
    (hdue : deadline ≤ now → h.replica.config.causalWait = 0 ∨ stage = .dependency deadline) :
    WeakLook fits spoken now number h (h.awaitDependency now number w deadline).1
      (h.awaitDependency now number w deadline).2 := by
  cases hended : (h.weakDeps.look (.weak number) w.id.client deadline now
    (h.dependencyMet w)).outcome with
  | none =>
      simp only [awaitDependency, hended]
      exact .waits hown hstage (by simp)
  | some outcome =>
      simp only [awaitDependency, hended]
      refine weakLook_orderNow hown hstage hfit hspoken ?_ _ (messages_wakeAll _)
      cases outcome with
      | notified => exact .inl (Registry.look_notified hended)
      | timedOut =>
          obtain ⟨hgoal, hpassed⟩ := Registry.look_timedOut hended
          exact .inr ((hdue hpassed).imp_right fun hstage => ⟨deadline, hstage, hpassed, hgoal⟩)

theorem weakLook_lookWeak (fits : Slot → Event → Prop) (spoken : Effect → Prop) (h : Host)
    (now number : Nat)
    (hfit : ∀ w stage, h.weak[number]? = some ⟨w, stage⟩ → stage.slot? = none →
      fits h.replica.nextSlot (proposalOf w)) (hspoken : ∀ a, spoken (.accept a)) :
    WeakLook fits spoken now number h (h.lookWeak now number).1 (h.lookWeak now number).2 := by
  unfold lookWeak
  cases hown : h.weak[number]? with
  | none => exact .idle hown
  | some task =>
      obtain ⟨w, stage⟩ := task
      cases stage with
      | begin =>
          have hfit := hfit w _ hown rfl
          dsimp only
          split
          · rename_i hfirst
            have hmet : h.dependencyMet w = true := by
              rw [dependencyMet, Option.isNone_iff_eq_none.1 hfirst]
            exact weakLook_orderNow hown rfl hfit hspoken (.inl hmet) h.weakDeps
              (rfl : Running.messages [] = [])
          · refine weakLook_awaitDependency hown rfl hfit hspoken fun hpassed => .inl ?_
            omega
      | dependency deadline =>
          exact weakLook_awaitDependency hown rfl (hfit w _ hown rfl) hspoken fun _ => .inr rfl
      | commit slot deadline =>
          exact .tends hown rfl ((tends_awaitCommit h now number w slot deadline).mono .inl)
      | execute slot deadline =>
          refine .tends hown rfl ((tends_awaitExecution h now number w slot deadline).mono ?_)
          exact fun hpassed => .inr ⟨deadline, rfl, hpassed⟩

end Host

end WitnessReplication
