import WitnessReplication.Proofs.Host.Answering

/-!
# Answers to weak commands

Where only the leader takes weak commands, the task of a weak command answers it once its slot has
executed, with the result, and only once. A task whose wait for the execution times out gives up,
and then the command is never answered, even if it executes later (`Host.weak_answered`).

The proof follows one weak command through a journal: each moment plays one of five parts for it
(`Part`), and what has become of the command so far is its `Fate`.
-/

namespace WitnessReplication.Host

open Replica (Effect Event WeakCommand)

/-- The answers to a weak command that are sent at a moment. -/
def Moment.answers (x : Moment) (id : CommandId) : List Sent :=
  (Running.messages x.outcome.2).filter fun m => answered? m = some id

/-- All answers to a weak command. -/
def answersIn (log : List Moment) (id : CommandId) : List Sent :=
  log.flatMap fun x => x.answers id

/-- The task of a weak command gives up: the deadline of its wait for the execution of its slot has
come, and the slot has not executed. -/
def Moment.givesUp (x : Moment) (id : CommandId) : Bool :=
  match x.act with
  | .look now (.weak number) =>
    match x.host.weak[number]? with
    | some ⟨w, .execute slot deadline⟩ =>
      decide (w.id = id) && decide (deadline ≤ now) && !x.host.replica.isExecuted slot
    | _ => false
  | _ => false

/-- The task of a weak command has given up. -/
def gaveUp (log : List Moment) (id : CommandId) : Bool := log.any fun x => x.givesUp id

/-- All that matters is one command. -/
def only (id : CommandId) : CommandId → Bool → Prop := fun other _ => other = id

/-- Of some weak commands, each of its own name, none but `w` has the name of `w`. -/
structure Sole (w : WeakCommand) (ws : List WeakCommand) : Prop where
  nodup : (ws.map WeakCommand.id).Nodup
  same : ∀ w' ∈ ws, w'.id = w.id → w' = w

/-- The part that a moment plays for a weak command: it is about something else, or the command
arrives, or the command's task looks, and goes on, gives up or answers. -/
inductive Part (id : ReplicaId) (w : WeakCommand) (log : List Moment) (x : Moment) : Prop
  | apart (hcommands : w ∈ commands (log ++ [x]) → w ∈ commands log)
      (htasks : ∀ (number : Nat) (stage : Stage), x.outcome.1.weak[number]? = some ⟨w, stage⟩ ↔
        x.host.weak[number]? = some ⟨w, stage⟩)
      (hslots : ∀ slot, (w, slot) ∈ orderings (log ++ [x]) → (w, slot) ∈ orderings log)
      (hkept : (∀ slot, (w, slot) ∈ orderings log → x.host.replica.isExecuted slot = true) →
        x.outcome.1.replica.value? w.id = x.host.replica.value? w.id ∧
          x.host.replica.executed ≤ x.outcome.1.replica.executed)
      (hanswers : x.answers w.id = []) (hgives : x.givesUp w.id = false)
  | arrives {number : Nat} {stage : Stage} (hnew : w ∉ commands log)
      (hown : x.outcome.1.weak[number]? = some ⟨w, stage⟩)
      (hanswers : x.answers w.id = []) (hgives : x.givesUp w.id = false)
  | goesOn {number : Nat} {stage stage' : Stage} (hown : x.host.weak[number]? = some ⟨w, stage⟩)
      (hstill : x.outcome.1.weak[number]? = some ⟨w, stage'⟩)
      (hanswers : x.answers w.id = []) (hgives : x.givesUp w.id = false)
  | givesUp {number : Nat} {stage : Stage} (hown : x.host.weak[number]? = some ⟨w, stage⟩)
      (hnone : ∀ (number : Nat) (stage : Stage), x.outcome.1.weak[number]? ≠ some ⟨w, stage⟩)
      (hanswers : x.answers w.id = []) (hgives : x.givesUp w.id = true)
  | answers {number : Nat} {stage : Stage} (hown : x.host.weak[number]? = some ⟨w, stage⟩)
      (hnone : ∀ (number : Nat) (stage : Stage), x.outcome.1.weak[number]? ≠ some ⟨w, stage⟩)
      (hexec : ∀ slot, (w, slot) ∈ orderings (log ++ [x]) →
        x.outcome.1.replica.isExecuted slot = true)
      (hanswers : x.answers w.id =
        (x.outcome.1.replica.value? w.id).toList.map (answerTo id w))
      (hgives : x.givesUp w.id = false)

/-- What has become of a weak command: it has not arrived, its task is at work, its task has given
up, or its task has answered it if there was a result. -/
inductive Fate (id : ReplicaId) (w : WeakCommand) (log : List Moment) (h : Host) : Prop
  | coming (hnew : w ∉ commands log) (hanswers : answersIn log w.id = [])
      (hgives : gaveUp log w.id = false)
  | busy {number : Nat} {stage : Stage} (hown : h.weak[number]? = some ⟨w, stage⟩)
      (hanswers : answersIn log w.id = []) (hgives : gaveUp log w.id = false)
  | abandoned (hmem : w ∈ commands log)
      (hnone : ∀ (number : Nat) (stage : Stage), h.weak[number]? ≠ some ⟨w, stage⟩)
      (hanswers : answersIn log w.id = []) (hgives : gaveUp log w.id = true)
  | answered (hmem : w ∈ commands log)
      (hnone : ∀ (number : Nat) (stage : Stage), h.weak[number]? ≠ some ⟨w, stage⟩)
      (hexec : ∀ slot, (w, slot) ∈ orderings log → h.replica.isExecuted slot = true)
      (hanswers : answersIn log w.id = (h.replica.value? w.id).toList.map (answerTo id w))
      (hgives : gaveUp log w.id = false)

variable {id : ReplicaId} {config : Config} {log : List Moment} {h h' : Host} {x : Moment}
variable {w w' : WeakCommand} {ws more : List WeakCommand} {slot : Slot} {number : Nat}
variable {stage : Stage} {signals : List Signal} {spoken : Effect → Prop}

@[simp] theorem answersIn_append (log : List Moment) (x : Moment) (id : CommandId) :
    answersIn (log ++ [x]) id = answersIn log id ++ x.answers id := by
  simp [answersIn]

@[simp] theorem gaveUp_append (log : List Moment) (x : Moment) (id : CommandId) :
    gaveUp (log ++ [x]) id = (gaveUp log id || x.givesUp id) := by
  simp [gaveUp]

theorem Sole.before (hsole : Sole w (commands (log ++ [x]))) : Sole w (commands log) := by
  rw [commands_append] at hsole
  have hnodup := hsole.nodup
  rw [List.map_append] at hnodup
  exact ⟨(List.nodup_append.1 hnodup).1, fun w' hw' => hsole.same w' (List.mem_append_left _ hw')⟩

/-! ### One moment -/

/-- What has become of a weak command, one moment later. -/
theorem Fate.step (hf : Fate id w log x.host) (hpart : Part id w log x)
    (hown : ∀ (number : Nat) (stage : Stage), x.host.weak[number]? = some ⟨w, stage⟩ →
      w ∈ commands log) : Fate id w (log ++ [x]) x.outcome.1 := by
  have hkept : w ∈ commands log → w ∈ commands (log ++ [x]) := fun hmem => by
    rw [commands_append]
    exact List.mem_append_left _ hmem
  cases hf with
  | coming hnew hanswers hgives =>
      cases hpart with
      | apart hcommands htasks hslots hkept hanswers' hgives' =>
          exact .coming (fun hmem => hnew (hcommands hmem)) (by simp [hanswers, hanswers'])
            (by simp [hgives, hgives'])
      | arrives hnew hown hanswers' hgives' =>
          exact .busy hown (by simp [hanswers, hanswers']) (by simp [hgives, hgives'])
      | goesOn hown' => exact absurd (hown _ _ hown') hnew
      | givesUp hown' => exact absurd (hown _ _ hown') hnew
      | answers hown' => exact absurd (hown _ _ hown') hnew
  | busy hbusy hanswers hgives =>
      have hmem := hown _ _ hbusy
      cases hpart with
      | apart hcommands htasks hslots hkept hanswers' hgives' =>
          exact .busy ((htasks _ _).2 hbusy) (by simp [hanswers, hanswers'])
            (by simp [hgives, hgives'])
      | arrives hnew => exact absurd hmem hnew
      | goesOn hown' hstill hanswers' hgives' =>
          exact .busy hstill (by simp [hanswers, hanswers']) (by simp [hgives, hgives'])
      | givesUp hown' hnone hanswers' hgives' =>
          exact .abandoned (hkept hmem) hnone (by simp [hanswers, hanswers']) (by simp [hgives'])
      | answers hown' hnone hexec hanswers' hgives' =>
          exact .answered (hkept hmem) hnone hexec (by simp [hanswers, hanswers'])
            (by simp [hgives, hgives'])
  | abandoned hmem hnone hanswers hgives =>
      cases hpart with
      | apart hcommands htasks hslots hkept' hanswers' hgives' =>
          exact .abandoned (hkept hmem) (fun _ _ hown => hnone _ _ ((htasks _ _).1 hown))
            (by simp [hanswers, hanswers']) (by simp [hgives])
      | arrives hnew => exact absurd hmem hnew
      | goesOn hown' => exact absurd hown' (hnone _ _)
      | givesUp hown' => exact absurd hown' (hnone _ _)
      | answers hown' => exact absurd hown' (hnone _ _)
  | answered hmem hnone hexec hanswers hgives =>
      cases hpart with
      | apart hcommands htasks hslots hkept' hanswers' hgives' =>
          obtain ⟨hvalue, hle⟩ := hkept' hexec
          refine .answered (hkept hmem) (fun _ _ hown => hnone _ _ ((htasks _ _).1 hown))
            (fun slot hslot => ?_) (by simp [hanswers, hanswers', hvalue]) (by simp [hgives, hgives'])
          have hlt := hexec slot (hslots slot hslot)
          simp only [Replica.isExecuted, decide_eq_true_eq] at hlt ⊢
          exact Nat.lt_of_lt_of_le hlt hle
      | arrives hnew => exact absurd hmem hnew
      | goesOn hown' => exact absurd hown' (hnone _ _)
      | givesUp hown' => exact absurd hown' (hnone _ _)
      | answers hown' => exact absurd hown' (hnone _ _)

/-! ### The part of each moment -/

theorem Sole.index_unique (hsole : Sole w ws) {i j : Nat} (hi : ws[i]? = some w)
    (hj : ws[j]? = some w) : i = j := by
  have hids : (ws.map WeakCommand.id)[i]? = (ws.map WeakCommand.id)[j]? := by
    simp only [List.getElem?_map, hi, hj]
  refine (List.getElem?_inj ?_ hsole.nodup).1 hids
  rw [List.length_map]
  exact (List.getElem?_eq_some_iff.1 hi).1

/-- A slot that a command was given is the one that its task tends, if there is such a task. -/
theorem Ordered.slot?_eq {cares : CommandId → Bool → Prop} (ho : Ordered cares id config log h)
    (hsole : Sole w (commands log)) (hown : h.weak[number]? = some ⟨w, stage⟩)
    (hmem : (w, slot) ∈ orderings log) : stage.slot? = some slot := by
  obtain ⟨number', hnumber', htasks⟩ := ho.started hmem
  obtain rfl := hsole.index_unique (ho.numbered hown) hnumber'
  exact htasks _ hown

/-- Once all its slots have executed, the result of a command stays as it is. -/
theorem Carries.kept {given : List (WeakCommand × Slot)}
    (hc : Carries (only w.id) id config log h) (hsub : orderings log ⊆ given)
    (hgiven : ∀ w' slot, (w', slot) ∈ given → w'.id = w.id → (w, slot) ∈ orderings log)
    (hs : Moves (Event.Names (carried (only w.id) given) config.ballot) spoken h signals h')
    (hexec : ∀ slot, (w, slot) ∈ orderings log → h.replica.isExecuted slot = true) :
    h'.replica.value? w.id = h.replica.value? w.id ∧ h.replica.executed ≤ h'.replica.executed := by
  obtain ⟨effects, hchanges⟩ := hs.changes
  have hnamed : h.replica.Named (carried (only w.id) given) := by
    refine hc.named.mono fun other weak slot hcarried hcares => ?_
    obtain ⟨w', hmem, hid⟩ := hcarried hcares
    exact ⟨w', hsub hmem, hid⟩
  have hballot := congrArg Config.ballot hc.config_eq
  refine ⟨hchanges.values_eq hnamed hballot fun weak slot hcarried => ?_,
    (hchanges.named hnamed hballot).2.1⟩
  obtain ⟨w', hmem, hid⟩ := hcarried rfl
  simpa [Replica.isExecuted] using hexec slot (hgiven w' slot hmem hid)

theorem answers_eq_nil (hquiet : ∀ m ∈ Running.messages x.outcome.2, answered? m = none)
    (cid : CommandId) : x.answers cid = [] := by
  refine List.filter_eq_nil_iff.2 fun m hm => ?_
  simp [hquiet m hm]

/-- The weak commands in order have been handed over. -/
theorem Ordered.mem_commands {cares : CommandId → Bool → Prop} (ho : Ordered cares id config log h)
    (hmem : (w, slot) ∈ orderings log) : w ∈ commands log := by
  obtain ⟨number, hnumber, -⟩ := ho.started hmem
  exact List.mem_of_getElem? hnumber

/-- What fits a host that goes by its journal and is quiet. -/
def Settles (cid : CommandId) (ballot : Ballot) (given : List (WeakCommand × Slot)) (slot : Slot)
    (event : Event) : Prop :=
  event.Names (carried (only cid) given) ballot slot ∧ event.Silent

theorem Part.handle (ho : Ordered (only w.id) id config log h) (hq : h.Quiet)
    (hleader : config.isLeader id = true) (hvariant : config.variant = .leaderOnly)
    {m : ReplicaMessage} (hm : Honest (only w.id) config.ballot m)
    (hsole : Sole w (commands (log ++ [⟨h, .handle m⟩]))) :
    (h.handle m).1.Quiet ∧ Part id w log ⟨h, .handle m⟩ := by
  have hleads : h.replica.isLeader = true := by
    rw [Replica.isLeader, ho.config_eq, ho.id_eq, hleader]
  have hvariant' : h.replica.config.variant = .leaderOnly := by rw [ho.config_eq, hvariant]
  obtain ⟨h₁, signals, hs, heq⟩ := handle_eq
    (Settles w.id config.ballot (orderings log)) (fun e => ¬e.IsWeakAnswer) hleads
    (fun slot event hbrought => ⟨hm.names hbrought, silent_of_brought hbrought⟩)
    fun e he => Replica.not_isWeakAnswer_of_emit hvariant' he
  have hnoted := h.replica.noted_respond m
  obtain ⟨hquiet, hsilent⟩ := (hq.note hnoted).moves (hs.mono fun _ _ hfit => hfit.2)
    fun _ he => he
  have hweak : h₁.weak = h.weak := hs.weak_eq.1
  have hspawned : h₁.spawned = h.spawned := hs.weak_eq.2
  have hgives : (⟨h, .handle m⟩ : Moment).givesUp w.id = false := rfl
  have horder : orderings (log ++ [⟨h, .handle m⟩]) = orderings log := by
    simp [orderings, Moment.ordering?]
  have hcommands : commands (log ++ [⟨h, .handle m⟩]) = commands log ++ m.weakCommand?.toList := by
    cases hw : m.weakCommand? <;> simp [commands, handled, Moment.message?, hw]
  have hgiven : ∀ w' slot, (w', slot) ∈ orderings log → w'.id = w.id → (w, slot) ∈ orderings log := by
    intro w' slot hmem hid
    have hold : w' ∈ commands (log ++ [⟨h, .handle m⟩]) := by
      rw [hcommands]
      exact List.mem_append_left _ (ho.mem_commands hmem)
    rwa [← hsole.same w' hold hid]
  have hkept : (∀ slot, (w, slot) ∈ orderings log → h.replica.isExecuted slot = true) →
      h₁.replica.value? w.id = h.replica.value? w.id ∧ h.replica.executed ≤ h₁.replica.executed := by
    obtain ⟨hslots, hnext⟩ := ho.slots_below.respond hleads m
    have hcarries := ho.toCarries.note hnoted hnext hslots
    have hsame : (h.replica.respond m).replica.values = h.replica.values ∧
        (h.replica.respond m).replica.executed = h.replica.executed := by
      obtain ⟨⟨_, _, _, _, _, _, hframe⟩, -⟩ := hnoted
      rw [hframe]
      exact ⟨rfl, rfl⟩
    intro hexec
    have hkept := hcarries.kept (List.Subset.refl _) hgiven (hs.mono fun _ _ hfit => hfit.1)
      fun slot hmem => by
        simpa [Replica.isExecuted, hsame.2] using hexec slot hmem
    simpa [Replica.value?, hsame.1, hsame.2] using hkept
  cases hw : m.weakCommand? with
  | none =>
      rw [hw] at heq
      rw [heq]
      refine ⟨hquiet, .apart ?_ ?_ ?_ ?_ ?_ hgives⟩
      · rw [hcommands, hw]
        simp
      · intro number stage
        rw [Moment.outcome_handle, heq, hweak]
      · rw [horder]
        exact fun _ hmem => hmem
      · rw [Moment.outcome_handle, heq]
        exact hkept
      · refine answers_eq_nil ?_ _
        rw [Moment.outcome_handle, heq]
        exact hsilent
  | some w' =>
      rw [hw] at heq
      have hspoken : ∀ m' ∈ Running.messages (h.handle m).2, answered? m' = none := by
        rw [heq]
        simpa [spawnWeak, Running.messages] using hsilent
      rw [heq]
      refine ⟨hquiet.congr rfl rfl rfl, ?_⟩
      have hanswers := answers_eq_nil (x := ⟨h, .handle m⟩) hspoken w.id
      by_cases hsame : w' = w
      · subst hsame
        have hown : (h.handle m).1.weak[h₁.spawned]? = some ⟨w', .begin⟩ := by
          rw [heq]
          simp [spawnWeak, setStage]
        refine .arrives (fun hmem => ?_) hown hanswers hgives
        have hnodup := hsole.nodup
        rw [hcommands, hw, List.map_append, List.nodup_append] at hnodup
        exact hnodup.2.2 _ (List.mem_map_of_mem hmem) _ (by simp) rfl
      · refine .apart ?_ ?_ ?_ ?_ hanswers hgives
        · rw [hcommands, hw]
          simp [Ne.symm hsame]
        · intro number stage
          rw [Moment.outcome_handle, heq]
          simp only [spawnWeak, setStage, Std.ExtTreeMap.getElem?_insert, Std.compare_eq_iff_eq,
            hweak, hspawned]
          split
          · rename_i hnew
            subst hnew
            simp [ho.weak_spawned, hsame]
          · rfl
        · rw [horder]
          exact fun _ hmem => hmem
        · rw [Moment.outcome_handle, heq]
          exact hkept

/-- A look of a task that follows no weak command. -/
theorem Part.look {now : Nat} {task : Task} (htask : ∀ number, task ≠ .weak number)
    (hweak : (h.look now task).1.weak = h.weak)
    (hkept : (∀ slot, (w, slot) ∈ orderings log → h.replica.isExecuted slot = true) →
      (h.look now task).1.replica.value? w.id = h.replica.value? w.id ∧
        h.replica.executed ≤ (h.look now task).1.replica.executed)
    (hsilent : ∀ m ∈ Running.messages (h.look now task).2, answered? m = none) :
    Part id w log ⟨h, .look now task⟩ := by
  have hgives : (⟨h, .look now task⟩ : Moment).givesUp w.id = false := by
    unfold Moment.givesUp
    split
    · rename_i hact
      obtain ⟨-, heq⟩ := Act.look.inj hact
      exact absurd heq (htask _)
    · rfl
  have horder : orderings (log ++ [⟨h, .look now task⟩]) = orderings log := by
    have hnone : (⟨h, .look now task⟩ : Moment).ordering? = none := by
      unfold Moment.ordering?
      split
      · rename_i hact
        obtain ⟨-, heq⟩ := Act.look.inj hact
        exact absurd heq (htask _)
      · rfl
    simp [orderings, hnone]
  have hcommands : commands (log ++ [⟨h, .look now task⟩]) = commands log := by
    simp [commands, handled, Moment.message?]
  refine .apart ?_ ?_ ?_ hkept (answers_eq_nil (x := ⟨h, .look now task⟩) hsilent _) hgives
  · rw [hcommands]
    exact fun hmem => hmem
  · intro number stage
    rw [Moment.outcome_look, hweak]
  · rw [horder]
    exact fun _ hmem => hmem

theorem Part.lookSlot (ho : Ordered (only w.id) id config log h) (hq : h.Quiet)
    (hsole : Sole w (commands log)) (now : Nat) (slot : Slot) :
    (h.lookSlot slot).1.Quiet ∧ Part id w log ⟨h, .look now (.slot slot)⟩ := by
  have hs : Moves (Settles w.id config.ballot (orderings log)) (fun e => ¬e.IsWeakAnswer) h
      (h.lookSlot slot).2 (h.lookSlot slot).1 := by
    refine moves_lookSlot ?_ slot
    exact Holds.and ho.holds hq.holds
  obtain ⟨hquiet, hsilent⟩ := hq.moves (hs.mono fun _ _ hfit => hfit.2) fun _ he => he
  refine ⟨hquiet, .look (by simp) hs.weak_eq.1 ?_ hsilent⟩
  refine ho.toCarries.kept (List.Subset.refl _) (fun w' slot hmem hid => ?_)
    (hs.mono fun _ _ hfit => hfit.1)
  rwa [← hsole.same w' (ho.mem_commands hmem) hid]

theorem Part.lookFlush (hq : h.Quiet) (now : Nat) :
    (h.lookFlush now).1.Quiet ∧ Part id w log ⟨h, .look now .flush⟩ := by
  obtain ⟨batcher, hflush, hsilent⟩ : ∃ batcher, (h.lookFlush now).1 = { h with batcher } ∧
      ∀ m ∈ Running.messages (h.lookFlush now).2, answered? m = none := by
    unfold Host.lookFlush
    split
    · exact ⟨_, rfl, by simp [Running.messages]⟩
    · exact ⟨_, rfl, by simp [Running.messages, answered?]⟩
  refine ⟨hflush ▸ hq.congr rfl rfl rfl, .look (by simp) ?_ (fun _ => ?_) hsilent⟩
  · rw [Host.look, hflush]
  · rw [Host.look, hflush]
    exact ⟨rfl, Nat.le_refl _⟩

/-! ### Looks of the tasks of weak commands -/

theorem givesUp_look (now : Nat) (hown : h.weak[number]? = some ⟨w', stage⟩) (cid : CommandId) :
    (⟨h, .look now (.weak number)⟩ : Moment).givesUp cid =
      match stage with
      | .execute slot deadline =>
        decide (w'.id = cid) && decide (deadline ≤ now) && !h.replica.isExecuted slot
      | _ => false := by
  simp only [Moment.givesUp, hown]
  cases stage <;> rfl

/-- A task that has not put its command in order does not give up. -/
theorem not_givesUp_of_unplaced (now : Nat) (hown : h.weak[number]? = some ⟨w', stage⟩)
    (hstage : stage.slot? = none) (cid : CommandId) :
    (⟨h, .look now (.weak number)⟩ : Moment).givesUp cid = false := by
  rw [givesUp_look now hown]
  cases stage with
  | begin => rfl
  | dependency deadline => rfl
  | commit slot deadline => rfl
  | execute slot deadline => simp [Stage.slot?] at hstage

/-- A task that goes on, or whose slot has executed, does not give up. -/
theorem not_givesUp_of_stays {now : Nat} (hown : h.weak[number]? = some ⟨w', stage⟩)
    (hstage : stage.slot? = some slot) (hstays : (h.lookWeak now number).1.weak[number]? ≠ none ∨
      h.replica.isExecuted slot = true) (cid : CommandId) :
    (⟨h, .look now (.weak number)⟩ : Moment).givesUp cid = false := by
  rw [givesUp_look now hown]
  cases stage with
  | begin => rfl
  | dependency deadline => rfl
  | commit other deadline => rfl
  | execute other deadline =>
      obtain rfl := Option.some.inj hstage
      by_contra hfalse
      obtain ⟨-, hdue, hexec⟩ : w'.id = cid ∧ deadline ≤ now ∧
          h.replica.isExecuted other = false := by simpa using hfalse
      rcases hstays with hstill | hexec'
      · refine hstill ?_
        simpa [Host.lookWeak, hown] using weak_awaitExecution_due hdue hexec
      · rw [hexec] at hexec'
        simp at hexec'

/-- A command that a look finds in order was so before, or gets the next slot from its own task. -/
theorem mem_orderings_look {now : Nat} {other : Slot}
    (hmem : (w, other) ∈ orderings (log ++ [⟨h, .look now (.weak number)⟩])) :
    (w, other) ∈ orderings log ∨ ∃ stage : Stage, h.weak[number]? = some ⟨w, stage⟩ ∧
      stage.slot? = none ∧ other = h.replica.nextSlot ∧
        (h.lookWeak now number).1.replica.slot? w.id = some h.replica.nextSlot := by
  rw [orderings_append] at hmem
  refine (List.mem_append.1 hmem).imp_right fun hnew => ?_
  obtain ⟨x, hx, hordering⟩ := List.mem_filterMap.1 hnew
  obtain rfl := List.mem_singleton.1 hx
  obtain ⟨now', number', stage, hact, hown, hstage, hslot, heq⟩ :=
    Moment.ordering?_eq_some hordering
  obtain ⟨-, hnumber⟩ := Act.look.inj hact
  obtain rfl := Task.weak.inj hnumber
  exact ⟨stage, hown, hstage, heq, hslot⟩

/-- A command that is not in order has no result. -/
theorem Ordered.value?_eq_none (ho : Ordered (only w.id) id config log h)
    (hsole : Sole w (commands log)) (hunordered : ∀ other, (w, other) ∉ orderings log) :
    h.replica.value? w.id = none := by
  refine Option.eq_none_iff_forall_ne_some.2 fun value hvalue => ?_
  obtain ⟨weak, other, -, hcarried⟩ := ho.named.values hvalue
  obtain ⟨w', hmem, hid⟩ := hcarried rfl
  rw [hsole.same w' (ho.mem_commands hmem) hid] at hmem
  exact hunordered other hmem

/-- What the task of another command says answers that one at most. -/
theorem Tending.answers_other {due : Prop} {sent : List Sent} {cid : CommandId}
    (ht : Tending number w' slot due h' sent) (hid : w'.id ≠ cid) :
    sent.filter (fun m => answered? m = some cid) = [] := by
  cases ht with
  | commits hown hsub => rfl
  | executes hown hsub => rfl
  | gaveUp hown hexec hdue => rfl
  | answered hown hexec =>
      refine List.filter_eq_nil_iff.2 fun m hm => ?_
      unfold answers at hm
      split at hm
      · obtain ⟨value, -, rfl⟩ := List.mem_map.1 hm
        simpa [answered?_answerTo] using hid
      · simp at hm

/-- Once all its slots have executed, the result of a command stays as it is while tasks look. -/
theorem Carries.kept_look {now : Nat} {given : List (WeakCommand × Slot)}
    (hc : Carries (only w.id) id config log h) (hsub : orderings log ⊆ given)
    (hgiven : ∀ w' slot, (w', slot) ∈ given → w'.id = w.id → (w, slot) ∈ orderings log)
    (hlook : WeakLook (Event.Names (carried (only w.id) given) config.ballot) spoken now number h h'
      signals)
    (hexec : ∀ slot, (w, slot) ∈ orderings log → h.replica.isExecuted slot = true) :
    h'.replica.value? w.id = h.replica.value? w.id ∧ h.replica.executed ≤ h'.replica.executed := by
  cases hlook with
  | idle hown => exact ⟨rfl, Nat.le_refl _⟩
  | waits hown hstage hsent => exact ⟨rfl, Nat.le_refl _⟩
  | @refused w' stage weakDeps _ hown hstage hslots hsent =>
      obtain ⟨hvalues, hexecuted⟩ := settled_assigned h.replica w'
      exact ⟨by rw [Replica.value?, hvalues]; rfl, Nat.le_of_eq hexecuted.symm⟩
  | @orders w' stage weakDeps _ _ _ h₁ _ hown hstage hready hslots hsent hs ht =>
      obtain ⟨hvalues, hexecuted⟩ := settled_assigned h.replica w'
      have hassigned := hc.note (noted_assigned h.replica w')
        (by rw [nextSlot_assigned]; exact Nat.le_succ _) (hc.slots_below.assign false)
      have hcarries : Carries (only w.id) id config log
          { h with replica := assigned h.replica w', weakDeps } := hassigned.congr rfl rfl rfl
      have hkept := hcarries.kept hsub hgiven hs fun slot hmem => by
        simpa [Replica.isExecuted, hexecuted] using hexec slot hmem
      rw [ht.replica_eq]
      simpa [Replica.value?, hvalues, hexecuted] using hkept
  | tends hown hstage ht =>
      rw [ht.replica_eq]
      exact ⟨rfl, Nat.le_refl _⟩

/-- A look of the task of another command. -/
theorem Part.lookOther {now : Nat} (ho : Ordered (only w.id) id config log h) (hq : h.Quiet)
    (hsole : Sole w (commands log)) (hother : ∀ stage, h.weak[number]? ≠ some ⟨w, stage⟩) :
    (h.lookWeak now number).1.Quiet ∧ Part id w log ⟨h, .look now (.weak number)⟩ := by
  have hcommands : commands (log ++ [⟨h, .look now (.weak number)⟩]) = commands log := by
    simp [commands, handled, Moment.message?]
  have hne : ∀ w' stage, h.weak[number]? = some ⟨w', stage⟩ → w'.id ≠ w.id := by
    intro w' stage hown hid
    obtain rfl := hsole.same w' (List.mem_of_getElem? (ho.numbered hown)) hid
    exact hother stage hown
  have hordered : ∀ slot, (w, slot) ∈ orderings (log ++ [⟨h, .look now (.weak number)⟩]) →
      (w, slot) ∈ orderings log := by
    intro slot hmem
    refine (mem_orderings_look hmem).resolve_right ?_
    rintro ⟨stage, hown, -⟩
    exact hother stage hown
  have hgives : (⟨h, .look now (.weak number)⟩ : Moment).givesUp w.id = false := by
    cases hown : h.weak[number]? with
    | none => simp [Moment.givesUp, hown]
    | some task =>
        obtain ⟨w', stage⟩ := task
        rw [givesUp_look _ hown]
        cases stage <;> simp [hne w' _ hown]
  cases hown : h.weak[number]? with
  | none =>
      have hlook : h.lookWeak now number = (h, []) := by simp [Host.lookWeak, hown]
      refine ⟨by rw [hlook]; exact hq, .apart ?_ ?_ hordered ?_ ?_ hgives⟩
      · rw [hcommands]
        exact fun hmem => hmem
      · simp [Host.look, hlook]
      · simp [Host.look, hlook]
      · simp [Moment.answers, Host.look, hlook, Running.messages]
  | some task =>
      obtain ⟨w', stage⟩ := task
      have hid := hne w' stage hown
      let given := orderings log ++ [(w', h.replica.nextSlot)]
      have hfit : ∀ w₁ stage₁, h.weak[number]? = some ⟨w₁, stage₁⟩ → stage₁.slot? = none →
          Settles w.id config.ballot given h.replica.nextSlot (proposalOf w₁) := by
        intro w₁ stage₁ hown₁ _
        obtain ⟨rfl, -⟩ := WeakTask.mk.inj (Option.some.inj (hown.symm.trans hown₁))
        exact ⟨fun _ => ⟨w', by simp [given], rfl⟩, silent_proposalOf w'⟩
      have hlook := weakLook_lookWeak (Settles w.id config.ballot given)
        (fun e => ¬e.IsWeakAnswer) h now number hfit fun a hanswer => hanswer
      obtain ⟨hquiet, first, last, hmessages, hfirst, hlast⟩ :=
        hq.look (hlook.mono fun _ _ hfit => hfit.2)
      refine ⟨hquiet, .apart ?_ ?_ hordered ?_ ?_ hgives⟩
      · rw [hcommands]
        exact fun hmem => hmem
      · intro other stage'
        by_cases hsame : other = number
        · subst hsame
          constructor
          · intro htask
            have hcommand := hlook.own hown htask
            exact absurd (congrArg WeakCommand.id hcommand).symm hid
          · exact fun htask => absurd htask (hother stage')
        · rw [Moment.outcome_look, Host.look, hlook.others hsame]
      · refine ho.toCarries.kept_look (List.subset_append_left _ _) (fun w₁ slot hmem hsame => ?_)
          (hlook.mono fun _ _ hfit => hfit.1)
        rcases List.mem_append.1 hmem with hmem | hmem
        · rwa [← hsole.same w₁ (ho.mem_commands hmem) hsame]
        · obtain ⟨rfl, -⟩ := Prod.mk.inj (List.mem_singleton.1 hmem)
          exact absurd hsame hid
      · have hnone : (Running.messages (h.lookWeak now number).2).filter
            (fun m => answered? m = some w.id) = [] := by
          rw [hmessages, List.filter_append, List.filter_eq_nil_iff.2 fun m hm => by
            simp [hfirst m hm], List.nil_append]
          rcases hlast with rfl | ⟨w₁, stage₁, slot, due, hown₁, ht⟩
          · rfl
          · exact ht.answers_other (hne w₁ stage₁ hown₁)
        exact hnone

/-- A look at which the task of the command tends its slot. -/
theorem Part.tending {now : Nat} {due : Prop} {sent : List Sent}
    (hown : h.weak[number]? = some ⟨w, stage⟩)
    (ht : Tending number w slot due (h.lookWeak now number).1 sent)
    (hanswers : (⟨h, .look now (.weak number)⟩ : Moment).answers w.id =
      sent.filter fun m => answered? m = some w.id)
    (hsame : (h.lookWeak now number).1.replica.id = id)
    (hvariant : (h.lookWeak now number).1.replica.config.variant = .leaderOnly)
    (hnone : (h.lookWeak now number).1.weak[number]? = none → ∀ (other : Nat) (stage : Stage),
      (h.lookWeak now number).1.weak[other]? ≠ some ⟨w, stage⟩)
    (hslot : ∀ other, (w, other) ∈ orderings (log ++ [⟨h, .look now (.weak number)⟩]) →
      other = slot)
    (hstays : (h.lookWeak now number).1.weak[number]? ≠ none ∨
      (h.lookWeak now number).1.replica.isExecuted slot = true →
        (⟨h, .look now (.weak number)⟩ : Moment).givesUp w.id = false)
    (hdue : due → (h.lookWeak now number).1.replica.isExecuted slot = false →
      (⟨h, .look now (.weak number)⟩ : Moment).givesUp w.id = true) :
    Part id w log ⟨h, .look now (.weak number)⟩ := by
  cases ht with
  | commits hstill hsub =>
      exact .goesOn hown hstill (by rw [hanswers]; rfl) (hstays (.inl (by simp [hstill])))
  | executes hstill hsub =>
      exact .goesOn hown hstill (by rw [hanswers]; rfl) (hstays (.inl (by simp [hstill])))
  | gaveUp hended hexec hpast =>
      exact .givesUp hown (hnone hended) (by rw [hanswers]; rfl) (hdue hpast hexec)
  | answered hended hexec =>
      refine .answers hown (hnone hended) (fun other hmem => ?_) ?_ (hstays (.inr hexec))
      · rw [hslot other hmem]
        exact hexec
      · rw [hanswers, Host.answers, hvariant, hsame, Variant.repliesAfterExecute, if_pos rfl,
          List.filter_eq_self.2]
        · rfl
        · intro m hm
          obtain ⟨value, -, rfl⟩ := List.mem_map.1 hm
          simp [answered?_answerTo]

/-- Once the task of the command has ended, the command has no task. -/
theorem Ordered.ended {now : Nat} {fits : Slot → Event → Prop} {spoken : Effect → Prop}
    (ho : Ordered (only w.id) id config log h) (hsole : Sole w (commands log))
    (hown : h.weak[number]? = some ⟨w, stage⟩)
    (hlook : WeakLook fits spoken now number h h' signals) (hended : h'.weak[number]? = none)
    (other : Nat) (stage' : Stage) : h'.weak[other]? ≠ some ⟨w, stage'⟩ := by
  intro htask
  by_cases hother : other = number
  · simp [hother, hended] at htask
  · rw [hlook.others hother] at htask
    exact hother (hsole.index_unique (ho.numbered htask) (ho.numbered hown))

/-- The command is in order at the slot that its task tends, or gets the next slot at a look. -/
theorem Ordered.tended {now : Nat} {other : Slot} (ho : Ordered (only w.id) id config log h)
    (hsole : Sole w (commands log)) (hown : h.weak[number]? = some ⟨w, stage⟩)
    (hmem : (w, other) ∈ orderings (log ++ [⟨h, .look now (.weak number)⟩])) :
    stage.slot? = some other ∨ stage.slot? = none ∧ other = h.replica.nextSlot ∧
      (h.lookWeak now number).1.replica.slot? w.id = some h.replica.nextSlot := by
  rcases mem_orderings_look hmem with hold | ⟨stage', hown', hstage, heq, hslot⟩
  · exact .inl (ho.slot?_eq hsole hown hold)
  · obtain ⟨-, rfl⟩ := WeakTask.mk.inj (Option.some.inj (hown.symm.trans hown'))
    exact .inr ⟨hstage, heq, hslot⟩

/-- A look of the task of the command. -/
theorem Part.lookOwn {now : Nat} (ho : Ordered (only w.id) id config log h) (hq : h.Quiet)
    (hvariant : config.variant = .leaderOnly) (hwait : 0 < config.executeWait)
    (hsole : Sole w (commands log)) (hown : h.weak[number]? = some ⟨w, stage⟩) :
    (h.lookWeak now number).1.Quiet ∧ Part id w log ⟨h, .look now (.weak number)⟩ := by
  have ho' := ho.lookWeak now number
  have hsame := ho'.id_eq
  have hvariant' : (h.lookWeak now number).1.replica.config.variant = .leaderOnly := by
    rw [ho'.config_eq, hvariant]
  have hlook := weakLook_lookWeak (fun _ event => event.Silent) (fun e => ¬e.IsWeakAnswer) h now
    number (fun w' _ _ _ => silent_proposalOf w') fun a hanswer => hanswer
  have hquiet := (hq.look hlook).1
  refine ⟨hquiet, ?_⟩
  have hnone : (h.lookWeak now number).1.weak[number]? = none → ∀ (other : Nat) (stage : Stage),
      (h.lookWeak now number).1.weak[other]? ≠ some ⟨w, stage⟩ := ho.ended hsole hown hlook
  have hgives := fun hstage : stage.slot? = none => not_givesUp_of_unplaced now hown hstage w.id
  generalize hresult : h.lookWeak now number = result at hlook
  obtain ⟨h', signals⟩ := result
  have hmessages : (⟨h, .look now (.weak number)⟩ : Moment).answers w.id =
      (Running.messages signals).filter fun m => answered? m = some w.id := by
    rw [Moment.answers, Moment.outcome_look, Host.look, hresult]
  cases hlook with
  | idle hown' => simp [hown] at hown'
  | @waits w' stage' deadline _ _ hown' hstage hsent =>
      obtain ⟨rfl, rfl⟩ := WeakTask.mk.inj (Option.some.inj (hown.symm.trans hown'))
      have hstill : (h.lookWeak now number).1.weak[number]? = some ⟨w, .dependency deadline⟩ := by
        rw [hresult]
        simp
      exact .goesOn hown hstill (by rw [hmessages, hsent]; rfl) (hgives hstage)
  | @refused w' stage' _ _ hown' hstage hslots hsent =>
      obtain ⟨rfl, rfl⟩ := WeakTask.mk.inj (Option.some.inj (hown.symm.trans hown'))
      have hunordered : ∀ other, (w, other) ∉ orderings log := by
        intro other hmem
        simp [ho.slot?_eq hsole hown hmem] at hstage
      have hvalue := ho.value?_eq_none hsole hunordered
      refine .answers hown (hnone (by rw [hresult]; simp)) ?_ ?_ (hgives hstage)
      · intro other hmem
        rcases ho.tended hsole hown hmem with htended | ⟨-, -, hslot⟩
        · simp [hstage] at htended
        · rw [hresult, Replica.slot?, hslots] at hslot
          exact absurd (ho.slots_below _ _ hslot) (Nat.lt_irrefl _)
      · have hkept : (assigned h.replica w).value? w.id = none := by
          rw [Replica.value?, (settled_assigned h.replica w).1]
          exact hvalue
        rw [hmessages, hsent, Moment.outcome_look, Host.look, hresult, hkept]
        rfl
  | @orders w' stage' weakDeps woken moved tended h₁ _ hown' hstage hready hslots hsent hs ht =>
      obtain ⟨rfl, rfl⟩ := WeakTask.mk.inj (Option.some.inj (hown.symm.trans hown'))
      have hassigned := hq.note (noted_assigned h.replica w)
      have hordered : Quiet { h with replica := assigned h.replica w, weakDeps } :=
        hassigned.congr rfl rfl rfl
      obtain ⟨-, hsilent⟩ := hordered.moves hs fun _ he => he
      have htends : Tending number w h.replica.nextSlot (h.replica.config.executeWait = 0)
          (h.lookWeak now number).1 (Running.messages tended) := by
        rw [hresult]
        exact ht.own
      refine .tending hown' htends ?_ hsame hvariant' hnone ?_ (fun _ => hgives hstage) fun hzero => ?_
      · rw [hmessages, List.append_eq, messages_append, messages_append, hsent, List.nil_append,
          List.filter_append, List.filter_eq_nil_iff.2 fun m hm => by simp [hsilent m hm],
          List.nil_append]
      · intro other hmem
        rcases ho.tended hsole hown hmem with htended | ⟨-, hnext, -⟩
        · simp [hstage] at htended
        · exact hnext
      · rw [ho.config_eq] at hzero
        exact absurd hzero (Nat.ne_of_gt hwait)
  | @tends w' stage' slot _ _ hown' hstage ht =>
      obtain ⟨rfl, rfl⟩ := WeakTask.mk.inj (Option.some.inj (hown.symm.trans hown'))
      refine .tending hown (by rw [hresult]; exact ht.own) hmessages hsame hvariant' hnone ?_ ?_ ?_
      · intro other hmem
        rcases ho.tended hsole hown hmem with htended | ⟨hnot, -⟩
        · exact Option.some.inj (htended.symm.trans hstage)
        · simp [hstage] at hnot
      · intro hstays
        refine not_givesUp_of_stays hown hstage (hstays.imp_right fun hexec => ?_) w.id
        rwa [hresult, ht.replica_eq] at hexec
      · intro hdue hexec
        rw [hresult, ht.replica_eq] at hexec
        rw [givesUp_look now hown]
        rcases hdue with hzero | ⟨deadline, rfl, hpassed⟩
        · rw [ho.config_eq] at hzero
          exact absurd hzero (Nat.ne_of_gt hwait)
        · simp [hpassed, hexec]

/-- A look of the task of a weak command. -/
theorem Part.lookWeak (ho : Ordered (only w.id) id config log h) (hq : h.Quiet)
    (hvariant : config.variant = .leaderOnly) (hwait : 0 < config.executeWait)
    (hsole : Sole w (commands log)) (now number : Nat) :
    (h.lookWeak now number).1.Quiet ∧ Part id w log ⟨h, .look now (.weak number)⟩ := by
  by_cases hown : ∃ stage, h.weak[number]? = some ⟨w, stage⟩
  · obtain ⟨stage, hown⟩ := hown
    exact lookOwn ho hq hvariant hwait hsole hown
  · exact lookOther ho hq hsole fun stage htask => hown ⟨stage, htask⟩

/-- An answer is sent when the command has executed, and carries the result. -/
theorem Part.told (hpart : Part id w log x) : x.answers w.id = [] ∨ ∃ value,
    x.outcome.1.replica.value? w.id = some value ∧ x.answers w.id = [answerTo id w value] := by
  cases hpart with
  | apart _ _ _ _ hanswers _ => exact .inl hanswers
  | arrives _ _ hanswers _ => exact .inl hanswers
  | goesOn _ _ hanswers _ => exact .inl hanswers
  | givesUp _ _ hanswers _ => exact .inl hanswers
  | answers _ _ _ hanswers _ =>
      cases hvalue : x.outcome.1.replica.value? w.id with
      | none => exact .inl (by rw [hanswers, hvalue]; rfl)
      | some value => exact .inr ⟨value, rfl, by rw [hanswers, hvalue]; rfl⟩

/-! ### A whole journal -/

theorem quiet_start (hstart : Host.start id config = .ok (h, signals)) : h.Quiet := by
  obtain ⟨-, heq⟩ := start_eq hstart
  rw [heq]
  exact ⟨Replica.eager_initial id config, by simp [Holds]⟩

/-- Each moment plays its part for a weak command that no message smuggles in. At any time the
command has its fate, and no slot of the leader's host answers weak commands. -/
theorem Running.Journal.fate {r : Run Running Task} (hj : Running.Journal id config r log)
    (hleader : config.isLeader id = true) (hvariant : config.variant = .leaderOnly)
    (honest : ∀ m ∈ handled log, Honest (only w.id) config.ballot m)
    (hsole : Sole w (commands log)) :
    r.state.host.Quiet ∧ Fate id w log r.state.host ∧
      ∀ x ∈ log, ∃ before, Part id w before x := by
  have hwait : 0 < config.executeWait := hj.wait_pos .execute
  induction hj with
  | start hstart =>
      obtain ⟨host, signals, hhost, rfl⟩ := Running.exists_of_start hstart
      exact ⟨quiet_start hhost, .coming (by simp [commands, handled]) rfl rfl, by simp⟩
  | @handle r log hj m ih =>
      have honest' : ∀ m ∈ handled log, Honest (only w.id) config.ballot m :=
        fun m hm => honest m (handled_subset _ _ hm)
      have hsole' := hsole.before
      have ho := hj.ordered hleader honest'
      obtain ⟨hq, hf, hparts⟩ := ih honest' hsole'
      obtain ⟨hquiet, hpart⟩ := Part.handle ho hq hleader hvariant
        (honest m (by simp [handled, Moment.message?])) hsole
      refine ⟨hquiet, hf.step hpart fun _ _ hown => List.mem_of_getElem? (ho.numbered hown),
        fun x hx => ?_⟩
      rcases List.mem_append.1 hx with hx | hx
      · exact hparts x hx
      · exact ⟨log, List.mem_singleton.1 hx ▸ hpart⟩
  | @look r log hj task ready hready ih =>
      have honest' : ∀ m ∈ handled log, Honest (only w.id) config.ballot m :=
        fun m hm => honest m (handled_subset _ _ hm)
      have hsole' := hsole.before
      have ho := hj.ordered hleader honest'
      obtain ⟨hq, hf, hparts⟩ := ih honest' hsole'
      have hlook : (r.state.host.look r.now task).1.Quiet ∧
          Part id w log ⟨r.state.host, .look r.now task⟩ := by
        cases task with
        | slot slot => exact Part.lookSlot ho hq hsole' r.now slot
        | weak number => exact Part.lookWeak ho hq hvariant hwait hsole' r.now number
        | flush => exact Part.lookFlush hq r.now
      refine ⟨hlook.1, hf.step hlook.2 fun _ _ hown => List.mem_of_getElem? (ho.numbered hown),
        fun x hx => ?_⟩
      rcases List.mem_append.1 hx with hx | hx
      · exact hparts x hx
      · exact ⟨log, List.mem_singleton.1 hx ▸ hlook.2⟩
  | pass hj hle ih => exact ih honest hsole
  | take hj ih => exact ih honest hsole

/-- Where no task is in the queue, no task is still to answer a command that has executed. -/
theorem Ordered.not_busy {r : Run Running Task} (hj : Running.Journal id config r log)
    (hleader : config.isLeader id = true)
    (ho : Ordered (only w.id) id config log r.state.host) (hsole : Sole w (commands log))
    (hidle : r.clock.ready = []) {value : Value}
    (hvalue : r.state.host.replica.value? w.id = some value) :
    r.state.host.weak[number]? ≠ some ⟨w, stage⟩ := by
  intro hown
  obtain ⟨weak, slot, hlt, hcarried⟩ := ho.named.values hvalue
  obtain ⟨w', hmem, hid⟩ := hcarried rfl
  rw [hsole.same w' (ho.mem_commands hmem) hid] at hmem
  have hstage := ho.slot?_eq hsole hown hmem
  have hexec : r.state.host.replica.isExecuted slot = true := by
    simpa [Replica.isExecuted] using hlt
  obtain ⟨ha, hw⟩ := hj.watchful hleader
  have hsub : r.state.host.Subscribed number stage := by
    simpa [hidle] using hw hown
  cases stage with
  | begin => simp [Stage.slot?] at hstage
  | dependency deadline => simp [Stage.slot?] at hstage
  | commit other deadline =>
      obtain rfl := Option.some.inj hstage
      have hpending := ha.commits hsub
      simp [Replica.isCommitted, hexec] at hpending
  | execute other deadline =>
      obtain rfl := Option.some.inj hstage
      have hpending := ha.executions hsub
      simp [hexec] at hpending

/-- **Answers to weak commands.** Let a host lead where only the leader takes weak commands, and let
none of these be handed over twice. A weak command that no strong proposal and no accept of the
epoch names is answered once at most, when it has executed, and with its result. Once it has
executed and no task is in the queue, it has been answered, unless its task has given up: then it
has not been answered. -/
theorem weak_answered {r : Run Running Task} (hj : Running.Journal id config r log)
    (hleader : config.isLeader id = true) (hvariant : config.variant = .leaderOnly)
    (hfresh : ((commands log).map WeakCommand.id).Nodup) (hmem : w ∈ commands log)
    (honest : ∀ m ∈ handled log, (∀ body, m = .propose body → body.id ≠ w.id) ∧
      ∀ a ∈ m.accepts, a.ballot = config.ballot → a.id ≠ w.id) :
    (answersIn log w.id = [] ∨ ∃ value, r.state.host.replica.value? w.id = some value ∧
      answersIn log w.id = [answerTo id w value]) ∧
    (∀ x ∈ log, x.answers w.id = [] ∨ ∃ value,
      x.outcome.1.replica.value? w.id = some value ∧ x.answers w.id = [answerTo id w value]) ∧
    ∀ value, r.state.host.replica.value? w.id = some value → r.clock.ready = [] →
      answersIn log w.id = if gaveUp log w.id then [] else [answerTo id w value] := by
  have hsole : Sole w (commands log) :=
    ⟨hfresh, fun w' hw' hid => List.inj_on_of_nodup_map hfresh hw' hmem hid⟩
  have honest' : ∀ m ∈ handled log, Honest (only w.id) config.ballot m :=
    fun m hm => ⟨(honest m hm).1, (honest m hm).2⟩
  obtain ⟨-, hfate, hparts⟩ := hj.fate hleader hvariant honest' hsole
  refine ⟨?_, fun x hx => (hparts x hx).elim fun _ hpart => hpart.told, ?_⟩
  · cases hfate with
    | coming hnew => exact absurd hmem hnew
    | busy hown hanswers => exact .inl hanswers
    | abandoned hmem hnone hanswers => exact .inl hanswers
    | answered hmem hnone hexec hanswers =>
        cases hvalue : r.state.host.replica.value? w.id with
        | none => exact .inl (by rw [hanswers, hvalue]; rfl)
        | some value => exact .inr ⟨value, rfl, by rw [hanswers, hvalue]; rfl⟩
  · intro value hvalue hidle
    have ho := hj.ordered hleader honest'
    cases hfate with
    | coming hnew => exact absurd hmem hnew
    | busy hown => exact absurd hown (ho.not_busy hj hleader hsole hidle hvalue)
    | abandoned hmem hnone hanswers hgives => rw [hanswers, hgives, if_pos rfl]
    | answered hmem hnone hexec hanswers hgives =>
        rw [hanswers, hgives, hvalue]
        rfl

/-- A cluster of three. -/
def trio : Config := { replicas := 3, leader := 0 }

/-- A weak write of client 1. -/
def weakWrite : WeakCommand := ⟨⟨1, 0⟩, ⟨.put, 1, ⟨[97]⟩⟩, none, false⟩

/-- The leader is handed the write, and another replica acknowledges it in time. -/
def acknowledged : List Running.Deed :=
  [.handle (.weakPropose ⟨⟨1, 0⟩, ⟨.put, 1, ⟨[97]⟩⟩, none, none⟩)] ++ .replicate 4 .look ++
    [.handle (.acceptAck ⟨0, 0, 1⟩)] ++ .replicate 6 .look

theorem weak_answered_acknowledged :
    answersIn (Running.replay 0 trio acknowledged).2 weakWrite.id =
      [.toClient 1 (.weakReply ⟨0, ⟨1, 0⟩, ⟨[97]⟩⟩)] := by
  have hj : Running.Journal 0 trio (Running.replay 0 trio acknowledged).1
      (Running.replay 0 trio acknowledged).2 :=
    Running.journal_replay (by decide +kernel) rfl acknowledged
  obtain ⟨-, -, hanswered⟩ := weak_answered (w := weakWrite) hj rfl rfl (by decide +kernel)
    (by decide +kernel) (by
      have hhandled : handled (Running.replay 0 trio acknowledged).2 =
          [.weakPropose ⟨⟨1, 0⟩, ⟨.put, 1, ⟨[97]⟩⟩, none, none⟩, .acceptAck ⟨0, 0, 1⟩] := by
        decide +kernel
      rw [hhandled]
      simp [ReplicaMessage.accepts])
  rw [hanswered ⟨[97]⟩ (by decide +kernel) (by decide +kernel),
    if_neg (by decide +kernel)]
  rfl

/-- The acknowledgement comes when the waits for commit and execution have timed out. -/
def late : List Running.Deed :=
  [.handle (.weakPropose ⟨⟨1, 0⟩, ⟨.put, 1, ⟨[97]⟩⟩, none, none⟩)] ++ .replicate 4 .look ++
    [.pass 1000] ++ .replicate 4 .look ++ [.pass 5000] ++ .replicate 4 .look ++
      [.handle (.acceptAck ⟨0, 0, 1⟩)] ++ .replicate 6 .look

/-- A weak command that executes after its task has given up is never answered. -/
theorem not_weak_answered_late :
    Running.Journal 0 trio (Running.replay 0 trio late).1 (Running.replay 0 trio late).2 ∧
      trio.isLeader 0 = true ∧ trio.variant = .leaderOnly ∧
      commands (Running.replay 0 trio late).2 = [weakWrite] ∧
      (Running.replay 0 trio late).1.clock.ready = [] ∧
      (Running.replay 0 trio late).1.state.host.replica.value? weakWrite.id = some ⟨[97]⟩ ∧
      answersIn (Running.replay 0 trio late).2 weakWrite.id = [] :=
  ⟨Running.journal_replay (by decide +kernel) rfl late, rfl, rfl, by decide +kernel,
    by decide +kernel, by decide +kernel, by decide +kernel⟩

end WitnessReplication.Host
