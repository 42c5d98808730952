import WitnessReplication.Proofs.Replica.Advancing

/-!
# What has come for a slot

A slot of a replica that does not lead learns from the accepts and the commits of the replica's
epoch alone: the first accept names its command, and any commit commits it. What has come for a
slot is its `Notice`. In whatever order accepts and commits come, and however often, each slot
under way holds its notice, and the slots before them have executed the commands of theirs
(`Replica.Digests`).
-/

namespace WitnessReplication

/-- The accepts that a message brings. -/
def ReplicaMessage.accepts : ReplicaMessage → List Accept
  | .accept a => [a]
  | .batch b => b.accepts
  | _ => []

/-- The commits that a message brings. -/
def ReplicaMessage.commits : ReplicaMessage → List Commit
  | .commit b => [b]
  | _ => []

/-- What has come for a slot: the first accept, and whether a commit has come. -/
structure Notice where
  accept? : Option Accept
  committed : Bool

namespace Notice

/-- What has come for a slot in an epoch, among all accepts and commits in order. -/
def ofArrivals (ballot : Ballot) (accepts : List Accept) (commits : List Commit) (slot : Slot) :
    Notice where
  accept? := accepts.find? fun a => decide (a.ballot = ballot ∧ a.slot = slot)
  committed := decide (⟨ballot, slot⟩ ∈ commits)

/-- The command that the slot is to execute. -/
def command? (n : Notice) : Option Command := n.accept?.bind Accept.command

/-- A commit has come, and an accept that names a command. -/
def Ready (n : Notice) : Prop := n.committed = true ∧ n.command?.isSome = true

end Notice

namespace Replica

/-- A slot under way holds what has come for it. -/
structure LiveSlot.Digests (n : Notice) (s : LiveSlot) : Prop where
  applied : s.applied = false
  accepted : s.accepted = n.accept?.isSome
  id : s.id = n.accept?.map Accept.id
  command : s.command = n.command?
  phase : s.phase = .commit ↔ n.committed = true

/-- Each slot that has not executed holds what has come for it. The others were ready and have
executed the commands that came for them, in order and once each. -/
structure Digests (id : ReplicaId) (config : Config) (known : Slot → Notice) (r : Replica) :
    Prop where
  id_eq : r.id = id
  config_eq : r.config = config
  executed_le : ∀ {slot : Slot} {s}, r.live[slot]? = some s → r.executed ≤ slot
  slots : ∀ slot, r.executed ≤ slot → ((r.live[slot]?).getD {}).Digests (known slot)
  ready : ∀ slot < r.executed, (known slot).Ready
  history : ∃ commands : List Command,
    (List.range r.executed).map (fun slot => (known slot).command?) = commands.map some ∧
      r.store = Store.empty.executeAll commands

variable {id : ReplicaId} {config : Config} {known known' : Slot → Notice} {r r' : Replica}
variable {slot : Slot} {s : LiveSlot} {event : Event} {effects : List Effect} {n : Notice}
variable {accepts : List Accept} {commits : List Commit} {m : ReplicaMessage}

/-! ### One slot -/

theorem LiveSlot.digests_new : ({} : LiveSlot).Digests ⟨none, false⟩ := by
  constructor <;> simp [Notice.command?]

/-- A slot keeps the first accept that it takes. -/
theorem LiveSlot.Digests.accept (h : s.Digests n) (r : Replica) (slot : Slot) (a : Accept) :
    (r.apply slot s (.accept a)).2.1.Digests ⟨n.accept?.or (some a), n.committed⟩ := by
  have haccepted := h.accepted
  have hcommand := h.command
  simp only [Replica.apply, onAccept]
  cases hn : n.accept? with
  | some first =>
      rw [hn, Option.isSome_some] at haccepted
      rw [if_pos haccepted, Option.some_or, ← hn]
      exact h
  | none =>
      rw [hn, Option.isSome_none] at haccepted
      rw [Notice.command?, hn, Option.bind_none] at hcommand
      rw [if_neg (by simp [haccepted])]
      constructor
      case applied => exact h.applied
      case accepted => rfl
      case id => rfl
      case command => simp [Notice.command?, hcommand]
      case phase =>
        dsimp only
        rw [← h.phase]
        split
        · rename_i hstart
          simp [hstart]
        · rfl

/-- A slot that takes a commit is committed. -/
theorem LiveSlot.Digests.commit (h : s.Digests n) (r : Replica) (slot : Slot) (b : Commit) :
    (r.apply slot s (.commit b)).2.1.Digests ⟨n.accept?, true⟩ := by
  simp only [Replica.apply, slot_commitSlot]
  exact ⟨h.applied, h.accepted, h.id, h.command, by simp⟩

/-- A slot can execute once what has come for it is ready. -/
theorem LiveSlot.Digests.executable (h : s.Digests n) (hn : n.Ready) :
    s.executable?.isSome = true := by
  obtain ⟨c, hc⟩ := Option.isSome_iff_exists.1 hn.2
  obtain ⟨a, ha, -⟩ := Option.bind_eq_some_iff.1 hc
  have hid : s.id = some a.id := by rw [h.id, ha, Option.map_some]
  have hcommand : s.command = some c := by rw [h.command, hc]
  simp [LiveSlot.executable?, h.applied, h.phase.2 hn.1, hid, hcommand]

/-! ### All slots -/

namespace Digests

theorem current (h : r.Digests id config known) : r.Current := fun _ _ => h.executed_le

theorem of_live (h : r.Digests id config known) (hs : r.live[slot]? = some s) :
    s.Digests (known slot) := by
  simpa [hs] using h.slots slot (h.executed_le hs)

theorem unapplied (h : r.Digests id config known) : r.Unapplied :=
  fun _ _ hs => (h.of_live hs).applied

theorem congr (h : r.Digests id config known) (hid : r'.id = r.id) (hconfig : r'.config = r.config)
    (hlive : r'.live = r.live) (hexec : r'.executed = r.executed) (hstore : r'.store = r.store) :
    r'.Digests id config known where
  id_eq := hid.trans h.id_eq
  config_eq := hconfig.trans h.config_eq
  executed_le := h.current.congr hlive hexec _ _
  slots := by
    rw [hlive, hexec]
    exact h.slots
  ready := by
    rw [hexec]
    exact h.ready
  history := by
    rw [hexec, hstore]
    exact h.history

/-- Writing what has come for one slot. -/
theorem putSlot (h : r.Digests id config known) (hexec : r.executed ≤ slot)
    (hs : s.Digests (known' slot)) (hother : ∀ other, other ≠ slot → known' other = known other) :
    (r.putSlot slot s).Digests id config known' where
  id_eq := h.id_eq
  config_eq := h.config_eq
  executed_le := h.current.putSlot hexec _ _
  slots other hle := by
    rw [live_putSlot, Std.ExtTreeMap.getElem?_insert]
    split
    · rename_i heq
      rw [← Std.LawfulEqOrd.eq_of_compare heq]
      exact hs
    · rename_i hne
      rw [hother other fun heq => hne (Std.compare_eq_iff_eq.2 heq.symm)]
      exact h.slots other hle
  ready other hlt := by
    rw [hother other (Nat.ne_of_lt (Nat.lt_of_lt_of_le hlt hexec))]
    exact h.ready other hlt
  history := by
    obtain ⟨commands, hcommands, hstore⟩ := h.history
    refine ⟨commands, hcommands ▸ List.map_congr_left fun other hmem => ?_, hstore⟩
    rw [hother other (Nat.ne_of_lt (Nat.lt_of_lt_of_le (List.mem_range.1 hmem) hexec))]

/-- Executing the next slot applies the command that came for it. -/
theorem execute {cid : CommandId} {c : Command} (h : r.Digests id config known)
    (hs : r.live[slot]? = some s) (hx : s.executable? = some (cid, c)) (hturn : slot ≤ r.executed) :
    ((r.execute slot s cid c).1.dropSlot slot).Digests id config known := by
  obtain ⟨-, hphase, -, hcommand⟩ := LiveSlot.executable?_eq_some hx
  obtain rfl : slot = r.executed := Nat.le_antisymm hturn (h.executed_le hs)
  have hdigests := h.of_live hs
  have hexec := r.executed_execute cid c r.executed s
  constructor
  case id_eq => exact (r.id_execute cid c r.executed s).trans h.id_eq
  case config_eq => exact (r.config_execute cid c r.executed s).trans h.config_eq
  case executed_le => exact h.current.execute hs hturn _ _
  case slots =>
    intro other hle
    rw [hexec] at hle
    rw [getElem?_live_executed, if_neg (Nat.ne_of_lt hle)]
    exact h.slots other (Nat.le_of_lt hle)
  case ready =>
    intro other hlt
    rw [hexec] at hlt
    rcases Nat.lt_succ_iff_lt_or_eq.1 hlt with hlt | rfl
    · exact h.ready other hlt
    · refine ⟨hdigests.phase.1 hphase, ?_⟩
      rw [← hdigests.command, hcommand, Option.isSome_some]
  case history =>
    obtain ⟨commands, hcommands, hstore⟩ := h.history
    refine ⟨commands ++ [c], ?_, ?_⟩
    · rw [hexec, List.range_succ, List.map_append, List.map_append, hcommands, List.map_singleton,
        List.map_singleton, ← hdigests.command, hcommand]
    · obtain ⟨_, _, _, _, _, -, hframe⟩ := r.execute_frame cid c r.executed s
      rw [Store.executeAll_append, ← hstore, hframe]
      rfl

end Digests

/-- As long as no event comes in, each slot holds what has come for it. -/
theorem Change.digests (h : r.Digests id config known)
    (hc : Change (fun _ _ => False) r effects r') : r'.Digests id config known := by
  cases hc with
  | @opened slot hlive hexec =>
      have hnew := h.slots slot hexec
      rw [hlive, Option.getD_none] at hnew
      exact h.putSlot hexec hnew fun _ _ => rfl
  | took hs happlied hstale hfit => exact hfit.elim
  | @awaited slot s hs hexec =>
      obtain ⟨happlied, haccepted, hid, hcommand, hphase⟩ := h.of_live hs
      exact h.putSlot hexec ⟨happlied, haccepted, hid, hcommand, hphase⟩ fun _ _ => rfl
  | executed hs hx hturn => exact h.execute hs hx hturn

theorem Changes.digests (h : r.Digests id config known)
    (hc : Changes (fun _ _ => False) r effects r') : r'.Digests id config known :=
  hc.preserve (P := fun r _ => r.Digests id config known) (fun hp hc => hc.digests hp) [] h

/-! ### Handing events to slots -/

/-- Stale events and events of executed slots change nothing. -/
theorem route_of_passed (hlive : ∀ {slot : Slot} {s}, r.live[slot]? = some s → r.executed ≤ slot)
    (hwake : event.isStale r.config.ballot = true ∨ slot < r.executed) :
    r.route slot event = (r, []) := by
  have hclaim : r.claim slot event = none := by
    unfold claim
    split
    · rfl
    · rename_i hstale
      have hlt := hwake.resolve_left hstale
      split
      · rename_i s hs
        exact absurd (hlive hs) (Nat.not_le.2 hlt)
      · rw [if_pos (.inr (by simpa [isExecuted] using hlt))]
  unfold route
  rw [hclaim]

namespace Digests

/-- A slot that has not executed takes an event of the epoch; what has come for any other slot is
as it was. -/
theorem route (h : r.Digests id config known) (hwake : event ≠ .wake)
    (hkeep : ∀ other, (other = slot → event.isStale config.ballot = true ∨ slot < r.executed) →
      known' other = known other)
    (htakes : event.isStale config.ballot = false → ∀ (r : Replica) (s : LiveSlot),
      s.Digests (known slot) → (r.apply slot s event).2.1.Digests (known' slot)) :
    (r.route slot event).1.Digests id config known' := by
  by_cases hpassed : event.isStale config.ballot = true ∨ slot < r.executed
  · obtain rfl : known' = known := funext fun other => hkeep other fun _ => hpassed
    rw [← h.config_eq] at hpassed
    rw [route_of_passed h.executed_le hpassed]
    exact h
  · rw [not_or, Bool.not_eq_true, Nat.not_lt] at hpassed
    obtain ⟨hstale, hexec⟩ := hpassed
    obtain ⟨r₁, s, opened, rest, (hopened : Changes (fun _ _ => False) r opened r₁), hs, -, hrest,
      -⟩ := route_took h.unapplied (h.config_eq ▸ hstale) hwake hexec
    have h₁ := hopened.digests h
    obtain ⟨_, _, hframe⟩ := r₁.apply_frame slot s event
    have happly : (r₁.apply slot s event).1.Digests id config known := by
      rw [hframe]
      exact h₁.congr rfl rfl rfl rfl rfl
    refine hrest.digests (happly.putSlot ?_ (htakes hstale r₁ s (h₁.of_live hs)) ?_)
    · rw [executed_apply]
      exact h₁.executed_le hs
    · exact fun other hne => hkeep other fun heq => absurd heq hne

theorem route_accept (h : r.Digests id config (Notice.ofArrivals config.ballot accepts commits))
    (a : Accept) : (r.route a.slot (.accept a)).1.Digests id config
      (Notice.ofArrivals config.ballot (accepts ++ [a]) commits) := by
  refine h.route (by simp) (fun other hpassed => ?_) fun hstale r s hs => ?_
  · simp only [Notice.ofArrivals, List.find?_append, Notice.mk.injEq, and_true]
    by_cases hhit : a.ballot = config.ballot ∧ a.slot = other
    · -- a slot that has executed has taken an earlier accept
      obtain ⟨hballot, rfl⟩ := hhit
      have hlt := (hpassed rfl).resolve_left (by simp [Event.isStale, Event.ballot?, hballot])
      exact Option.or_of_isSome (Option.isSome_of_isSome_bind (h.ready _ hlt).2)
    · simp [hhit]
  · have hballot : a.ballot = config.ballot := by
      simpa [Event.isStale, Event.ballot?] using hstale
    have hnext := hs.accept r a.slot a
    simpa [Notice.ofArrivals, List.find?_append, hballot] using hnext

theorem route_commit (h : r.Digests id config (Notice.ofArrivals config.ballot accepts commits))
    (b : Commit) : (r.route b.slot (.commit b)).1.Digests id config
      (Notice.ofArrivals config.ballot accepts (commits ++ [b])) := by
  refine h.route (by simp) (fun other hpassed => ?_) fun hstale r s hs => ?_
  · simp only [Notice.ofArrivals, Notice.mk.injEq, true_and, decide_eq_decide, List.mem_append,
      List.mem_singleton, or_iff_left_iff_imp]
    -- a slot that has executed has taken an earlier commit
    rintro rfl
    have hlt := (hpassed rfl).resolve_left (by simp [Event.isStale, Event.ballot?])
    simpa [Notice.ofArrivals] using (h.ready _ hlt).1
  · have hballot : b.ballot = config.ballot := by
      simpa [Event.isStale, Event.ballot?] using hstale
    have hnext := hs.commit r b.slot b
    simpa [Notice.ofArrivals, ← hballot] using hnext

end Digests

/-! ### Handling a message -/

/-- Hands accepts to their slots. -/
def routeAccepts (r : Replica) (accepts : List Accept) : Replica :=
  accepts.foldl (fun r a => (r.route a.slot (.accept a)).1) r

/-- Hands commits to their slots. -/
def routeCommits (r : Replica) (commits : List Commit) : Replica :=
  commits.foldl (fun r b => (r.route b.slot (.commit b)).1) r

theorem performAll_accepts (r : Replica) (accepts : List Accept) :
    (r.performAll (accepts.map fun a => .route a.slot (.accept a))).1 = r.routeAccepts accepts := by
  induction accepts generalizing r with
  | nil => rfl
  | cons a accepts ih => exact ih (r.route a.slot (.accept a)).1

/-- A replica that does not lead notes a message and hands on the accepts or commits in it. -/
theorem handle_of_not_isLeader (hleader : r.isLeader = false) (m : ReplicaMessage) :
    (r.handle m).1 = ((r.noted m).routeAccepts m.accepts).routeCommits m.commits := by
  cases m with
  | propose body =>
      cases hknown : r.witnessed.contains body.id <;>
        simp [handle, noted, respond, hleader, witnessPropose, hknown, performAll, perform,
          ReplicaMessage.accepts, ReplicaMessage.commits, routeAccepts, routeCommits]
  | sync body =>
      simp [handle, noted, respond, respondSync, hleader, performAll, ReplicaMessage.accepts,
        ReplicaMessage.commits, routeAccepts, routeCommits]
  | weakPropose body =>
      rw [handle_weak_of_not_isLeader hleader rfl rfl, noted_weak_of_not_isLeader hleader rfl rfl]
      rfl
  | causalPropose body =>
      rw [handle_weak_of_not_isLeader hleader rfl rfl, noted_weak_of_not_isLeader hleader rfl rfl]
      rfl
  | accept a => rfl
  | acceptAck a =>
      simp [handle, noted, respond, ackSteps, hleader, performAll, ReplicaMessage.accepts,
        ReplicaMessage.commits, routeAccepts, routeCommits]
  | commit b => rfl
  | batch b =>
      have hacks : b.acks.flatMap r.ackSteps = [] := by simp [ackSteps, hleader]
      simp only [handle, noted, respond, hacks, List.append_nil, performAll_accepts]
      rfl

namespace Digests

theorem routeAccepts (h : r.Digests id config (Notice.ofArrivals config.ballot accepts commits))
    (more : List Accept) : (r.routeAccepts more).Digests id config
      (Notice.ofArrivals config.ballot (accepts ++ more) commits) := by
  induction more generalizing r accepts with
  | nil =>
      rw [List.append_nil]
      exact h
  | cons a more ih =>
      rw [List.append_cons]
      exact ih (h.route_accept a)

theorem routeCommits (h : r.Digests id config (Notice.ofArrivals config.ballot accepts commits))
    (more : List Commit) : (r.routeCommits more).Digests id config
      (Notice.ofArrivals config.ballot accepts (commits ++ more)) := by
  induction more generalizing r commits with
  | nil =>
      rw [List.append_nil]
      exact h
  | cons b more ih =>
      rw [List.append_cons]
      exact ih (h.route_commit b)

/-- After a message each slot holds what has come for it, in that message or before. -/
theorem handle (h : r.Digests id config (Notice.ofArrivals config.ballot accepts commits))
    (hleader : config.isLeader id = false) (m : ReplicaMessage) :
    (r.handle m).1.Digests id config
      (Notice.ofArrivals config.ballot (accepts ++ m.accepts) (commits ++ m.commits)) := by
  have hfollower : r.isLeader = false := by rw [isLeader, h.config_eq, h.id_eq, hleader]
  obtain ⟨⟨_, _, _, _, _, _, hframe⟩, -⟩ := noted_noted r m
  have hnoted : (r.noted m).Digests id config
      (Notice.ofArrivals config.ballot accepts commits) := by
    rw [hframe]
    exact h.congr rfl rfl rfl rfl rfl
  rw [handle_of_not_isLeader hfollower]
  exact (hnoted.routeAccepts m.accepts).routeCommits m.commits

end Digests

theorem digests_initial (id : ReplicaId) (config : Config) :
    (initial id config).Digests id config (Notice.ofArrivals config.ballot [] []) where
  id_eq := rfl
  config_eq := rfl
  executed_le hs := by simp [initial] at hs
  slots slot _ := by simpa [initial, Notice.ofArrivals] using LiveSlot.digests_new
  ready slot hlt := absurd hlt (Nat.not_lt_zero slot)
  history := ⟨[], rfl, rfl⟩

/-- Between two messages no slot is left that could execute. -/
theorem steady_handle (h : ∃ top, r.Steady top ∅) (m : ReplicaMessage) :
    ∃ top, (r.handle m).1.Steady top ∅ := by
  obtain ⟨top, h⟩ := h
  have hnoted : (r.noted m).Steady top ∅ := (noted_noted r m).steady h
  obtain ⟨effects, hroutes, -⟩ := routes_handle (r := r) (m := m) fun _ _ _ => trivial
  refine hroutes.preserve (P := fun r => ∃ top, r.Steady top ∅) ?_ ⟨top, hnoted⟩
  rintro r slot event ⟨top, h⟩ -
  exact ⟨max top (slot + 1), (h.mono (Nat.le_max_left ..)).route
    (Nat.lt_of_lt_of_le (Nat.lt_succ_self slot) (Nat.le_max_right ..)) event⟩

end Replica

end WitnessReplication
