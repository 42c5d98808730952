import WitnessReplication.Proofs.Network.Vouching

/-!
# Runs that obey a rule

Some facts hold only of runs in which no message is lost, in which no message, or no weak command,
comes twice, or in which a client waits for each of its commands. Each such condition is a rule
for the single actions of a run, and `Chronicle.ReachableBy` holds of the chronicles that actions
which obey a rule lead to. What every action that obeys the rule keeps, those have
(`Chronicle.ReachableBy.induct`).
-/

namespace WitnessReplication

/-- The request that a letter brings, if it brings one. -/
def Network.Letter.request? : Letter → Option Request
  | .toReplica _ m => m.request?
  | .toClient _ _ => none

namespace Network

/-- Whether a letter brings a weak command. -/
def Letter.isWeakProposal (letter : Letter) : Bool := letter.request?.any Request.weak

/-- Which actions may be carried out in a network. -/
abbrev Rule := Network → Action → Bool

namespace Rule

/-- Everything may be carried out. -/
def any : Rule := fun _ _ => true

/-- No message is lost. -/
def lossless : Rule
  | _, .drop _ => false
  | _, _ => true

/-- No message is repeated. -/
def unrepeated : Rule
  | _, .duplicate _ => false
  | _, _ => true

/-- No weak command is repeated. -/
def weakOnce : Rule
  | n, .duplicate place => !(n.pool[place]?).any Letter.isWeakProposal
  | _, _ => true

/-- The client at a place issues a command only when all those before it have completed. -/
def sequential (client : Nat) : Rule
  | n, .propose place _ => place ≠ client || (n.clients[place]?).all fun c => c.inFlight = 0
  | n, .proposeWeak place _ => place ≠ client || (n.clients[place]?).all fun c => c.inFlight = 0
  | _, _ => true

/-- Both of two rules. -/
def both (rule rule' : Rule) : Rule := fun n action => rule n action && rule' n action

end Rule

/-- Whether every action of a run obeys a rule where it is carried out. -/
def obeys (rule : Rule) : Network → List Action → Bool
  | _, [] => true
  | n, action :: actions => rule n action && obeys rule (n.act action) actions

end Network

namespace Chronicle

open Network

/-- The chronicles that actions which obey a rule lead to. -/
inductive ReachableBy (rule : Rule) (config : Config) (bounds : List ReplicaId) :
    Chronicle → Prop
  | start {n : Network} (h : Network.start config bounds = .ok n) :
      ReachableBy rule config bounds (Chronicle.start n)
  | act {c : Chronicle} (action : Action) (hc : ReachableBy rule config bounds c)
      (hrule : rule c.network action = true) : ReachableBy rule config bounds (c.act action)

variable {rule rule' : Rule} {config : Config} {bounds : List ReplicaId} {c c' : Chronicle}
variable {action : Action} {place : Nat} {letter : Letter}

/-! ### Obeying a rule -/

theorem ReachableBy.reachable (hc : c.ReachableBy rule config bounds) :
    c.Reachable config bounds := by
  induction hc with
  | start hn => exact .start hn
  | act action _ _ ih => exact ih.act action

theorem Reachable.reachableBy (hc : c.Reachable config bounds) :
    c.ReachableBy .any config bounds := by
  induction hc with
  | start hn => exact .start hn
  | act action _ ih => exact ih.act action rfl

/-- What obeys a rule obeys every weaker one. -/
theorem ReachableBy.mono (hc : c.ReachableBy rule config bounds)
    (hrule : ∀ n action, rule n action = true → rule' n action = true) :
    c.ReachableBy rule' config bounds := by
  induction hc with
  | start hn => exact .start hn
  | act action _ hobeys ih => exact ih.act action (hrule _ _ hobeys)

theorem ReachableBy.left (hc : c.ReachableBy (rule.both rule') config bounds) :
    c.ReachableBy rule config bounds :=
  hc.mono fun _ _ h => (Bool.and_eq_true_iff.1 h).1

theorem ReachableBy.right (hc : c.ReachableBy (rule.both rule') config bounds) :
    c.ReachableBy rule' config bounds :=
  hc.mono fun _ _ h => (Bool.and_eq_true_iff.1 h).2

theorem ReachableBy.run (hc : c.ReachableBy rule config bounds) {actions : List Action}
    (hobeys : obeys rule c.network actions = true) :
    (c.run actions).ReachableBy rule config bounds := by
  induction actions generalizing c with
  | nil => exact hc
  | cons action actions ih =>
      obtain ⟨hfirst, hrest⟩ := Bool.and_eq_true_iff.1 hobeys
      exact ih (hc.act action hfirst) hrest

/-! ### What actions keep -/

/-- What every action that obeys the rule keeps, every chronicle that such actions lead to has. -/
theorem ReachableBy.induct {P : Chronicle → Prop}
    (hstart : ∀ n, Network.start config bounds = .ok n → P (Chronicle.start n))
    (hturn : ∀ c c' action, c.ReachableBy rule config bounds → c'.ReachableBy rule config bounds →
      rule c.network action = true → c.Turn action c' → P c → P c')
    (hc : c.ReachableBy rule config bounds) : P c := by
  induction hc with
  | start hn => exact hstart _ hn
  | @act c action hc hobeys ih =>
      exact hturn c _ action hc (hc.act action hobeys) hobeys (c.turn_act action) ih

/-! ### Actions and replicas -/

/-- In a delivery to a replica, that handles the message. -/
theorem handles_deliver {id : ReplicaId} {r : Replica} {m : ReplicaMessage}
    (hl : c.network.pool[place]? = some (.toReplica id m))
    (hr : c.network.replicas[id]? = some r) :
    c.Handles id r m ⟨⟨{ c.network.remove place with
        replicas := c.network.replicas.set id (r.step m).1 }.post (some id) (r.step m).2,
      c.log ++ if r.isLeader then r.assigned m else [], c.issued, c.completions⟩,
      c.handled ++ [⟨r, m⟩]⟩ := by
  refine ⟨hr, List.mem_of_getElem? hl, rfl, rfl, rfl, rfl, fun letter hmem => ?_⟩
  refine (List.mem_append.1 hmem).imp (fun hmem => List.eraseIdx_subset hmem) fun hmem => ?_
  obtain ⟨s, hsent, hmem⟩ := List.mem_flatMap.1 hmem
  obtain ⟨e, he, hes⟩ := List.mem_filterMap.1 hsent
  exact ⟨e, he, s, hes, _, hmem⟩

/-- An action leaves replicas and log as they are, or a replica handles a message. -/
theorem Turn.quiet_or_handles (h : c.Turn action c') (hs : c.Sound config) :
    c.Quiet c' ∨ ∃ id r m, c.Handles id r m c' := by
  have herase : ∀ {place : Nat}, ∀ letter ∈ c.network.pool.eraseIdx place,
      letter ∈ c.network.pool := fun letter hmem => List.eraseIdx_subset hmem
  cases h with
  | idle => exact .inl ⟨rfl, rfl, rfl, List.Subset.refl _, fun letter hmem => .inl hmem⟩
  | issued weak command haction hc => exact (Step.issued weak command hc).quiet_or_handles hs
  | lost hl hlost =>
      exact .inl ⟨rfl, rfl, rfl, List.Subset.refl _, fun letter hmem => .inl (herase _ hmem)⟩
  | repeated hl =>
      refine .inl ⟨rfl, rfl, rfl, List.Subset.refl _, fun letter hmem => .inl ?_⟩
      rcases List.mem_append.1 hmem with hmem | hmem
      · exact hmem
      · exact List.mem_singleton.1 hmem ▸ List.mem_of_getElem? hl
  | reacted hl hc =>
      refine .inl ⟨rfl, rfl, rfl, List.Subset.refl _, fun letter hmem => ?_⟩
      refine (List.mem_append.1 hmem).imp (herase letter) fun hmem => ?_
      obtain ⟨s, hsent, hmem⟩ := List.mem_flatMap.1 hmem
      have hbacked := hs.pool _ (List.mem_of_getElem? hl)
      obtain ⟨body, rfl⟩ := ((hs.clients.sound hc).handle hbacked).sent s hsent
      exact ⟨_, _, List.mem_singleton.1 hmem, trivial⟩
  | handled hl hr => exact .inr ⟨_, _, _, handles_deliver hl hr⟩

end Chronicle

end WitnessReplication
