import WitnessReplication.Proofs.Network.Spending

/-!
# Bounded traffic

Without repeated messages, a run puts no more messages in flight than its commands cost, each
`6 * replicas - 1` (`Chronicle.bounded_traffic`): a command raises the worth of the network by that
much at most, and each message that leaves the network lowers it. So once clients issue nothing
more, the messages in flight come to an end, in whatever order they are delivered.
-/

namespace WitnessReplication

open Network

/-- The messages that actions put in flight, one after another. -/
def Network.postedBy : Network → List Action → List Letter
  | _, [] => []
  | n, action :: actions => n.posted action ++ (n.act action).postedBy actions

theorem Network.postedBy_nil (n : Network) : n.postedBy [] = [] := rfl

theorem Network.postedBy_cons (n : Network) (action : Action) (actions : List Action) :
    n.postedBy (action :: actions) = n.posted action ++ (n.act action).postedBy actions := rfl

namespace Chronicle

/-- The delivery of some messages, each the one at the next of the places. -/
def deliveries (places : Nat → Nat) (count : Nat) : List Action :=
  (List.range count).map fun k => .deliver (places k)

/-- Each of the places is that of a message in flight, as long as there is one. -/
def Picks (c : Chronicle) (places : Nat → Nat) : Prop :=
  ∀ count, (c.run (deliveries places count)).network.pool ≠ [] →
    places count < (c.run (deliveries places count)).network.pool.length

variable {config : Config} {bounds : List ReplicaId} {c : Chronicle} {actions : List Action}
variable {places : Nat → Nat}

theorem network_act (c : Chronicle) (action : Action) :
    (c.act action).network = c.network.act action := rfl

theorem run_nil (c : Chronicle) : c.run [] = c := rfl

theorem run_cons (c : Chronicle) (action : Action) (actions : List Action) :
    c.run (action :: actions) = (c.act action).run actions := rfl

/-! ### Messages put in flight -/

/-- What a run puts in flight is paid for by its commands, or left in flight. -/
theorem Reachable.length_postedBy (hc : c.Reachable config bounds)
    (hobeys : obeys .unrepeated c.network actions = true) :
    (c.network.postedBy actions).length + c.network.pool.length +
        (c.run actions).network.worth config + config.commandCost * c.issued.length ≤
      c.network.worth config + (c.run actions).network.pool.length +
        config.commandCost * (c.run actions).issued.length := by
  induction actions generalizing c with
  | nil =>
      simp only [postedBy_nil, run_nil, List.length_nil]
      omega
  | cons action actions ih =>
      obtain ⟨hfirst, hrest⟩ := Bool.and_eq_true_iff.1 hobeys
      have hrun := ih (hc.act action) hrest
      have hworth := worth_act hc.staffed hfirst
      have hpool := congrArg List.length (c.network.kept_append_posted action)
      have hissued : (c.act action).issued.length =
          c.issued.length + (c.network.requested action).length := List.length_append
      rw [hissued, network_act, Nat.mul_add] at hrun
      rw [List.length_append] at hpool
      rw [postedBy_cons, run_cons, List.length_append]
      omega

/-- What is in flight after a run was so before or the run put it there. -/
theorem length_pool_run (c : Chronicle) (actions : List Action) :
    (c.run actions).network.pool.length ≤
      c.network.pool.length + (c.network.postedBy actions).length := by
  induction actions generalizing c with
  | nil => exact Nat.le_refl _
  | cons action actions ih =>
      have hrun := ih (c.act action)
      have hkept := c.network.length_kept_le action
      have hpool := congrArg List.length (c.network.kept_append_posted action)
      rw [network_act] at hrun
      rw [List.length_append] at hpool
      rw [postedBy_cons, run_cons, List.length_append]
      omega

/-! ### Deliveries -/

theorem run_deliveries_succ (c : Chronicle) (places : Nat → Nat) (count : Nat) :
    c.run (deliveries places (count + 1)) =
      (c.run (deliveries places count)).act (.deliver (places count)) := by
  simp [run, deliveries, List.range_succ]

/-- Delivering messages lowers the worth of the network with each of them, until there is none. -/
theorem Reachable.worth_deliveries (hc : c.Reachable config bounds) (hpicks : c.Picks places)
    (count : Nat) : (c.run (deliveries places count)).network.pool = [] ∨
      (c.run (deliveries places count)).network.worth config + count ≤ c.network.worth config := by
  induction count with
  | zero => exact .inr (Nat.le_refl _)
  | succ count ih =>
      rw [run_deliveries_succ]
      have hreachable := hc.run (deliveries places count)
      have hpicked := hpicks count
      generalize c.run (deliveries places count) = c' at ih hreachable hpicked ⊢
      by_cases hempty : c'.network.pool = []
      · left
        simp [network_act, Network.act, perform, hempty]
      · right
        have hpaid := ih.resolve_left hempty
        have hrule : Rule.unrepeated c'.network (.deliver (places count)) = true := rfl
        have hworth := worth_act hreachable.staffed hrule
        have hkept := List.length_eraseIdx_add_one (hpicked hempty)
        simp only [kept, requested, List.length_nil] at hworth
        rw [network_act]
        omega

/-- The messages in flight are delivered to the end by as many deliveries as the network is
worth. -/
theorem Reachable.pool_deliveries (hc : c.Reachable config bounds) (hpicks : c.Picks places) :
    (c.run (deliveries places (c.network.worth config))).network.pool = [] := by
  rcases hc.worth_deliveries hpicks (c.network.worth config) with hempty | hpaid
  · exact hempty
  · have hpool := (c.run (deliveries places (c.network.worth config))).network.length_pool_le
      config
    exact List.length_eq_zero_iff.1 (by omega)

/-- A run without repeated messages puts no more than `6 * replicas - 1` messages in flight for
each command, and from wherever a run gets to, delivering the messages in flight and those that
follow from them, in any order, comes to an end. -/
theorem bounded_traffic {n : Network} (hn : Network.start config bounds = .ok n)
    (actions : List Action) :
    (obeys .unrepeated n actions = true → (n.postedBy actions).length ≤
      (6 * config.replicas - 1) * ((start n).run actions).issued.length) ∧
    ∃ limit, (obeys .unrepeated n actions = true →
        limit ≤ (6 * config.replicas - 1) * ((start n).run actions).issued.length) ∧
      ∀ places, ((start n).run actions).Picks places →
        (((start n).run actions).run (deliveries places limit)).network.pool = [] := by
  have hc : (start n).Reachable config bounds := .start hn
  have hpool : (start n).network.pool.length ≤ (start n).network.worth config :=
    length_pool_le config _
  have hworth : (start n).network.worth config = 0 := Network.worth_start hn
  have hleft := ((start n).run actions).network.length_pool_le config
  have hlength := (start n).length_pool_run actions
  have hpaid : obeys .unrepeated n actions = true →
      (n.postedBy actions).length ≤ config.commandCost * ((start n).run actions).issued.length ∧
        ((start n).run actions).network.worth config ≤
          config.commandCost * ((start n).run actions).issued.length := by
    intro hobeys
    have hposted := hc.length_postedBy hobeys
    have hissued : config.commandCost * (start n).issued.length = 0 := Nat.mul_zero _
    have hnetwork : (start n).network = n := rfl
    rw [hnetwork] at hposted hlength hworth hpool
    constructor
    · omega
    · omega
  exact ⟨fun hobeys => (hpaid hobeys).1, _, fun hobeys => (hpaid hobeys).2,
    fun places hpicks => (hc.run actions).pool_deliveries hpicks⟩

/-- Two clients write one key; the first messages that follow are delivered. -/
def conflictingWrites : List Action :=
  [.propose 0 ⟨.put, 1, ⟨[118]⟩⟩, .propose 1 ⟨.put, 1, ⟨[119]⟩⟩,
    .deliver 0, .deliver 0, .deliver 0, .deliver 0]

/-- By then ten messages have been put in flight, of at most 22. -/
theorem bounded_traffic_pair :
    obeys .unrepeated History.pair.network conflictingWrites = true ∧
      (History.pair.network.postedBy conflictingWrites).length = 10 ∧
      (History.pair.network.postedBy conflictingWrites).length ≤ (6 * 2 - 1) * 2 ∧
      ∃ limit ≤ (6 * 2 - 1) * 2,
        (((start History.pair.network).run conflictingWrites).run
          (deliveries (fun _ => 0) limit)).network.pool = [] := by
  have hobeys : obeys .unrepeated History.pair.network conflictingWrites = true := by
    decide +kernel
  have hn : Network.start History.pairConfig [0, 0] = .ok History.pair.network := rfl
  obtain ⟨htraffic, limit, hlimit, hends⟩ := bounded_traffic hn conflictingWrites
  exact ⟨hobeys, by decide +kernel, htraffic hobeys, limit, hlimit hobeys,
    hends _ fun _ hsome => List.length_pos_iff.2 hsome⟩

end Chronicle

end WitnessReplication
