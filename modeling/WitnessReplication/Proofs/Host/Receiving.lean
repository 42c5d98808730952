import WitnessReplication.Proofs.Host.Serving
import WitnessReplication.Proofs.Replica.Digesting

/-!
# What a message brings to a host

A message hands events to slots (`Replica.Event.Brought`), makes the replica say something, and may
bring a weak command, for which the leader's host starts a task. `handle_eq` puts this together:
after the replica has noted the message, a host only moves, and then it may start one task.
-/

namespace WitnessReplication

/-- The weak command in a message. -/
def ReplicaMessage.weakCommand? : ReplicaMessage → Option Replica.WeakCommand
  | .weakPropose m => some ⟨m.id, m.command, m.causalDep, false⟩
  | .causalPropose m => some ⟨m.id, m.command, m.causalDep, true⟩
  | _ => none

namespace Replica

/-- A message hands an event to a slot. What it proposes is a strong command that is not answered as
a weak one. -/
def Event.Brought (m : ReplicaMessage) (slot : Slot) : Event → Prop
  | .propose p => (∃ body, m = .propose body ∧ p.id = body.id) ∧ p.weak = false ∧ p.reply = false
  | .accept a => slot = a.slot ∧ a ∈ m.accepts
  | .acceptAck a => slot = a.slot
  | .commit b => slot = b.slot
  | .wake => False

variable {r : Replica} {m : ReplicaMessage}

/-- The leader has every weak command to put in order that it is handed. -/
theorem weak_respond (hleader : r.isLeader = true) (m : ReplicaMessage) :
    (r.respond m).weak = m.weakCommand? := by
  cases m with
  | propose body =>
      simp only [respond, hleader, if_true, leadPropose, ReplicaMessage.weakCommand?]
      split
      · rfl
      · split <;> rfl
  | sync body =>
      simp only [respond, respondSync, hleader, ReplicaMessage.weakCommand?]
      split
      · rfl
      · split <;> rfl
  | weakPropose body => rw [respond, respondWeak_of_isLeader hleader]; rfl
  | causalPropose body => rw [respond, respondWeak_of_isLeader hleader]; rfl
  | accept a => rfl
  | acceptAck a => rfl
  | commit b => rfl
  | batch b => rfl

/-- A replica hands on the events that a message brings. -/
theorem brought_respond {slot : Slot} {event : Event}
    (hstep : .route slot event ∈ (r.respond m).steps) : event.Brought m slot := by
  have hweak : ∀ (body : WeakPropose) (causal : Bool),
      .route slot event ∉ (r.respondWeak body causal).steps := by
    intro body causal hstep
    obtain ⟨-, -, spoken, hsteps, -⟩ := plain_respondWeak (r := r) body causal
    rw [hsteps] at hstep
    simp at hstep
  cases m with
  | propose body =>
      simp only [respond, leadPropose, witnessPropose] at hstep
      split at hstep
      · split at hstep
        · simp at hstep
        · split at hstep
          · simp at hstep
          · simp only [List.mem_cons, reduceCtorEq, Step.route.injEq, List.not_mem_nil, or_false]
              at hstep
            obtain ⟨-, rfl⟩ := hstep
            exact ⟨⟨body, rfl, rfl⟩, rfl, rfl⟩
      · split at hstep <;> simp at hstep
  | sync body =>
      simp only [respond, respondSync] at hstep
      split at hstep
      · simp at hstep
      · split at hstep <;> simp at hstep
  | weakPropose body => exact absurd hstep (hweak body false)
  | causalPropose body => exact absurd hstep (hweak body true)
  | accept a =>
      obtain ⟨rfl, rfl⟩ := Step.route.inj (List.mem_singleton.1 hstep)
      exact ⟨rfl, List.mem_singleton.2 rfl⟩
  | acceptAck a =>
      obtain ⟨rfl, rfl⟩ := Step.route.inj (plain_ackSteps hstep)
      rfl
  | commit b =>
      obtain ⟨rfl, rfl⟩ := Step.route.inj (List.mem_singleton.1 hstep)
      rfl
  | batch b =>
      rcases List.mem_append.1 hstep with hstep | hstep
      · obtain ⟨a, ha, hroute⟩ := List.mem_map.1 hstep
        obtain ⟨rfl, rfl⟩ := Step.route.inj hroute
        exact ⟨rfl, ha⟩
      · obtain ⟨a, -, hstep⟩ := List.mem_flatMap.1 hstep
        obtain ⟨rfl, rfl⟩ := Step.route.inj (plain_ackSteps hstep)
        rfl

end Replica

namespace Host

open Replica (Effect Event)

variable {h : Host} {m : ReplicaMessage}

/-- A host whose replica has noted a message only moves, and then starts a task for the weak
command if the leader was handed one. -/
theorem handle_eq (fits : Slot → Event → Prop) (spoken : Effect → Prop)
    (hleader : h.replica.isLeader = true)
    (hfits : ∀ slot event, Event.Brought m slot event → fits slot event)
    (hspoken : ∀ effect, .emit effect ∈ (h.replica.respond m).steps → spoken effect) :
    ∃ h₁ signals, Moves fits spoken { h with replica := (h.replica.respond m).replica } signals h₁ ∧
      h.handle m = match m.weakCommand? with
        | none => (h₁, signals)
        | some w => ((h₁.spawnWeak w).1, signals ++ (h₁.spawnWeak w).2) := by
  have hsuits : ∀ step ∈ (h.replica.respond m).steps, Suits fits spoken step := by
    intro step hstep
    cases step with
    | emit effect => exact hspoken effect hstep
    | route slot event => exact hfits slot event (Replica.brought_respond hstep)
  have hmoves : Moves fits spoken { h with replica := (h.replica.respond m).replica } _ _ :=
    moves_performAll hsuits
  refine ⟨_, _, hmoves, ?_⟩
  cases hw : m.weakCommand? with
  | none => simp only [handle, Replica.weak_respond hleader, hw]
  | some w => simp only [handle, Replica.weak_respond hleader, hw]

end Host

end WitnessReplication
