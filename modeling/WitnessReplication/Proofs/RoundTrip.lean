import WitnessReplication.Proofs.Json.Messages
import WitnessReplication.Proofs.Json.Scenarios

/-!
# Round trips

Messages to replicas, messages to clients and scenarios survive being written as text and parsed
(`Json.round_trip`), whether they were made or parsed from a text in the first place.
-/

namespace WitnessReplication.Json

/-- Every message to a replica, message to a client and scenario whose numbers keep to the widths of
their fields is parsed from its written form; and what was parsed from any text is parsed again
from the text written of it. -/
theorem round_trip :
    (∀ m : ReplicaMessage, m.InRange →
      (read? m.toJson.write).bind ReplicaMessage.ofJson? = some m) ∧
    (∀ m : ClientMessage, m.InRange →
      (read? m.toJson.write).bind ClientMessage.ofJson? = some m) ∧
    (∀ s : Scenario, s.InRange → (read? s.toJson.write).bind Scenario.ofJson? = some s) ∧
    (∀ text m, (read? text).bind ReplicaMessage.ofJson? = some m →
      (read? m.toJson.write).bind ReplicaMessage.ofJson? = some m) ∧
    (∀ text m, (read? text).bind ClientMessage.ofJson? = some m →
      (read? m.toJson.write).bind ClientMessage.ofJson? = some m) ∧
    ∀ text s, (read? text).bind Scenario.ofJson? = some s →
      (read? s.toJson.write).bind Scenario.ofJson? = some s :=
  ⟨fun _ => ReplicaMessage.faithful.read_write_text,
    fun _ => ClientMessage.faithful.read_write_text,
    fun _ => Scenario.faithful.read_write_text,
    fun _ _ => ReplicaMessage.faithful.reread_text,
    fun _ _ => ClientMessage.faithful.reread_text,
    fun _ _ => Scenario.faithful.reread_text⟩

/-- A batch with the largest numbers and the least key, a verdict without a dependency, and a
scenario that was given as an array with defaults left out. -/
theorem round_trip_extremes :
    let id : CommandId := ⟨UInt32.size - 1, UInt64.size - 1⟩
    let batch : ReplicaMessage := .batch
      ⟨[⟨UInt32.size - 1, id, UInt64.size - 1, some ⟨.put, -9223372036854775808, ⟨[0, 255]⟩⟩, true⟩,
        ⟨0, id, 0, none, false⟩], [⟨0, 7, UInt64.size - 1⟩]⟩
    let verdict : ClientMessage := .recordAck ⟨UInt64.size - 1, 0, id, .ordered, none⟩
    let text := "[ [3], [\x7b\"key\": -1, \"type\": \"get\", \"client\": 0\x7d] ]"
    let scenario : Scenario := ⟨{ replicas := 3 }, [.get 0 (-1)]⟩
    (batch.InRange ∧ (read? batch.toJson.write).bind ReplicaMessage.ofJson? = some batch) ∧
    (verdict.InRange ∧ (read? verdict.toJson.write).bind ClientMessage.ofJson? = some verdict) ∧
    ((read? text).bind Scenario.ofJson? = some scenario ∧
      (read? scenario.toJson.write).bind Scenario.ofJson? = some scenario) := by
  intro id batch verdict text scenario
  have hid : id.InRange := ⟨by decide, by decide⟩
  have hbatch : batch.InRange := by
    refine ⟨?_, List.forall_mem_singleton.2 ⟨by decide, by decide, by decide⟩⟩
    simp only [List.forall_mem_cons]
    refine ⟨⟨by decide, hid, by decide, ?_⟩, ⟨by decide, hid, by decide, ?_⟩, List.forall_mem_nil _⟩
    · intro c hc
      cases hc
      exact ⟨by decide, by decide⟩
    · exact fun c hc => by cases hc
  have hverdict : verdict.InRange := ⟨by decide, by decide, hid, fun _ hdep => by cases hdep⟩
  have htext : (read? text).bind Scenario.ofJson? = some scenario := by decide +kernel
  exact ⟨⟨hbatch, round_trip.1 batch hbatch⟩, ⟨hverdict, round_trip.2.1 verdict hverdict⟩,
    htext, round_trip.2.2.2.2.2 text scenario htext⟩

end WitnessReplication.Json
