import WitnessReplication.Proofs.Network.Rules

/-!
# Moments of a run

Whatever a replica has handled in a run, there was a moment at which it did: the run had come to a
chronicle in which the message was in flight and the replica was as the handling has it
(`Chronicle.ReachableBy.exists_moment`). What holds of a replica that handles a message in a run
therefore holds of everything that replicas have handled so far.
-/

namespace WitnessReplication

namespace Chronicle

open Network

/-- The moment of a run at which, after certain handlings, another one happens: the chronicles
right before and right after it. -/
structure Moment (rule : Rule) (config : Config) (bounds : List ReplicaId) (c : Chronicle)
    (before : List Handling) (d : Handling) (c₀ c₁ : Chronicle) : Prop where
  reachable : c₀.ReachableBy rule config bounds
  reachable' : c₁.ReachableBy rule config bounds
  handled_eq : c₀.handled = before
  handles : c₀.Handles d.replica.id d.replica d.message c₁
  prefix_log : c₁.log <+: c.log
  issued_subset : c₁.issued ⊆ c.issued

variable {rule : Rule} {config : Config} {bounds : List ReplicaId} {c c' c₀ c₁ : Chronicle}
variable {before : List Handling} {d : Handling}

theorem Moment.mono (h : Moment rule config bounds c before d c₀ c₁) (hlog : c.log <+: c'.log)
    (hissued : c.issued ⊆ c'.issued) : Moment rule config bounds c' before d c₀ c₁ :=
  { h with
    prefix_log := h.prefix_log.trans hlog
    issued_subset := List.Subset.trans h.issued_subset hissued }

/-- Everything that has been handled was handled at some moment. -/
theorem ReachableBy.exists_moment (hc : c.ReachableBy rule config bounds)
    (hd : before ++ [d] <+: c.handled) :
    ∃ c₀ c₁, Moment rule config bounds c before d c₀ c₁ := by
  refine hc.induct (P := fun c => before ++ [d] <+: c.handled →
    ∃ c₀ c₁, Moment rule config bounds c before d c₀ c₁) (fun n hn hd => ?_)
    (fun c c' action hc hc' _ hturn ih hd => ?_) hd
  · simp [Chronicle.start] at hd
  · have hs := hc.reachable.history.sound
    rcases hturn.quiet_or_handles hs with hquiet | ⟨id, r, m, h⟩
    · obtain ⟨c₀, c₁, hmoment⟩ := ih (hquiet.handled_eq ▸ hd)
      exact ⟨c₀, c₁, hmoment.mono (hquiet.log_eq ▸ List.prefix_rfl) hquiet.issued_subset⟩
    · rw [h.handled_eq] at hd
      rcases List.prefix_concat_iff.1 hd with hlast | hearlier
      · obtain ⟨rfl, hsame⟩ := List.append_inj' hlast rfl
        obtain rfl := List.singleton_inj.1 hsame
        refine ⟨c, c', hc, hc', rfl, ?_, List.prefix_rfl, List.Subset.refl _⟩
        rw [h.id_eq hs]
        exact h
      · obtain ⟨c₀, c₁, hmoment⟩ := ih hearlier
        exact ⟨c₀, c₁, hmoment.mono (h.attends hs).prefix_log
          (h.issued_eq ▸ List.Subset.refl _)⟩

end Chronicle

end WitnessReplication
