import WitnessReplication.Registry

/-!
# Looks of waiters

A look of a waiter reaches every subscriber that it drops, itself apart, and subscribes at most the
waiter, whose goal does not hold then. It ends the wait as notified only if the goal holds, and as
timed out only if the goal does not hold and the deadline has come.
-/

namespace WitnessReplication.Registry

variable {κ τ : Type} [Ord κ] [Std.TransOrd κ] [Std.LawfulEqOrd κ] [DecidableEq τ]
variable {r : Registry κ τ} {t t' : τ} {key key' : κ} {deadline now : Nat} {goal : Bool}

omit [Std.LawfulEqOrd κ] in
theorem isSubscribed_eq_true : r.isSubscribed key t = true ↔ t ∈ r.subscribers key := by
  simp [isSubscribed]

omit [DecidableEq τ] in
theorem mem_subscribers_subscribe :
    t' ∈ (r.subscribe key t).subscribers key' ↔
      t' ∈ r.subscribers key' ∨ t' = t ∧ key' = key := by
  rw [subscribers_subscribe]
  split
  · rename_i heq
    obtain rfl := Std.LawfulEqOrd.eq_of_compare heq
    simp
  · rename_i hne
    have hkey : key' ≠ key := fun heq => hne (Std.compare_eq_iff_eq.2 heq.symm)
    simp [hkey]

omit [DecidableEq τ] in
theorem mem_subscribers_close :
    t' ∈ (r.close key).1.subscribers key' ↔ t' ∈ r.subscribers key' ∧ key' ≠ key := by
  rw [subscribers_close]
  split
  · rename_i heq
    obtain rfl := Std.LawfulEqOrd.eq_of_compare heq
    simp
  · rename_i hne
    have hkey : key' ≠ key := fun heq => hne (Std.compare_eq_iff_eq.2 heq.symm)
    simp [hkey]

theorem mem_subscribers_unsubscribe :
    t' ∈ (r.unsubscribe key t).subscribers key' ↔
      t' ∈ r.subscribers key' ∧ ¬(t' = t ∧ key' = key) := by
  simp only [subscribers, unsubscribe, Std.ExtTreeMap.getElem?_alter]
  split
  · rename_i heq
    obtain rfl := Std.LawfulEqOrd.eq_of_compare heq
    cases r.channels[key]? with
    | none => simp
    | some ts => simp
  · rename_i hne
    have hkey : key' ≠ key := fun heq => hne (Std.compare_eq_iff_eq.2 heq.symm)
    simp [hkey]

/-- A look subscribes at most the waiter, whose goal does not hold then. -/
theorem of_mem_subscribers_look
    (h : t' ∈ (r.look t key deadline now goal).registry.subscribers key') :
    t' ∈ r.subscribers key' ∨ t' = t ∧ key' = key ∧ goal = false := by
  unfold look at h
  split at h
  · split at h
    · exact .inl (mem_subscribers_unsubscribe.1 h).1
    · exact .inl h
  · split at h
    · exact .inl (mem_subscribers_close.1 h).1
    · rename_i hgoal
      split at h
      · obtain ⟨h, hother⟩ := mem_subscribers_unsubscribe.1 h
        exact .inl ((mem_subscribers_subscribe.1 h).resolve_right hother)
      · refine (mem_subscribers_subscribe.1 h).imp_right fun ⟨ht, hkey⟩ => ⟨ht, hkey, ?_⟩
        simpa using hgoal

/-- Whoever a look drops is reached, unless it is the waiter, whose wait ends. -/
theorem mem_subscribers_look (h : t' ∈ r.subscribers key') :
    t' ∈ (r.look t key deadline now goal).registry.subscribers key' ∨
      t' ∈ (r.look t key deadline now goal).reached ∨
      t' = t ∧ (r.look t key deadline now goal).outcome ≠ none := by
  unfold look
  split
  · split
    · by_cases hself : t' = t ∧ key' = key
      · exact .inr (.inr ⟨hself.1, by simp⟩)
      · exact .inl (mem_subscribers_unsubscribe.2 ⟨h, hself⟩)
    · exact .inl h
  · split
    · by_cases hkey : key' = key
      · subst hkey
        exact .inr (.inl h)
      · exact .inl (mem_subscribers_close.2 ⟨h, hkey⟩)
    · split
      · by_cases hself : t' = t ∧ key' = key
        · exact .inr (.inr ⟨hself.1, by simp⟩)
        · exact .inl (mem_subscribers_unsubscribe.2 ⟨mem_subscribers_subscribe.2 (.inl h), hself⟩)
      · exact .inl (mem_subscribers_subscribe.2 (.inl h))

/-- A wait that goes on is subscribed, and its deadline has not come. -/
theorem look_waiting (h : (r.look t key deadline now goal).outcome = none) :
    t ∈ (r.look t key deadline now goal).registry.subscribers key ∧ now < deadline := by
  unfold look at h ⊢
  split
  · rename_i hsub
    rw [if_pos hsub] at h
    split
    · rename_i hdue
      rw [if_pos hdue] at h
      simp at h
    · rename_i hdue
      exact ⟨isSubscribed_eq_true.1 hsub, Nat.lt_of_not_le hdue⟩
  · rename_i hsub
    rw [if_neg hsub] at h
    split
    · rename_i hgoal
      rw [if_pos hgoal] at h
      simp at h
    · rename_i hgoal
      rw [if_neg hgoal] at h
      split
      · rename_i hdue
        rw [if_pos hdue] at h
        simp at h
      · rename_i hdue
        exact ⟨mem_subscribers_subscribe.2 (.inr ⟨rfl, rfl⟩), Nat.lt_of_not_le hdue⟩

omit [Std.LawfulEqOrd κ] in
/-- A wait times out at its deadline if the goal does not hold then. -/
theorem look_due (hdue : deadline ≤ now) :
    (r.look t key deadline now false).outcome = some .timedOut := by
  unfold look
  rw [if_pos hdue, if_pos hdue]
  split <;> rfl

omit [Std.LawfulEqOrd κ] in
theorem look_notified (h : (r.look t key deadline now goal).outcome = some .notified) :
    goal = true := by
  unfold look at h
  split at h
  · split at h
    · cases goal with
      | true => rfl
      | false => simp at h
    · simp at h
  · split at h
    · assumption
    · split at h <;> simp at h

omit [Std.LawfulEqOrd κ] in
theorem look_timedOut (h : (r.look t key deadline now goal).outcome = some .timedOut) :
    goal = false ∧ deadline ≤ now := by
  unfold look at h
  split at h
  · split at h
    · rename_i hdue
      cases goal with
      | true => simp at h
      | false => exact ⟨rfl, hdue⟩
    · simp at h
  · split at h
    · simp at h
    · rename_i hgoal
      split at h
      · rename_i hdue
        exact ⟨by simpa using hgoal, hdue⟩
      · simp at h

end WitnessReplication.Registry
