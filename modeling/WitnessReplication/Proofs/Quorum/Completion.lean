import Mathlib.Data.Finset.Dedup
import Mathlib.Data.Finset.Card
import Mathlib.Data.List.Induction
import Mathlib.Data.Nat.Find
import Mathlib.Order.Bounds.Basic
import WitnessReplication.Proofs.Certificate

/-!
# When a certificate completes

Messages come to a certificate one after another; some are not acceptable, and a replica may send
more than one. The certificate completes with the last message of the shortest beginning in which
acceptable messages have come from enough different replicas, the leader among them if it is
required. It then gives the first acceptable message of each replica, and it completes only once
(`Certificate.completes`).

As long as it has not completed, a certificate holds exactly the first acceptable messages
(`Certificate.addAll_of_not_suffices`), and the message that completes it is the one by which they
suffice.
-/

namespace WitnessReplication.Quorum

variable {α : Type} {size : Nat} {leader id : ReplicaId} {required : Bool} {accepts : α → Bool}
variable {votes votes' : List (ReplicaId × α)} {vote : ReplicaId × α}

/-- The replicas from which an acceptable message has come. -/
def contributors (accepts : α → Bool) (votes : List (ReplicaId × α)) : Finset ReplicaId :=
  ((votes.filter fun vote => accepts vote.2).map Prod.fst).toFinset

/-- Acceptable messages have come from enough different replicas, the leader among them if it is
required. -/
def Reaches (size : Nat) (leader : ReplicaId) (required : Bool) (accepts : α → Bool)
    (votes : List (ReplicaId × α)) : Prop :=
  size ≤ (contributors accepts votes).card ∧
    (required = true → leader ∈ contributors accepts votes)

/-- What completes a certificate: acceptable messages from enough different replicas, and at least
one. -/
def Suffices (size : Nat) (leader : ReplicaId) (required : Bool) (accepts : α → Bool)
    (votes : List (ReplicaId × α)) : Prop :=
  Reaches size leader required accepts votes ∧ (contributors accepts votes).Nonempty

/-- The first acceptable message of each replica, in the order of arrival. -/
def firstVotes (accepts : α → Bool) : List (ReplicaId × α) → List (ReplicaId × α)
  | [] => []
  | vote :: votes =>
    if accepts vote.2 then
      vote :: (firstVotes accepts votes).filter fun later => later.1 ≠ vote.1
    else firstVotes accepts votes

/-! ### Who has contributed -/

theorem mem_contributors :
    id ∈ contributors accepts votes ↔ ∃ vote ∈ votes, accepts vote.2 = true ∧ vote.1 = id := by
  simp [contributors, and_assoc]

@[simp] theorem contributors_append (votes votes' : List (ReplicaId × α)) :
    contributors accepts (votes ++ votes') =
      contributors accepts votes ∪ contributors accepts votes' := by
  simp [contributors, List.toFinset_append]

theorem contributors_singleton (vote : ReplicaId × α) :
    contributors accepts [vote] = if accepts vote.2 = true then {vote.1} else ∅ := by
  by_cases haccepts : accepts vote.2 = true <;> simp [contributors, haccepts]

theorem contributors_mono (h : votes <+: votes') :
    contributors accepts votes ⊆ contributors accepts votes' := by
  obtain ⟨more, rfl⟩ := h
  rw [contributors_append]
  exact Finset.subset_union_left

/-- What suffices still does when more messages come. -/
theorem Suffices.mono (h : Suffices size leader required accepts votes)
    (hopening : votes <+: votes') : Suffices size leader required accepts votes' := by
  obtain ⟨⟨hsize, hleader⟩, hsome⟩ := h
  have hsubset : contributors accepts votes ⊆ contributors accepts votes' :=
    contributors_mono hopening
  exact ⟨⟨Nat.le_trans hsize (Finset.card_le_card hsubset), fun h => hsubset (hleader h)⟩,
    hsome.mono hsubset⟩

theorem not_suffices_nil : ¬Suffices size leader required accepts ([] : List (ReplicaId × α)) :=
  fun h => by simpa [contributors] using h.2

/-! ### First messages -/

/-- One more message is acceptable, and none such has come from its sender. -/
def IsFirst (accepts : α → Bool) (votes : List (ReplicaId × α)) (vote : ReplicaId × α) : Prop :=
  accepts vote.2 = true ∧ vote.1 ∉ contributors accepts votes

instance : Decidable (IsFirst accepts votes vote) :=
  inferInstanceAs (Decidable (_ ∧ _))

theorem isFirst_cons {head : ReplicaId × α} : IsFirst accepts (head :: votes) vote ↔
    IsFirst accepts votes vote ∧ ¬(accepts head.2 = true ∧ vote.1 = head.1) := by
  have hsplit : contributors accepts (head :: votes) =
      contributors accepts [head] ∪ contributors accepts votes :=
    contributors_append [head] votes
  rw [IsFirst, IsFirst, hsplit, contributors_singleton]
  by_cases hhead : accepts head.2 = true <;> simp [hhead, and_left_comm, and_comm]

theorem firstVotes_concat (votes : List (ReplicaId × α)) (vote : ReplicaId × α) :
    firstVotes accepts (votes ++ [vote]) =
      firstVotes accepts votes ++ if IsFirst accepts votes vote then [vote] else [] := by
  induction votes with
  | nil =>
      by_cases haccepts : accepts vote.2 = true <;>
        simp [firstVotes, IsFirst, contributors, haccepts]
  | cons head votes ih =>
      rw [List.cons_append, firstVotes, firstVotes, ih]
      by_cases hhead : accepts head.2 = true
      · by_cases hnew : IsFirst accepts votes vote
        · by_cases hsame : vote.1 = head.1 <;> simp [isFirst_cons, hhead, hnew, hsame]
        · simp [isFirst_cons, hhead, hnew]
      · simp [isFirst_cons, hhead]

theorem firstVotes_concat_new (h : IsFirst accepts votes vote) :
    firstVotes accepts (votes ++ [vote]) = firstVotes accepts votes ++ [vote] := by
  rw [firstVotes_concat, if_pos h]

theorem firstVotes_concat_idle (h : ¬IsFirst accepts votes vote) :
    firstVotes accepts (votes ++ [vote]) = firstVotes accepts votes := by
  rw [firstVotes_concat, if_neg h, List.append_nil]

theorem contributors_concat_new (h : IsFirst accepts votes vote) :
    contributors accepts (votes ++ [vote]) = insert vote.1 (contributors accepts votes) := by
  rw [contributors_append, contributors_singleton, if_pos h.1, Finset.union_comm,
    Finset.singleton_union]

theorem contributors_concat_idle (h : ¬IsFirst accepts votes vote) :
    contributors accepts (votes ++ [vote]) = contributors accepts votes := by
  rw [contributors_append, contributors_singleton, Finset.union_eq_left]
  split
  · rename_i haccepts
    exact Finset.singleton_subset_iff.2 (not_not.1 fun hnew => h ⟨haccepts, hnew⟩)
  · exact Finset.empty_subset _

/-- Each contributor has sent one of the first messages. -/
theorem senders_firstVotes (accepts : α → Bool) (votes : List (ReplicaId × α)) :
    ((firstVotes accepts votes).map Prod.fst).Nodup ∧
      ((firstVotes accepts votes).map Prod.fst).toFinset = contributors accepts votes := by
  induction votes using List.reverseRecOn with
  | nil => exact ⟨List.nodup_nil, rfl⟩
  | append_singleton votes vote ih =>
      obtain ⟨hnodup, hsenders⟩ := ih
      by_cases hnew : IsFirst accepts votes vote
      · have hsender : vote.1 ∉ (firstVotes accepts votes).map Prod.fst := by
          rw [← List.mem_toFinset, hsenders]
          exact hnew.2
        rw [firstVotes_concat_new hnew, contributors_concat_new hnew, ← hsenders, List.map_append]
        refine ⟨?_, by simp [List.toFinset_append, Finset.union_comm]⟩
        rw [List.map_singleton, ← List.concat_eq_append, List.nodup_concat]
        exact ⟨hsender, hnodup⟩
      · rw [firstVotes_concat_idle hnew, contributors_concat_idle hnew]
        exact ⟨hnodup, hsenders⟩

theorem mem_senders_firstVotes :
    id ∈ (firstVotes accepts votes).map Prod.fst ↔ id ∈ contributors accepts votes := by
  rw [← (senders_firstVotes accepts votes).2, List.mem_toFinset]

theorem length_firstVotes :
    (firstVotes accepts votes).length = (contributors accepts votes).card := by
  obtain ⟨hnodup, hsenders⟩ := senders_firstVotes accepts votes
  rw [← hsenders, List.toFinset_card_of_nodup hnodup, List.length_map]

/-- The first message of a replica is the first acceptable one that came from it. -/
theorem lookup_firstVotes (id : ReplicaId) : (firstVotes accepts votes).lookup id =
    (votes.find? fun vote => accepts vote.2 && vote.1 == id).map Prod.snd := by
  induction votes using List.reverseRecOn with
  | nil => rfl
  | append_singleton votes vote ih =>
      rw [firstVotes_concat, List.lookup_append, ih, List.find?_append]
      cases hfind : votes.find? fun vote => accepts vote.2 && vote.1 == id with
      | some first => rfl
      | none =>
          have hnone : id ∉ contributors accepts votes := by
            rw [mem_contributors]
            rintro ⟨vote, hvote, haccepts, hid⟩
            simpa [haccepts, hid] using List.find?_eq_none.1 hfind vote hvote
          obtain ⟨sender, m⟩ := vote
          by_cases hid : sender = id
          · subst hid
            by_cases haccepts : accepts m = true <;> simp [IsFirst, haccepts, hnone]
          · have hlookup :
                (if IsFirst accepts votes (sender, m) then [(sender, m)] else []).lookup id =
                  none := by
              split <;> simp [Ne.symm hid]
            simp [hlookup, hid]

namespace Certificate

/-! ### Counting messages one after another -/

/-- Counts messages one after another, and gives for each what it completed. -/
def addAll (accepts : α → Bool) (c : Certificate α) :
    List (ReplicaId × α) → Certificate α × List (Option (Votes α))
  | [] => (c, [])
  | vote :: votes =>
    let first := c.addIf accepts vote.1 vote.2
    let rest := first.1.addAll accepts votes
    (rest.1, first.2 :: rest.2)

variable {c : Certificate α}

theorem addAll_append (c : Certificate α) (votes votes' : List (ReplicaId × α)) :
    c.addAll accepts (votes ++ votes') =
      (((c.addAll accepts votes).1.addAll accepts votes').1,
        (c.addAll accepts votes).2 ++ ((c.addAll accepts votes).1.addAll accepts votes').2) := by
  induction votes generalizing c with
  | nil => rfl
  | cons vote votes ih => rw [List.cons_append, addAll, ih]; rfl

theorem addAll_concat (c : Certificate α) (votes : List (ReplicaId × α)) (vote : ReplicaId × α) :
    (c.addAll accepts (votes ++ [vote])).1 =
      ((c.addAll accepts votes).1.addIf accepts vote.1 vote.2).1 := by
  rw [addAll_append]
  rfl

theorem length_addAll (c : Certificate α) (votes : List (ReplicaId × α)) :
    (c.addAll accepts votes).2.length = votes.length := by
  induction votes generalizing c with
  | nil => rfl
  | cons vote votes ih => rw [addAll, List.length_cons, ih, List.length_cons]

/-- What a message completes depends on the messages before it. -/
theorem getElem?_addAll (c : Certificate α) (votes : List (ReplicaId × α)) (i : Nat) :
    (c.addAll accepts votes).2[i]? = votes[i]?.map fun vote =>
      ((c.addAll accepts (votes.take i)).1.addIf accepts vote.1 vote.2).2 := by
  induction votes generalizing c i with
  | nil => rfl
  | cons vote votes ih =>
      cases i with
      | zero => rfl
      | succ i => rw [addAll, List.getElem?_cons_succ, ih, List.getElem?_cons_succ]; rfl

/-- Every contributor has been heard. -/
theorem heard_addAll (c : Certificate α) (h : id ∈ contributors accepts votes) :
    (c.addAll accepts votes).1.Heard id := by
  induction votes using List.reverseRecOn with
  | nil => simp [contributors] at h
  | append_singleton votes vote ih =>
      rw [addAll_concat, addIf]
      rw [contributors_append, contributors_singleton, Finset.mem_union] at h
      split at h
      · rename_i haccepts
        rw [if_pos haccepts]
        rcases h with h | h
        · exact (ih h).add vote.1 vote.2
        · obtain rfl := Finset.mem_singleton.1 h
          exact heard_add _ vote.1 vote.2
      · rename_i haccepts
        rw [if_neg haccepts]
        exact ih (h.resolve_right (Finset.notMem_empty id))

/-- A message that is not acceptable or comes again changes nothing and completes nothing. -/
theorem addIf_idle (c : Certificate α) (h : ¬IsFirst accepts votes vote) :
    (c.addAll accepts votes).1.addIf accepts vote.1 vote.2 =
      ((c.addAll accepts votes).1, none) := by
  rw [addIf]
  split
  · rename_i haccepts
    exact (heard_addAll c (not_not.1 fun hnew => h ⟨haccepts, hnew⟩)).add_eq vote.2
  · rfl

/-- Only the first messages count. -/
theorem addAll_firstVotes (c : Certificate α) (votes : List (ReplicaId × α)) :
    (c.addAll accepts (firstVotes accepts votes)).1 = (c.addAll accepts votes).1 := by
  induction votes using List.reverseRecOn with
  | nil => rfl
  | append_singleton votes vote ih =>
      by_cases hnew : IsFirst accepts votes vote
      · rw [firstVotes_concat_new hnew, addAll_concat, addAll_concat, ih]
      · rw [firstVotes_concat_idle hnew, addAll_concat, addIf_idle c hnew, ih]

theorem fired_addAll (h : c.fired = true) (votes : List (ReplicaId × α)) :
    (c.addAll accepts votes).1.fired = true := by
  induction votes using List.reverseRecOn with
  | nil => exact h
  | append_singleton votes vote ih =>
      rw [addAll_concat, addIf]
      split
      · rw [fired_add, ih, Bool.true_or]
      · exact ih

/-! ### The message that completes a certificate -/

section Completing

variable (rule : Threshold) (replicas : Nat) (leader : ReplicaId) (required : Bool)

/-- A certificate that has counted the first messages, and that has completed or not. -/
def counted (accepts : α → Bool) (votes : List (ReplicaId × α)) (fired : Bool) : Certificate α :=
  ⟨rule.size replicas, leader, required, firstVotes accepts votes, fired⟩

theorem isMet_counted (accepts : α → Bool) (votes : List (ReplicaId × α)) (fired : Bool) :
    (counted rule replicas leader required accepts votes fired).isMet = true ↔
      Reaches (rule.size replicas) leader required accepts votes := by
  have hleader : ((firstVotes accepts votes).lookup leader).isSome = true ↔
      leader ∈ contributors accepts votes := by
    rw [← mem_senders_firstVotes, List.lookup_isSome_iff, List.mem_map]
    exact exists_congr fun vote => and_congr_right fun _ => by rw [beq_iff_eq, eq_comm]
  have hrequired : (!required || ((firstVotes accepts votes).lookup leader).isSome) = true ↔
      (required = true → leader ∈ contributors accepts votes) := by
    cases required <;> simp [hleader]
  rw [Reaches, ← length_firstVotes, ← hrequired, isMet, Bool.and_eq_true, decide_eq_true_eq]
  rfl

/-- What one more first message does: it completes the certificate if the messages then suffice. -/
theorem addIf_counted (hnew : IsFirst accepts votes vote) :
    ((counted rule replicas leader required accepts votes false).addIf accepts vote.1 vote.2 =
        (counted rule replicas leader required accepts (votes ++ [vote]) true,
          some (counted rule replicas leader required accepts (votes ++ [vote]) true).quorum) ∧
      Suffices (rule.size replicas) leader required accepts (votes ++ [vote])) ∨
    ((counted rule replicas leader required accepts votes false).addIf accepts vote.1 vote.2 =
        (counted rule replicas leader required accepts (votes ++ [vote]) false, none) ∧
      ¬Suffices (rule.size replicas) leader required accepts (votes ++ [vote])) := by
  have hsome : (contributors accepts (votes ++ [vote])).Nonempty :=
    ⟨vote.1, mem_contributors.2 ⟨vote, by simp, hnew.1, rfl⟩⟩
  have hmet := isMet_counted rule replicas leader required accepts (votes ++ [vote]) false
  have hsender : vote.1 ∉ (firstVotes accepts votes).map Prod.fst :=
    fun hmem => hnew.2 (mem_senders_firstVotes.1 hmem)
  have hadd : (counted rule replicas leader required accepts votes false).addIf accepts vote.1
      vote.2 =
        if (counted rule replicas leader required accepts (votes ++ [vote]) false).isMet then
          (counted rule replicas leader required accepts (votes ++ [vote]) true,
            some (counted rule replicas leader required accepts (votes ++ [vote]) true).quorum)
        else (counted rule replicas leader required accepts (votes ++ [vote]) false, none) := by
    rw [addIf, if_pos hnew.1, add, if_neg (by simpa [counted, senders] using hsender)]
    simp only [counted, firstVotes_concat_new hnew]
    rfl
  by_cases h : Reaches (rule.size replicas) leader required accepts (votes ++ [vote])
  · exact .inl ⟨by rw [hadd, if_pos (hmet.2 h)], h, hsome⟩
  · exact .inr ⟨by rw [hadd, if_neg fun hm => h (hmet.1 hm)], fun hs => h hs.1⟩

/-- As long as the messages do not suffice, a certificate holds the first ones. -/
theorem addAll_of_not_suffices
    (h : ¬Suffices (rule.size replicas) leader required accepts votes) :
    ((new rule replicas leader required).addAll accepts votes).1 =
      counted rule replicas leader required accepts votes false := by
  induction votes using List.reverseRecOn with
  | nil => rfl
  | append_singleton votes vote ih =>
      have hbefore : ¬Suffices (rule.size replicas) leader required accepts votes :=
        fun hs => h (hs.mono (List.prefix_append votes [vote]))
      by_cases hnew : IsFirst accepts votes vote
      · rw [addAll_concat, ih hbefore]
        rcases addIf_counted rule replicas leader required hnew with hadd | hadd
        · exact absurd hadd.2 h
        · rw [hadd.1]
      · rw [addAll_concat, addIf_idle _ hnew, ih hbefore, counted, counted,
          firstVotes_concat_idle hnew]

/-- What one more message completes, where the messages before it do not suffice. -/
theorem addIf_of_not_suffices
    (h : ¬Suffices (rule.size replicas) leader required accepts votes) (q : Votes α) :
    (((new rule replicas leader required).addAll accepts votes).1.addIf accepts vote.1 vote.2).2 =
        some q ↔
      Suffices (rule.size replicas) leader required accepts (votes ++ [vote]) ∧
        q = (counted rule replicas leader required accepts (votes ++ [vote]) true).quorum := by
  by_cases hnew : IsFirst accepts votes vote
  · rw [addAll_of_not_suffices rule replicas leader required h]
    rcases addIf_counted rule replicas leader required hnew with ⟨hadd, hs⟩ | ⟨hadd, hs⟩
    · simp [hadd, hs, eq_comm]
    · simp [hadd, hs]
  · rw [addIf_idle _ hnew, Suffices, Reaches, contributors_concat_idle hnew]
    simp only [reduceCtorEq, false_iff, not_and]
    exact fun hs => absurd hs h

/-- A certificate has completed when the messages suffice. -/
theorem fired_of_suffices (h : Suffices (rule.size replicas) leader required accepts votes) :
    ((new rule replicas leader required).addAll accepts votes).1.fired = true := by
  induction votes using List.reverseRecOn with
  | nil => exact absurd h not_suffices_nil
  | append_singleton votes vote ih =>
      rw [addAll_append]
      by_cases hbefore : Suffices (rule.size replicas) leader required accepts votes
      · exact fired_addAll (ih hbefore) [vote]
      · have hnew : IsFirst accepts votes vote := by
          by_contra hidle
          rw [Suffices, Reaches, contributors_concat_idle hidle] at h
          exact hbefore h
        rw [addAll_of_not_suffices rule replicas leader required hbefore]
        rcases addIf_counted rule replicas leader required hnew with ⟨hadd, -⟩ | ⟨-, hs⟩
        · rw [addAll, addAll, hadd]
          rfl
        · exact absurd h hs

/-- A certificate that has completed holds the first messages of a beginning that suffices. -/
theorem exists_counted_of_fired
    (h : ((new rule replicas leader required).addAll accepts votes).1.fired = true) :
    ∃ opening, opening <+: votes ∧
      Suffices (rule.size replicas) leader required accepts opening ∧
      ((new rule replicas leader required).addAll accepts votes).1 =
        counted rule replicas leader required accepts opening true := by
  induction votes using List.reverseRecOn with
  | nil => simp [addAll, new] at h
  | append_singleton votes vote ih =>
      by_cases hfired : ((new rule replicas leader required).addAll accepts votes).1.fired = true
      · obtain ⟨opening, hopening, hs, hc⟩ := ih hfired
        refine ⟨opening, hopening.trans (List.prefix_append votes [vote]), hs, ?_⟩
        rw [addAll_concat, ← hc, addIf]
        split
        · rw [add_of_fired hfired]
        · rfl
      · have hbefore : ¬Suffices (rule.size replicas) leader required accepts votes :=
          fun hs => hfired (fired_of_suffices rule replicas leader required hs)
        rw [addAll_concat] at h ⊢
        by_cases hnew : IsFirst accepts votes vote
        · rw [addAll_of_not_suffices rule replicas leader required hbefore] at h ⊢
          rcases addIf_counted rule replicas leader required hnew with ⟨hadd, hs⟩ | ⟨hadd, -⟩
          · exact ⟨votes ++ [vote], List.prefix_rfl, hs, by rw [hadd]⟩
          · rw [hadd] at h
            simp [counted] at h
        · rw [addIf_idle _ hnew] at h
          exact absurd h hfired

/-- A message completes a certificate if it is the last of the shortest beginning that suffices. -/
theorem getElem?_addAll_eq_some (i : Nat) (q : Votes α) :
    ((new rule replicas leader required).addAll accepts votes).2[i]? = some (some q) ↔
      IsLeast {n | Suffices (rule.size replicas) leader required accepts (votes.take n)} (i + 1) ∧
        q = (counted rule replicas leader required accepts (votes.take (i + 1)) true).quorum := by
  rw [getElem?_addAll]
  by_cases hlt : i < votes.length
  · have htake : votes.take (i + 1) = votes.take i ++ [votes[i]] :=
      (List.take_append_getElem hlt).symm
    rw [List.getElem?_eq_getElem hlt, Option.map_some, Option.some_inj, htake]
    by_cases hbefore : Suffices (rule.size replicas) leader required accepts (votes.take i)
    · have hfired := fired_of_suffices rule replicas leader required hbefore
      have hnone : (((new rule replicas leader required).addAll accepts (votes.take i)).1.addIf
          accepts votes[i].1 votes[i].2).2 = none := by
        rw [addIf]
        split
        · rw [add_of_fired hfired]
        · rfl
      rw [hnone]
      simp only [reduceCtorEq, false_iff, not_and]
      exact fun hleast => absurd (hleast.2 hbefore) (Nat.not_succ_le_self i)
    · rw [addIf_of_not_suffices rule replicas leader required hbefore]
      refine and_congr_left fun _ => ⟨fun hs => ⟨?_, fun n hn => ?_⟩, fun hleast => ?_⟩
      · rw [Set.mem_ofPred_eq, htake]
        exact hs
      · by_contra hle
        exact hbefore (Suffices.mono hn (List.take_prefix_take_left (by omega)))
      · rw [← htake]
        exact hleast.1
  · rw [List.getElem?_eq_none (Nat.not_lt.1 hlt), Option.map_none]
    simp only [reduceCtorEq, false_iff, not_and]
    rintro ⟨hs, hleast⟩
    have hall : Suffices (rule.size replicas) leader required accepts
        (votes.take votes.length) := by
      rw [Set.mem_ofPred_eq, List.take_of_length_le (by omega)] at hs
      rwa [List.take_length]
    have := hleast hall
    omega

/-- Some beginning suffices just if there is a message that completes the certificate. -/
theorem existsUnique_completing :
    (∃! i : Nat, ∃ q,
        ((new rule replicas leader required).addAll accepts votes).2[i]? = some (some q)) ↔
      ∃ opening, opening <+: votes ∧
        Suffices (rule.size replicas) leader required accepts opening := by
  simp only [getElem?_addAll_eq_some]
  constructor
  · rintro ⟨i, ⟨-, hleast, -⟩, -⟩
    exact ⟨votes.take (i + 1), List.take_prefix _ _, hleast.1⟩
  · rintro ⟨opening, hopening, hs⟩
    have hex : ∃ n, Suffices (rule.size replicas) leader required accepts (votes.take n) :=
      ⟨opening.length, by rwa [← List.prefix_iff_eq_take.1 hopening]⟩
    classical
    have hleast : IsLeast {n | Suffices (rule.size replicas) leader required accepts
        (votes.take n)} (Nat.find hex) := ⟨Nat.find_spec hex, fun n hn => Nat.find_le hn⟩
    obtain ⟨i, hi⟩ : ∃ i, Nat.find hex = i + 1 := by
      refine Nat.exists_eq_succ_of_ne_zero fun hzero => ?_
      have hspec := Nat.find_spec hex
      rw [hzero, List.take_zero] at hspec
      exact not_suffices_nil hspec
    rw [hi] at hleast
    refine ⟨i, ⟨_, hleast, rfl⟩, ?_⟩
    rintro j ⟨-, hj, -⟩
    exact Nat.succ_injective (hj.unique hleast)

end Completing

/-- For each message that is counted a certificate gives a quorum or nothing. It gives one just
once if in some beginning acceptable messages have come from enough different replicas, at least
one and the leader if it is required, and else never. The message that gives it is the last of the
shortest such beginning. The quorum holds the first acceptable message of the leader, if there is
one, and those of the others in the order of arrival. Messages that are not acceptable or come again
make no difference. -/
theorem completes (rule : Threshold) (replicas : Nat) (leader : ReplicaId) (required : Bool)
    (accepts : α → Bool) (votes : List (ReplicaId × α)) :
    let size := rule.size replicas
    let c : Certificate α := new rule replicas leader required
    (c.addAll accepts votes).2.length = votes.length ∧
    ((∃! i : Nat, ∃ q, (c.addAll accepts votes).2[i]? = some (some q)) ↔
      ∃ opening, opening <+: votes ∧ Suffices size leader required accepts opening) ∧
    (∀ i q, (c.addAll accepts votes).2[i]? = some (some q) ↔
      IsLeast {n | Suffices size leader required accepts (votes.take n)} (i + 1) ∧
        q.leader = ((votes.take (i + 1)).find? fun vote =>
          accepts vote.2 && vote.1 == leader).map Prod.snd ∧
        q.rest = ((firstVotes accepts (votes.take (i + 1))).filter fun vote =>
          vote.1 ≠ leader).map Prod.snd) ∧
    (c.addAll accepts votes).1 = (c.addAll accepts (firstVotes accepts votes)).1 := by
  intro size c
  refine ⟨length_addAll c votes, existsUnique_completing rule replicas leader required,
    fun i q => ?_, (addAll_firstVotes c votes).symm⟩
  rw [getElem?_addAll_eq_some, ← lookup_firstVotes]
  refine and_congr_right fun _ => ?_
  rcases q with ⟨leaderVote, rest⟩
  rw [quorum, Votes.mk.injEq]
  rfl

/-- In a cluster without replicas no message is needed for three quarters of them. A certificate
completes only with a message that is counted, and not when it rejects the one that comes. -/
theorem not_completes_rejected :
    let c : Certificate Int := new .threeQuarters 0 0 false
    let accepts : Int → Bool := fun m => decide (5 ≤ m)
    ¬((∃! i : Nat, ∃ q, (c.addAll accepts [(1, 0)]).2[i]? = some (some q)) ↔
      ∃ opening, opening <+: [(1, 0)] ∧
        Reaches (Threshold.size .threeQuarters 0) 0 false accepts opening) := by
  intro c accepts hiff
  obtain ⟨i, ⟨q, hq⟩, -⟩ := hiff.2 ⟨[], List.nil_prefix, by decide, by decide⟩
  have hresults : (c.addAll accepts [(1, 0)]).2 = [none] := by decide
  rw [hresults, List.getElem?_singleton] at hq
  split at hq <;> simp at hq

end Certificate

end WitnessReplication.Quorum
