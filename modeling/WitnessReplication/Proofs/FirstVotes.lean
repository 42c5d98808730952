import Mathlib.Data.List.Dedup
import WitnessReplication.Proofs.Certificate

/-!
# First votes

A certificate that needs the leader takes the first vote of each replica and no more. It completes
with the vote by which enough different replicas have voted, the leader among them (`Met`), and
then holds the first votes of all who have voted by then. So what a certificate has counted can be
read off the list of all votes that came, with repetitions (`Certificate.Open`).
-/

namespace WitnessReplication.Quorum

variable {α : Type} {size : Nat} {leader id : ReplicaId} {votes votes' : List (ReplicaId × α)}
variable {c : Certificate α} {vote : α}

/-- Enough different replicas have voted, the leader among them. -/
def Met (size : Nat) (leader : ReplicaId) (votes : List (ReplicaId × α)) : Prop :=
  size ≤ (votes.map Prod.fst).dedup.length ∧ (votes.lookup leader).isSome = true

instance : Decidable (Met size leader votes) :=
  inferInstanceAs (Decidable (_ ∧ _))

/-- A completed certificate holds the first vote of everybody who has voted. -/
structure Votes.Polls (leader : ReplicaId) (votes : List (ReplicaId × α)) (q : Votes α) :
    Prop where
  leader_eq : q.leader = votes.lookup leader
  mem_rest : ∀ vote, vote ∈ q.rest ↔ ∃ id, id ≠ leader ∧ votes.lookup id = some vote

/-- A certificate that needs the leader has not completed. It holds the first vote of everybody who
has voted, which is not enough. -/
structure Certificate.Open (size : Nat) (leader : ReplicaId) (votes : List (ReplicaId × α))
    (c : Certificate α) : Prop where
  threshold_eq : c.threshold = size
  leader_eq : c.leader = leader
  required : c.leaderRequired = true
  unfired : c.fired = false
  nodup : c.senders.Nodup
  lookup_eq : ∀ id, c.votes.lookup id = votes.lookup id
  unmet : ¬Met size leader votes

/-! ### Lists of votes -/

theorem mem_voters : id ∈ votes.map Prod.fst ↔ (votes.lookup id).isSome = true := by
  rw [List.lookup_isSome_iff, List.mem_map]
  exact exists_congr fun p => and_congr_right fun _ => by rw [beq_iff_eq, eq_comm]

/-- Where each replica votes once, the votes are the first votes. -/
theorem mem_iff_lookup (hnodup : (votes.map Prod.fst).Nodup) :
    (id, vote) ∈ votes ↔ votes.lookup id = some vote := by
  induction votes with
  | nil => simp
  | cons head votes ih =>
      rw [List.map_cons, List.nodup_cons] at hnodup
      rw [List.mem_cons, List.lookup_cons]
      by_cases hid : id = head.1
      · have hnot : (id, vote) ∉ votes := fun hmem =>
          hnodup.1 (hid ▸ List.mem_map_of_mem (f := Prod.fst) hmem)
        simp [hid ▸ hnot, hid, Prod.ext_iff, eq_comm]
      · have hother : (id == head.1) = false := beq_eq_false_iff_ne.2 hid
        simp [ih hnodup.2, hid, hother, Prod.ext_iff]

theorem not_met_nil : ¬Met size leader ([] : List (ReplicaId × α)) := by
  simp [Met]

/-- What is met stays so when more votes come. -/
theorem Met.append (h : Met size leader votes) (more : List (ReplicaId × α)) :
    Met size leader (votes ++ more) := by
  obtain ⟨hsize, hleader⟩ := h
  have hsubset : (votes.map Prod.fst).dedup ⊆ ((votes ++ more).map Prod.fst).dedup := by
    intro id hid
    rw [List.mem_dedup] at hid ⊢
    rw [List.map_append]
    exact List.mem_append_left _ hid
  constructor
  · exact Nat.le_trans hsize (List.subperm_of_subset (List.nodup_dedup _) hsubset).length_le
  · rw [List.lookup_append, Option.isSome_or, hleader, Bool.true_or]

/-- Only the first votes count. -/
theorem met_congr (h : ∀ id, votes.lookup id = votes'.lookup id) :
    Met size leader votes ↔ Met size leader votes' := by
  have hperm : (votes.map Prod.fst).dedup.Perm (votes'.map Prod.fst).dedup := by
    rw [List.perm_ext_iff_of_nodup (List.nodup_dedup _) (List.nodup_dedup _)]
    intro id
    rw [List.mem_dedup, List.mem_dedup, mem_voters, mem_voters, h]
  rw [Met, Met, hperm.length_eq, h]

/-! ### Counting -/

namespace Certificate

theorem isMet_iff (hnodup : c.senders.Nodup) (hrequired : c.leaderRequired = true) :
    c.isMet = true ↔ Met c.threshold c.leader c.votes := by
  have hlength : (c.votes.map Prod.fst).dedup.length = c.votes.length := by
    change c.senders.dedup.length = _
    rw [List.Nodup.dedup hnodup, senders, List.length_map]
  simp [isMet, Met, hrequired, hlength, leaderVote]

theorem polls_quorum (hnodup : c.senders.Nodup) : c.quorum.Polls c.leader c.votes where
  leader_eq := rfl
  mem_rest vote := by
    simp only [quorum, otherVotes, List.mem_map, List.mem_filter, decide_eq_true_eq]
    constructor
    · rintro ⟨⟨id, vote⟩, ⟨hmem, hid⟩, rfl⟩
      exact ⟨id, hid, (mem_iff_lookup hnodup).1 hmem⟩
    · rintro ⟨id, hid, hvote⟩
      exact ⟨(id, vote), ⟨(mem_iff_lookup hnodup).2 hvote, hid⟩, rfl⟩

namespace Open

theorem new (rule : Threshold) (replicas : Nat) (leader : ReplicaId) :
    (Certificate.new (α := α) rule replicas leader true).Open (rule.size replicas) leader [] where
  threshold_eq := rfl
  leader_eq := rfl
  required := rfl
  unfired := rfl
  nodup := List.nodup_nil
  lookup_eq _ := rfl
  unmet := not_met_nil

/-- One more vote leaves a certificate open, or it is the one by which enough have voted, and then
it completes the certificate. -/
theorem add (h : c.Open size leader votes) (sender : ReplicaId) (message : α) :
    (¬Met size leader (votes ++ [(sender, message)]) ∧ (c.add sender message).2 = none ∧
      (c.add sender message).1.Open size leader (votes ++ [(sender, message)])) ∨
    (Met size leader (votes ++ [(sender, message)]) ∧ (c.add sender message).1.fired = true ∧
      ∃ q, (c.add sender message).2 = some q ∧ q.Polls leader (votes ++ [(sender, message)])) := by
  by_cases hmem : sender ∈ c.senders
  · -- the vote is not the sender's first one, so the list of first votes stays as it is
    have hvoted : (votes.lookup sender).isSome = true := by
      rw [← h.lookup_eq]
      exact mem_voters.1 hmem
    have hsame : ∀ id, votes.lookup id = (votes ++ [(sender, message)]).lookup id := by
      intro id
      rw [List.lookup_append]
      by_cases hid : id = sender
      · rw [hid, Option.or_of_isSome hvoted]
      · have hother : (id == sender) = false := beq_eq_false_iff_ne.2 hid
        simp [List.lookup_cons, hother]
    have hadd : c.add sender message = (c, none) := Heard.add_eq (.inr hmem) message
    have hunmet : ¬Met size leader (votes ++ [(sender, message)]) :=
      fun hmet => h.unmet ((met_congr hsame).2 hmet)
    rw [hadd]
    exact .inl ⟨hunmet, rfl,
      { h with lookup_eq := fun id => (h.lookup_eq id).trans (hsame id), unmet := hunmet }⟩
  · have hnodup : ((c.votes ++ [(sender, message)]).map Prod.fst).Nodup := by
      rw [List.map_append, List.nodup_append]
      refine ⟨h.nodup, by simp, ?_⟩
      rintro id hid _ hsender rfl
      obtain rfl : id = sender := by simpa using hsender
      exact hmem hid
    have hlookup : ∀ id, (c.votes ++ [(sender, message)]).lookup id =
        (votes ++ [(sender, message)]).lookup id := fun id => by
      rw [List.lookup_append, List.lookup_append, h.lookup_eq]
    obtain ⟨rfl, rfl, hrequired, hunfired, -, -, -⟩ := h
    have hmet : isMet { c with votes := c.votes ++ [(sender, message)] } = true ↔
        Met c.threshold c.leader (votes ++ [(sender, message)]) :=
      (isMet_iff (c := { c with votes := c.votes ++ [(sender, message)] }) hnodup hrequired).trans
        (met_congr hlookup)
    have hnew : ¬(c.fired || c.senders.contains sender) = true := by
      simp [hunfired, hmem]
    unfold Certificate.add
    rw [if_neg hnew]
    dsimp only
    split
    · rename_i hdone
      refine .inr ⟨hmet.1 hdone, rfl, _, rfl, ?_, fun vote => ?_⟩
      · exact hlookup c.leader
      · have hpolls :=
          polls_quorum (c := { c with votes := c.votes ++ [(sender, message)] }) hnodup
        refine (hpolls.mem_rest vote).trans ?_
        simp only [hlookup]
    · rename_i hopen
      exact .inl ⟨fun hall => hopen (hmet.2 hall), rfl, rfl, rfl, hrequired, hunfired, hnodup,
        hlookup, fun hall => hopen (hmet.2 hall)⟩

end Open

end Certificate

end WitnessReplication.Quorum
