import WitnessReplication.Proofs.Client.Absorbing
import WitnessReplication.Proofs.Client.Evidence
import WitnessReplication.Proofs.FirstVotes

/-!
# How a strong command ends

Two lists of votes decide about a pending strong command: those for the fast path, which are the
leader's results and the verdicts of the current epoch, and those for the slow path, in which the
leader votes by its committed results. As long as the command is pending its certificates hold the
first votes of these lists (`Client.Pending.Follows`). One more message ends the command on the
fast path if the fast votes suffice with it for the first time and agree, else on the slow path if
the slow votes suffice with it; otherwise the command stays pending (`Client.concludes_handle`).
-/

namespace WitnessReplication

open Quorum

namespace ClientMessage

/-- The vote for the fast path that a message brings a command in an epoch, with its sender. -/
def fastVote? (epoch : Ballot) (id : CommandId) : ClientMessage → Option (ReplicaId × Client.Vote)
  | .reply m => if m.id = id then some (m.replica, .ofReply m) else none
  | .recordAck m =>
    if m.id = id ∧ m.ballot = epoch then some (m.replica, .ofRecordAck m) else none
  | _ => none

/-- The vote for the slow path that a message brings a command in an epoch, with its sender. -/
def slowVote? (epoch : Ballot) (id : CommandId) : ClientMessage → Option (ReplicaId × Client.Vote)
  | .syncReply m => if m.id = id then some (m.replica, .ofReply m) else none
  | .recordAck m =>
    if m.id = id ∧ m.ballot = epoch then some (m.replica, .ofRecordAck m) else none
  | _ => none

end ClientMessage

namespace Client

/-- First votes agree on a value: the leader was clear and has it, nobody has refused, and all
others name the same weak write. -/
structure Agreed (leader : ReplicaId) (votes : List (ReplicaId × Vote)) (value : Value) : Prop where
  clear : ∃ vote, votes.lookup leader = some vote ∧ vote.ok = .clear ∧ vote.value = some value
  unrefused : ∀ id vote, votes.lookup id = some vote → vote.ok ≠ .refused
  same : ∀ id id' vote vote', id ≠ leader → id' ≠ leader → votes.lookup id = some vote →
    votes.lookup id' = some vote' → vote.weakDep = vote'.weakDep

/-- With the latest vote enough have voted for the fast path, and they agree. -/
structure Wins (config : Config) (before votes : List (ReplicaId × Vote)) (value : Value) :
    Prop where
  unmet : ¬Met config.fastQuorum config.leader before
  met : Met config.fastQuorum config.leader votes
  agreed : Agreed config.leader votes value

/-- The certificates of a pending command hold the first of some votes. Enough may have voted for
the fast path, but not for the slow one. -/
structure Pending.Follows (config : Config) (fast slow : List (ReplicaId × Vote)) (p : Pending) :
    Prop where
  fast : p.fast.Open config.fastQuorum config.leader fast ∨
    p.fast.fired = true ∧ Met config.fastQuorum config.leader fast
  slow : p.slow.Open config.majority config.leader slow

/-- What one more message makes of a pending command: it ends on the fast path, else on the slow
one, or it still follows the votes. -/
inductive Pending.Concludes (config : Config) (fast slow fast' slow' : List (ReplicaId × Vote)) :
    Pending → Decision → Prop
  | fast {p : Pending} {value : Value} (hwins : Wins config fast fast' value) :
      Concludes config fast slow fast' slow' p (.complete value .fast)
  | slow {p : Pending} (hnot : ∀ value, ¬Wins config fast fast' value)
      (hmet : Met config.majority config.leader slow') :
      Concludes config fast slow fast' slow' p
        (.complete (((slow'.lookup config.leader).bind Vote.value).getD .nil) .slow)
  | still {p : Pending} {decision : Decision} (hnot : ∀ value, ¬Wins config fast fast' value)
      (hdecision : ∀ value path, decision ≠ .complete value path)
      (hfollows : p.Follows config fast' slow') :
      Concludes config fast slow fast' slow' p decision

/-- What a reaction makes of a pending command, likewise. -/
inductive Reaction.Concludes (config : Config) (id : CommandId)
    (fast slow fast' slow' : List (ReplicaId × Vote)) (reaction : Reaction) : Prop
  | fast {value : Value} (hwins : Wins config fast fast' value)
      (hdone : reaction.completion = some ⟨id, value, .fast⟩)
  | slow (hnot : ∀ value, ¬Wins config fast fast' value)
      (hmet : Met config.majority config.leader slow')
      (hdone : reaction.completion =
        some ⟨id, ((slow'.lookup config.leader).bind Vote.value).getD .nil, .slow⟩)
  | still {p : Pending} (hnot : ∀ value, ¬Wins config fast fast' value)
      (hp : reaction.client.pending[id]? = some p) (hfollows : p.Follows config fast' slow')

variable {config : Config} {leader : ReplicaId}
variable {votes fast slow fast' slow' : List (ReplicaId × Vote)}
variable {q : Votes Vote} {value : Value} {p p' : Pending} {c : Client} {id id' : CommandId}
variable {count : Pending → Pending × Decision}

/-! ### Votes -/

/-- Votes name the same weak write if all name that of the first. -/
theorem any_other_dep_eq_false (rest : List Vote) :
    (rest.any fun w => some w.weakDep ≠ rest.head?.map Vote.weakDep) = false ↔
      ∀ w ∈ rest, ∀ w' ∈ rest, w.weakDep = w'.weakDep := by
  cases rest with
  | nil => simp
  | cons first rest =>
      simp only [List.any_eq_false, List.head?_cons, Option.map_some, decide_eq_true_eq, ne_eq,
        Option.some.injEq, not_not]
      constructor
      · intro hfirst w hw w' hw'
        exact (hfirst w hw).trans (hfirst w' hw').symm
      · exact fun hall w hw => hall w hw first (List.mem_cons_self ..)

theorem fastValue_eq_some_iff : fastValue q = some value ↔
    (∃ vote, q.leader = some vote ∧ vote.ok = .clear ∧ vote.value = some value) ∧
      (∀ w ∈ q.rest, w.ok ≠ .refused) ∧
        ∀ w ∈ q.rest, ∀ w' ∈ q.rest, w.weakDep = w'.weakDep := by
  have hrefused : (q.rest.any fun w => w.ok = .refused) = false ↔
      ∀ w ∈ q.rest, w.ok ≠ .refused := by
    simp
  rw [← hrefused, ← any_other_dep_eq_false]
  unfold fastValue
  cases q.leader with
  | none => simp
  | some vote =>
      dsimp only
      split
      · rename_i hnot
        refine iff_of_false (by simp) ?_
        rintro ⟨⟨_, hvote, hclear, -⟩, hany, hdeps⟩
        rw [← Option.some.inj hvote] at hclear
        simp only [hclear, hany, hdeps] at hnot
        simp at hnot
      · rename_i hall
        simp only [not_or, not_not, Bool.not_eq_true] at hall
        obtain ⟨hclear, hany, hdeps⟩ := hall
        rw [hany, hdeps]
        simp [hclear]

/-- A completed fast certificate has a value if the votes that it polls agree on that. -/
theorem fastValue_iff (h : q.Polls leader votes) :
    fastValue q = some value ↔ Agreed leader votes value := by
  rw [fastValue_eq_some_iff, h.leader_eq]
  constructor
  · rintro ⟨⟨vote, hvote, hclear, hvalue⟩, hunrefused, hsame⟩
    have hrest : ∀ id w, id ≠ leader → votes.lookup id = some w → w ∈ q.rest :=
      fun id w hid hw => (h.mem_rest w).2 ⟨id, hid, hw⟩
    constructor
    case clear => exact ⟨vote, hvote, hclear, hvalue⟩
    case unrefused =>
      intro id w hw
      by_cases hid : id = leader
      · rw [hid, hvote] at hw
        rw [← Option.some.inj hw, hclear]
        decide
      · exact hunrefused w (hrest id w hid hw)
    case same =>
      intro id id' w w' hid hid' hw hw'
      exact hsame w (hrest id w hid hw) w' (hrest id' w' hid' hw')
  · intro hagreed
    refine ⟨hagreed.clear, fun w hw => ?_, fun w hw w' hw' => ?_⟩
    · obtain ⟨id, -, hlookup⟩ := (h.mem_rest w).1 hw
      exact hagreed.unrefused id w hlookup
    · obtain ⟨id, hid, hlookup⟩ := (h.mem_rest w).1 hw
      obtain ⟨id', hid', hlookup'⟩ := (h.mem_rest w').1 hw'
      exact hagreed.same id id' w w' hid hid' hlookup hlookup'

theorem slowValue_eq (h : q.Polls leader votes) :
    slowValue q = ((votes.lookup leader).bind Vote.value).getD .nil := by
  rw [slowValue, h.leader_eq]

/-! ### One certificate -/

theorem not_wins_self : ¬Wins config votes votes value := fun h => h.unmet h.met

/-- A further vote for the fast path wins, or it completes nothing and the certificate follows. -/
theorem Pending.Follows.addFast (h : p.Follows config fast slow) (sender : ReplicaId)
    (vote : Vote) :
    (∃ q value, (p.fast.add sender vote).2 = some q ∧ fastValue q = some value ∧
      Wins config fast (fast ++ [(sender, vote)]) value) ∨
    ((∀ q, (p.fast.add sender vote).2 = some q → fastValue q = none) ∧
      (∀ value, ¬Wins config fast (fast ++ [(sender, vote)]) value) ∧
      Pending.Follows config (fast ++ [(sender, vote)]) slow
        { p with fast := (p.fast.add sender vote).1 }) := by
  rcases h.fast with hopen | ⟨hfired, hmet⟩
  · rcases hopen.add sender vote with ⟨hunmet, hnone, hnext⟩ | ⟨hmet, hfired, q, hq, hpolls⟩
    · exact .inr ⟨fun q hq => by simp [hnone] at hq, fun _ hwins => hunmet hwins.met,
        .inl hnext, h.slow⟩
    · cases hvalue : fastValue q with
      | some value =>
          exact .inl ⟨q, value, hq, hvalue, hopen.unmet, hmet, (fastValue_iff hpolls).1 hvalue⟩
      | none =>
          refine .inr ⟨fun q' hq' => ?_, fun value hwins => ?_, .inr ⟨hfired, hmet⟩, h.slow⟩
          · rw [← Option.some.inj (hq.symm.trans hq'), hvalue]
          · have hagreed := (fastValue_iff hpolls).2 hwins.agreed
            simp [hvalue] at hagreed
  · have hadd := Certificate.add_of_fired hfired sender vote
    rw [hadd]
    exact .inr ⟨fun q hq => by simp at hq, fun _ hwins => hwins.unmet hmet,
      .inr ⟨hfired, hmet.append _⟩, h.slow⟩

/-- A further vote for the slow path completes its certificate, or the certificate follows. -/
theorem Pending.Follows.addSlow (h : p.Follows config fast slow) (sender : ReplicaId)
    (vote : Vote) :
    (∃ q, (p.slow.add sender vote).2 = some q ∧
      Met config.majority config.leader (slow ++ [(sender, vote)]) ∧
      slowValue q =
        (((slow ++ [(sender, vote)]).lookup config.leader).bind Vote.value).getD .nil) ∨
    ((p.slow.add sender vote).2 = none ∧
      Pending.Follows config fast (slow ++ [(sender, vote)])
        { p with slow := (p.slow.add sender vote).1 }) := by
  rcases h.slow.add sender vote with ⟨-, hnone, hnext⟩ | ⟨hmet, -, q, hq, hpolls⟩
  · exact .inr ⟨hnone, h.fast, hnext⟩
  · exact .inl ⟨q, hq, hmet, slowValue_eq hpolls⟩

theorem Pending.Follows.escalate (h : p.Follows config fast slow) (escalated : Bool) :
    Pending.Follows config fast slow { p with escalated } :=
  ⟨h.fast, h.slow⟩

/-! ### One message about the command -/

theorem Pending.Follows.onReply (h : p.Follows config fast slow) (m : Reply) :
    Pending.Concludes config fast slow (fast ++ [(m.replica, .ofReply m)]) slow (p.onReply m).1
      (p.onReply m).2 := by
  rcases h.addFast m.replica (.ofReply m) with
    ⟨q, value, hq, hvalue, hwins⟩ | ⟨hvalue, hnot, hfollows⟩
  · simp only [Pending.onReply, hq, hvalue]
    exact .fast hwins
  · refine .still hnot (fun value path => ?_) hfollows
    simp only [Pending.onReply]
    split
    · rename_i q hq
      simp [hvalue q hq]
    · split <;> simp

theorem Pending.Follows.onSyncReply (h : p.Follows config fast slow) (m : Reply) :
    Pending.Concludes config fast slow fast (slow ++ [(m.replica, .ofReply m)])
      (p.onSyncReply m).1 (p.onSyncReply m).2 := by
  rcases h.addSlow m.replica (.ofReply m) with ⟨q, hq, hmet, hvalue⟩ | ⟨hnone, hfollows⟩
  · simp only [Pending.onSyncReply, hq, hvalue]
    exact .slow (fun _ => not_wins_self) hmet
  · refine .still (fun _ => not_wins_self) (fun value path => ?_) hfollows
    simp [Pending.onSyncReply, hnone]

/-- A verdict counts on both paths, first on the fast one. -/
theorem Pending.Follows.onRecordAck (h : p.Follows config fast slow) (m : RecordAck) :
    Pending.Concludes config fast slow (fast ++ [(m.replica, .ofRecordAck m)])
      (slow ++ [(m.replica, .ofRecordAck m)]) (p.onRecordAck m).1 (p.onRecordAck m).2 := by
  rcases h.addFast m.replica (.ofRecordAck m) with
    ⟨q, value, hq, hvalue, hwins⟩ | ⟨hvalue, hnot, hfollows⟩
  · simp only [Pending.onRecordAck, hq, Option.map_some, hvalue]
    exact .fast hwins
  · have hfast : (p.fast.add m.replica (.ofRecordAck m)).2.map fastValue = none ∨
        (p.fast.add m.replica (.ofRecordAck m)).2.map fastValue = some none := by
      cases hq : (p.fast.add m.replica (.ofRecordAck m)).2 with
      | none => exact .inl rfl
      | some q => exact .inr (by rw [Option.map_some, hvalue q hq])
    rcases hfollows.addSlow m.replica (.ofRecordAck m) with
      ⟨q, hq, hmet, hslow⟩ | ⟨hopen, hfollows⟩
    · have hdecision : (p.onRecordAck m).2 = .complete (slowValue q) .slow := by
        simp only [Pending.onRecordAck, hq]
        rcases hfast with hfast | hfast <;> rw [hfast]
      rw [hdecision, hslow]
      exact .slow hnot hmet
    · refine .still hnot (fun value path => ?_) hfollows
      simp only [Pending.onRecordAck, hopen]
      rcases hfast with hfast | hfast <;> simp [hfast]

/-! ### One message to the client -/

variable {reaction : Reaction} {m : ClientMessage}

theorem Reaction.Concludes.refl (hp : reaction.client.pending[id]? = some p)
    (h : p.Follows config fast slow) : reaction.Concludes config id fast slow fast slow :=
  .still (fun _ => not_wins_self) hp h

theorem concludes_update (hp : c.pending[id]? = some p)
    (h : Pending.Concludes config fast slow fast' slow' (count p).1 (count p).2) :
    (c.update id count).Concludes config id fast slow fast' slow' := by
  unfold update
  simp only [hp]
  generalize count p = counted at h
  obtain ⟨next, decision⟩ := counted
  dsimp only at h ⊢
  cases h with
  | fast hwins => exact .fast hwins rfl
  | slow hnot hmet => exact .slow hnot hmet rfl
  | still hnot hdecision hfollows =>
      cases decision with
      | wait => exact .still hnot Std.ExtTreeMap.getElem?_insert_self hfollows
      | escalate =>
          dsimp only [Client.escalate]
          split
          · exact .still hnot Std.ExtTreeMap.getElem?_insert_self hfollows
          · exact .still hnot Std.ExtTreeMap.getElem?_insert_self (hfollows.escalate true)
      | complete value path => exact absurd rfl (hdecision value path)

/-- A message about one command leaves the others as they are. -/
theorem getElem?_pending_update (hother : id' ≠ id) :
    (c.update id' count).client.pending[id]? = c.pending[id]? := by
  unfold update
  split
  · rfl
  · dsimp only
    split
    · simp [Std.ExtTreeMap.getElem?_insert, hother]
    · unfold Client.escalate
      split <;> simp [Std.ExtTreeMap.getElem?_insert, hother]
    · simp [Std.ExtTreeMap.getElem?_erase, hother]

theorem pending_completeWeak (m : WeakReply) :
    (c.completeWeak m).client.pending = c.pending := by
  unfold completeWeak
  split <;> rfl

/-- One more message to a client with a pending strong command, and its votes for that. -/
theorem concludes_handle (hconfig : c.config = config) (hp : c.pending[id]? = some p)
    (h : p.Follows config fast slow) (m : ClientMessage) :
    (c.handle m).Concludes config id fast slow
      (fast ++ (m.fastVote? config.ballot id).toList)
      (slow ++ (m.slowVote? config.ballot id).toList) := by
  have hsame : ∀ {reaction : Reaction}, reaction.client.pending[id]? = c.pending[id]? →
      m.fastVote? config.ballot id = none → m.slowVote? config.ballot id = none →
      reaction.Concludes config id fast slow (fast ++ (m.fastVote? config.ballot id).toList)
        (slow ++ (m.slowVote? config.ballot id).toList) := by
    intro reaction hpending hfast hslow
    rw [hfast, hslow, Option.toList_none, List.append_nil, List.append_nil]
    exact .refl (hpending.trans hp) h
  cases m with
  | reply m =>
      by_cases hid : m.id = id
      · subst hid
        simpa [handle, ClientMessage.fastVote?, ClientMessage.slowVote?] using
          concludes_update hp (h.onReply m)
      · exact hsame (getElem?_pending_update hid) (if_neg hid) rfl
  | syncReply m =>
      by_cases hid : m.id = id
      · subst hid
        simpa [handle, ClientMessage.fastVote?, ClientMessage.slowVote?] using
          concludes_update hp (h.onSyncReply m)
      · exact hsame (getElem?_pending_update hid) rfl (if_neg hid)
  | recordAck m =>
      by_cases hballot : m.ballot = config.ballot
      · by_cases hid : m.id = id
        · subst hid
          simpa [handle, ClientMessage.fastVote?, ClientMessage.slowVote?, hballot, hconfig] using
            concludes_update hp (h.onRecordAck m)
        · have hvote : ¬(m.id = id ∧ m.ballot = config.ballot) := fun hboth => hid hboth.1
          refine hsame ?_ (if_neg hvote) (if_neg hvote)
          simpa [handle, hballot, hconfig] using getElem?_pending_update hid
      · have hvote : ¬(m.id = id ∧ m.ballot = config.ballot) := fun hboth => hballot hboth.2
        refine hsame ?_ (if_neg hvote) (if_neg hvote)
        simp [handle, hballot, hconfig]
  | weakReply m => exact hsame (by rw [handle, pending_completeWeak]) rfl rfl
  | causalReply m =>
      refine hsame ?_ rfl rfl
      unfold handle
      dsimp only
      split
      · rw [pending_completeWeak]
      · rfl

end Client

end WitnessReplication
