import WitnessReplication.Proofs.Verdicts

/-!
# When a client asks the leader

A client that has a strong command pending asks the leader for its committed result once the fast
path is lost. It sees that in two ways only: a result comes about which its sender was not clear, or
three quarters of the replicas have voted, the leader among them, without agreeing. So the leader
has been asked, or the command has completed, exactly when one of these has happened or a majority
has voted for the slow path (`Client.asked_or_completed`).

A verdict can rule out the fast path before that. It is counted, and the command waits on although
it cannot complete on the fast path any more (`Client.not_asked_or_completed_refused`).
-/

namespace WitnessReplication

open Quorum

namespace Client

/-- First votes rule out the fast path: the leader was not clear, somebody else has refused, or two
others name different weak writes. -/
inductive RuledOut (leader : ReplicaId) (votes : List (ReplicaId × Vote)) : Prop
  | unclear {vote : Vote} (hvote : votes.lookup leader = some vote) (hok : vote.ok ≠ .clear)
  | refused {id : ReplicaId} {vote : Vote} (hid : id ≠ leader)
      (hvote : votes.lookup id = some vote) (hok : vote.ok = .refused)
  | apart {id id' : ReplicaId} {vote vote' : Vote} (hid : id ≠ leader) (hid' : id' ≠ leader)
      (hvote : votes.lookup id = some vote) (hvote' : votes.lookup id' = some vote')
      (hdep : vote.weakDep ≠ vote'.weakDep)

/-- An input brings a result of a command about which its sender was not clear. -/
def Input.Doubts (id : CommandId) (input : Input) : Prop :=
  ∃ m : Reply, input = .message (.reply m) ∧ m.id = id ∧ m.ok ≠ .clear

/-- A result of a command has come about which its sender was not clear. -/
def Doubted (id : CommandId) (inputs : List Input) : Prop := ∃ input ∈ inputs, input.Doubts id

/-- The leader has been asked for the committed result of a command. -/
def Account.Asked (a : Account) (leader : ReplicaId) (id : CommandId) : Prop :=
  .toReplica leader (.sync ⟨id⟩) ∈ a.sent

/-- A pending command is undecided: it has not escalated, and its certificates hold the first of
some votes, which are not enough for either path. -/
structure Pending.Undecided (config : Config) (fast slow : List (ReplicaId × Vote)) (p : Pending) :
    Prop where
  fast : p.fast.Open config.fastQuorum config.leader fast
  slow : p.slow.Open config.majority config.leader slow
  unescalated : p.escalated = false

/-- What ends the wait: a doubt, or enough votes for one of the paths. -/
def Ended (config : Config) (fast slow : List (ReplicaId × Vote)) (doubt : Prop) : Prop :=
  doubt ∨ Met config.fastQuorum config.leader fast ∨ Met config.majority config.leader slow

/-- What one more message decides about an undecided command. -/
inductive Pending.Decides (config : Config) (fast slow : List (ReplicaId × Vote)) (doubt : Prop) :
    Pending → Decision → Prop
  | wait {p : Pending} (hdoubt : ¬doubt) (hopen : p.Undecided config fast slow) :
      Decides config fast slow doubt p .wait
  | escalate {p : Pending} (hended : Ended config fast slow doubt)
      (hkept : p.escalated = false) : Decides config fast slow doubt p .escalate
  | complete {p : Pending} {value : Value} {path : Path} (hended : Ended config fast slow doubt) :
      Decides config fast slow doubt p (.complete value path)

/-- What a reaction makes of an undecided command. -/
inductive Reaction.Settles (config : Config) (id : CommandId) (fast slow : List (ReplicaId × Vote))
    (doubt : Prop) (reaction : Reaction) : Prop
  | waits {p : Pending} (hdoubt : ¬doubt) (hp : reaction.client.pending[id]? = some p)
      (hopen : p.Undecided config fast slow)
  | asks (hended : Ended config fast slow doubt)
      (hsent : reaction.sent = [.toReplica config.leader (.sync ⟨id⟩)])
  | completes {value : Value} {path : Path} (hended : Ended config fast slow doubt)
      (hdone : reaction.completion = some ⟨id, value, path⟩)

/-- How a strong command stands: it is undecided, or the wait has ended and the leader has been
asked or the command has completed. -/
inductive Account.Attends (config : Config) (id : CommandId) (fast slow : List (ReplicaId × Vote))
    (doubt : Prop) (a : Account) : Prop
  | waits {p : Pending} (hdoubt : ¬doubt) (hp : a.client.pending[id]? = some p)
      (hopen : p.Undecided config fast slow)
  | settled (hended : Ended config fast slow doubt)
      (hdone : a.Asked config.leader id ∨ id ∈ a.completed)

instance (a : Account) (leader : ReplicaId) (id : CommandId) : Decidable (a.Asked leader id) :=
  inferInstanceAs (Decidable (_ ∈ _))

variable {config : Config} {leader : ReplicaId} {id : CommandId} {c : Client} {p : Pending}
variable {votes more fast slow fast' slow' : List (ReplicaId × Vote)} {doubt : Prop} {a : Account}
variable {inputs : List Input} {input : Input} {value : Value} {command : Command}
variable {count : Pending → Pending × Decision}

/-! ### Votes that rule out the fast path -/

theorem RuledOut.not_agreed (h : RuledOut leader votes) : ¬Agreed leader votes value := by
  intro hagreed
  cases h with
  | unclear hvote hok =>
      obtain ⟨vote, hvote', hclear, -⟩ := hagreed.clear
      obtain rfl := Option.some.inj (hvote.symm.trans hvote')
      exact hok hclear
  | refused _ hvote hok => exact hagreed.unrefused _ _ hvote hok
  | apart hid hid' hvote hvote' hdep => exact hdep (hagreed.same _ _ _ _ hid hid' hvote hvote')

/-- What first votes rule out stays so when more votes come. -/
theorem RuledOut.append (h : RuledOut leader votes) (more : List (ReplicaId × Vote)) :
    RuledOut leader (votes ++ more) := by
  have hstays : ∀ {id vote}, votes.lookup id = some vote →
      (votes ++ more).lookup id = some vote := fun hvote => by
    rw [List.lookup_append, hvote, Option.some_or]
  cases h with
  | unclear hvote hok => exact .unclear (hstays hvote) hok
  | refused hid hvote hok => exact .refused hid (hstays hvote) hok
  | apart hid hid' hvote hvote' hdep => exact .apart hid hid' (hstays hvote) (hstays hvote') hdep

theorem doubted_snoc : Doubted id (inputs ++ [input]) ↔ Doubted id inputs ∨ input.Doubts id := by
  simp [Doubted, or_and_right, exists_or]

/-- A result that counts as a vote has come. -/
theorem mem_of_lookup_fastVotes {sender : ReplicaId} {m : Reply}
    (h : (fastVotes config id inputs).lookup sender = some (.ofReply m)) :
    ∃ m' : Reply, .message (.reply m') ∈ inputs ∧ m'.id = id ∧ m'.ok = m.ok := by
  obtain ⟨before, after, hvotes, -⟩ := List.lookup_eq_some_iff.1 h
  have hmem : (sender, Vote.ofReply m) ∈ fastVotes config id inputs := by
    rw [hvotes]
    exact List.mem_append_right _ (List.mem_cons_self ..)
  obtain ⟨input, hinput, hbrings⟩ := List.mem_flatMap.1 hmem
  obtain ⟨body, hbody, hfast⟩ := Option.bind_eq_some_iff.1 (Option.mem_toList.1 hbrings)
  obtain rfl : input = .message body := by
    cases input with
    | issue weak command => simp [Input.message?] at hbody
    | message body' => rw [Option.some.inj hbody]
  cases body with
  | reply m' =>
      obtain ⟨hid, hbrought⟩ := Option.ite_none_right_eq_some.1 hfast
      have hvote := (Prod.mk.inj (Option.some.inj hbrought)).2
      exact ⟨m', hinput, hid, congrArg Vote.ok hvote⟩
  | recordAck m' =>
      obtain ⟨-, hbrought⟩ := Option.ite_none_right_eq_some.1 hfast
      have hvalue := congrArg Vote.value (Prod.mk.inj (Option.some.inj hbrought)).2
      simp [Vote.ofRecordAck, Vote.ofReply] at hvalue
  | _ => simp [ClientMessage.fastVote?] at hfast

/-! ### One message about the command -/

theorem Pending.Undecided.onReply (h : p.Undecided config fast slow) (m : Reply) :
    Pending.Decides config (fast ++ [(m.replica, .ofReply m)]) slow (m.ok ≠ .clear)
      (p.onReply m).1 (p.onReply m).2 := by
  rcases h.fast.add m.replica (.ofReply m) with ⟨-, hnone, hnext⟩ | ⟨hmet, -, q, hq, -⟩
  · simp only [Pending.onReply, hnone]
    split
    · rename_i hok
      exact .escalate (.inl hok) h.unescalated
    · rename_i hclear
      exact .wait hclear ⟨hnext, h.slow, h.unescalated⟩
  · simp only [Pending.onReply, hq]
    split
    · exact .complete (.inr (.inl hmet))
    · exact .escalate (.inr (.inl hmet)) h.unescalated

theorem Pending.Undecided.onSyncReply (h : p.Undecided config fast slow) (m : Reply) :
    Pending.Decides config fast (slow ++ [(m.replica, .ofReply m)]) False (p.onSyncReply m).1
      (p.onSyncReply m).2 := by
  rcases h.slow.add m.replica (.ofReply m) with ⟨-, hnone, hnext⟩ | ⟨hmet, -, q, hq, -⟩
  · simp only [Pending.onSyncReply, hnone]
    exact .wait not_false ⟨h.fast, hnext, h.unescalated⟩
  · simp only [Pending.onSyncReply, hq]
    exact .complete (.inr (.inr hmet))

theorem Pending.Undecided.onRecordAck (h : p.Undecided config fast slow) (m : RecordAck) :
    Pending.Decides config (fast ++ [(m.replica, .ofRecordAck m)])
      (slow ++ [(m.replica, .ofRecordAck m)]) False (p.onRecordAck m).1 (p.onRecordAck m).2 := by
  rcases h.fast.add m.replica (.ofRecordAck m) with ⟨-, hnone, hnext⟩ | ⟨hmet, -, q, hq, -⟩
  · rcases h.slow.add m.replica (.ofRecordAck m) with ⟨-, hnone', hnext'⟩ | ⟨hmet, -, q, hq, -⟩
    · simp only [Pending.onRecordAck, hnone, hnone', Option.map_none]
      exact .wait not_false ⟨hnext, hnext', h.unescalated⟩
    · simp only [Pending.onRecordAck, hnone, hq, Option.map_none]
      exact .complete (.inr (.inr hmet))
  · simp only [Pending.onRecordAck, hq, Option.map_some]
    split
    · exact .complete (.inr (.inl hmet))
    · exact .complete (.inr (.inl hmet))
    · exact .escalate (.inr (.inl hmet)) h.unescalated
    · rename_i hnone _
      simp at hnone

/-! ### One message to the client -/

theorem settles_update (hconfig : c.config = config) (hp : c.pending[id]? = some p)
    (h : Pending.Decides config fast slow doubt (count p).1 (count p).2) :
    (c.update id count).Settles config id fast slow doubt := by
  subst hconfig
  unfold update
  simp only [hp]
  generalize count p = counted at h
  obtain ⟨next, decision⟩ := counted
  dsimp only at h ⊢
  cases h with
  | wait hdoubt hopen => exact .waits hdoubt Std.ExtTreeMap.getElem?_insert_self hopen
  | escalate hended hkept =>
      refine .asks hended ?_
      simp [Client.escalate, hkept]
  | complete hended => exact .completes hended rfl

/-- One more message to a client with an undecided strong command, and its votes for that. -/
theorem settles_handle (hconfig : c.config = config) (hp : c.pending[id]? = some p)
    (h : p.Undecided config fast slow) (m : ClientMessage) :
    (c.handle m).Settles config id (fast ++ (m.fastVote? config.ballot id).toList)
      (slow ++ (m.slowVote? config.ballot id).toList) (Input.Doubts id (.message m)) := by
  have hsame : ∀ {reaction : Reaction}, reaction.client.pending[id]? = c.pending[id]? →
      m.fastVote? config.ballot id = none → m.slowVote? config.ballot id = none →
      ¬Input.Doubts id (.message m) →
      reaction.Settles config id (fast ++ (m.fastVote? config.ballot id).toList)
        (slow ++ (m.slowVote? config.ballot id).toList) (Input.Doubts id (.message m)) := by
    intro reaction hpending hfast hslow hdoubt
    rw [hfast, hslow, Option.toList_none, List.append_nil, List.append_nil]
    exact .waits hdoubt (hpending.trans hp) h
  cases m with
  | reply m =>
      by_cases hid : m.id = id
      · subst hid
        have hdoubt : Input.Doubts m.id (.message (.reply m)) = (m.ok ≠ .clear) := by
          simp [Input.Doubts]
        simpa [handle, ClientMessage.fastVote?, ClientMessage.slowVote?, hdoubt] using
          settles_update hconfig hp (h.onReply m)
      · exact hsame (getElem?_pending_update hid) (if_neg hid) rfl (by simp [Input.Doubts, hid])
  | syncReply m =>
      have hdoubt : ¬Input.Doubts id (.message (.syncReply m)) := by simp [Input.Doubts]
      by_cases hid : m.id = id
      · subst hid
        simpa [handle, ClientMessage.fastVote?, ClientMessage.slowVote?, hdoubt] using
          settles_update hconfig hp (h.onSyncReply m)
      · exact hsame (getElem?_pending_update hid) rfl (if_neg hid) hdoubt
  | recordAck m =>
      have hdoubt : ¬Input.Doubts id (.message (.recordAck m)) := by simp [Input.Doubts]
      by_cases hballot : m.ballot = config.ballot
      · by_cases hid : m.id = id
        · subst hid
          simpa [handle, ClientMessage.fastVote?, ClientMessage.slowVote?, hballot, hconfig, hdoubt]
            using settles_update hconfig hp (h.onRecordAck m)
        · have hvote : ¬(m.id = id ∧ m.ballot = config.ballot) := fun hboth => hid hboth.1
          refine hsame ?_ (if_neg hvote) (if_neg hvote) hdoubt
          simpa [handle, hballot, hconfig] using getElem?_pending_update hid
      · have hvote : ¬(m.id = id ∧ m.ballot = config.ballot) := fun hboth => hballot hboth.2
        refine hsame ?_ (if_neg hvote) (if_neg hvote) hdoubt
        simp [handle, hballot, hconfig]
  | weakReply m =>
      exact hsame (by rw [handle, pending_completeWeak]) rfl rfl (by simp [Input.Doubts])
  | causalReply m =>
      refine hsame ?_ rfl rfl (by simp [Input.Doubts])
      unfold handle
      dsimp only
      split
      · rw [pending_completeWeak]
      · rfl

/-! ### All inputs -/

theorem Ended.mono {doubt' : Prop} (h : Ended config fast slow doubt)
    (more more' : List (ReplicaId × Vote)) (hdoubt : doubt → doubt') :
    Ended config (fast ++ more) (slow ++ more') doubt' :=
  h.imp hdoubt fun h => h.imp (·.append more) (·.append more')

theorem Account.Asked.take (h : a.Asked leader id) (input : Input) :
    (a.take input).Asked leader id := by
  cases input with
  | issue weak command => exact List.mem_append_left _ h
  | message m => exact List.mem_append_left _ h

theorem Account.mem_completed_take (h : id ∈ a.completed) (input : Input) :
    id ∈ (a.take input).completed := by
  obtain ⟨done, hdone, rfl⟩ := List.mem_map.1 h
  exact List.mem_map_of_mem (mem_completions_take hdone input)

theorem Account.attends_issue (hconfig : a.client.config = config) (command : Command) :
    (a.take (.issue false command)).Attends config a.next [] [] False := by
  have hp : (a.take (.issue false command)).client.pending[a.next]? = some
      ⟨.new .threeQuarters a.client.config.replicas a.client.config.leader true,
        .new .majority a.client.config.replicas a.client.config.leader true, false⟩ :=
    Std.ExtTreeMap.getElem?_insert_self
  rw [hconfig] at hp
  exact .waits not_false hp ⟨.new .threeQuarters config.replicas config.leader,
    .new .majority config.replicas config.leader, rfl⟩

theorem Account.Attends.take (h : a.Attends config id fast slow doubt) (ha : a.Completes)
    (hconfig : a.client.config = config) (input : Input) :
    (a.take input).Attends config id (fast ++ input.fastVotes config id)
      (slow ++ input.slowVotes config id) (doubt ∨ input.Doubts id) := by
  cases h with
  | settled hended hdone =>
      exact .settled (hended.mono _ _ .inl)
        (hdone.imp (·.take input) (mem_completed_take · input))
  | @waits p hdoubt hp hopen =>
      cases input with
      | issue weak command =>
          have hnone : ¬Input.Doubts id (.issue weak command) := by simp [Input.Doubts]
          simp only [Input.fastVotes, Input.slowVotes, Input.message?, Option.bind_none,
            Option.toList_none, List.append_nil]
          exact .waits (not_or.2 ⟨hdoubt, hnone⟩) (pending_take_issue ha hp weak command) hopen
      | message m =>
          cases settles_handle hconfig hp hopen m with
          | waits hnone hp' hopen' => exact .waits (not_or.2 ⟨hdoubt, hnone⟩) hp' hopen'
          | asks hended hsent =>
              refine .settled (hended.imp_left .inr) (.inl (List.mem_append_right _ ?_))
              rw [hsent]
              exact List.mem_singleton.2 rfl
          | @completes value path hended hdone =>
              refine .settled (hended.imp_left .inr) (.inr ?_)
              exact List.mem_map_of_mem (f := Completion.id)
                (List.mem_append_right _ (Option.mem_toList.2 hdone))

theorem Account.attends_follow (ha : a.Completes) (hconfig : a.client.config = config)
    (command : Command) (inputs : List Input) :
    (a.follow command inputs).Attends config a.next (fastVotes config a.next inputs)
      (slowVotes config a.next inputs) (Doubted a.next inputs) := by
  induction inputs using List.reverseRecOn with
  | nil =>
      have hnone : Doubted a.next [] = False := by simp [Doubted]
      rw [hnone]
      exact Account.attends_issue hconfig command
  | append_singleton inputs input ih =>
      rw [follow_snoc, fastVotes_snoc, slowVotes_snoc, doubted_snoc]
      exact ih.take ((ha.take _).takeAll inputs)
        ((config_takeAll _ inputs).trans ((config_take a _).trans hconfig)) input

/-- A command that has completed on the fast path did so when first votes agreed. -/
theorem Account.Ends.agreed (h : a.Ends command .fast value inputs) (ha : a.Completes)
    (hconfig : a.client.config = config) : ∃ earlier, earlier <+: inputs ∧
      Met config.fastQuorum config.leader (fastVotes config a.next earlier) ∧
      Agreed config.leader (fastVotes config a.next earlier) value := by
  induction inputs using List.reverseRecOn with
  | nil =>
      have hdone : a.next ∈ (a.take (.issue false command)).completed :=
        List.mem_map_of_mem (f := Completion.id) h
      exact absurd (ha.completed_issued _ hdone).1 ha.fresh
  | append_singleton inputs input ih =>
      have hlonger : ∀ {earlier : List Input}, earlier <+: inputs → earlier <+: inputs ++ [input] :=
        fun hprefix => hprefix.trans (List.prefix_append _ _)
      have hbefore : (a.follow command inputs).Completes := (ha.take _).takeAll inputs
      have hafter : (a.follow command (inputs ++ [input])).Completes := (ha.take _).takeAll _
      cases Account.stands_follow ha hconfig command inputs with
      | @fast value' hdone hmet =>
          have hends : a.Ends command .fast value' inputs := hdone
          obtain ⟨rfl, -⟩ := h.unique ha (hends.snoc input)
          obtain ⟨earlier, hprefix, hvotes⟩ := ih hends
          exact ⟨earlier, hlonger hprefix, hvotes⟩
      | @slow value' hdone hmet =>
          have hends : a.Ends command .slow value' inputs := hdone
          simpa using (h.unique ha (hends.snoc input)).2
      | @pending p hp hfollows =>
          have hconfig' : (a.follow command inputs).client.config = config :=
            (config_takeAll _ inputs).trans ((config_take a _).trans hconfig)
          have hstep := Account.take_of_follows hbefore hconfig' hp hfollows input
          rw [← fastVotes_snoc, ← slowVotes_snoc, ← follow_snoc] at hstep
          rcases hstep with ⟨value', hwins, hends⟩ | ⟨-, ⟨-, hends⟩ | ⟨p', hp', -⟩⟩
          · obtain ⟨rfl, -⟩ := h.unique ha hends
            exact ⟨inputs ++ [input], List.prefix_rfl, hwins.met, hwins.agreed⟩
          · simpa using (Account.Ends.unique h ha hends).2
          · exact absurd h (hafter.not_completed hp')

/-- Once first votes rule out the fast path before enough have come, it is lost. -/
theorem Account.not_ends_of_ruledOut (ha : a.Completes) (hconfig : a.client.config = config)
    (hruled : RuledOut config.leader (fastVotes config a.next inputs))
    (hunmet : ¬Met config.fastQuorum config.leader (fastVotes config a.next inputs))
    (later : List Input) : ¬a.Ends command .fast value (inputs ++ later) := by
  intro hends
  have hmore : ∀ earlier rest : List Input, fastVotes config a.next (earlier ++ rest) =
      fastVotes config a.next earlier ++ fastVotes config a.next rest := by
    simp [fastVotes]
  obtain ⟨earlier, hprefix, hmet, hagreed⟩ := hends.agreed ha hconfig
  rcases List.prefix_or_prefix_of_prefix hprefix (List.prefix_append inputs later) with
    ⟨rest, rfl⟩ | ⟨rest, rfl⟩
  · exact hunmet (hmore earlier rest ▸ hmet.append _)
  · exact (hmore inputs rest ▸ hruled.append _).not_agreed hagreed

/-- Take any client, whatever it has done before, that issues a strong command, and any inputs after
that. The leader has been asked about the command, or it has completed, exactly when a result of the
command has come about which its sender was not clear, or three quarters of the replicas have voted
for the fast path, the leader among them, or a majority for the slow path. So once the leader's
result counts and first votes rule out the fast path, one of the two is so if the leader was not
clear, else with the vote by which three quarters have voted at the latest; and the command does not
complete on the fast path any more. -/
theorem asked_or_completed (cid : ClientId) (bound : ReplicaId) (config : Config)
    (before inputs : List Input) (command : Command) :
    let a := (Account.start cid bound config).takeAll before
    let b := a.follow command inputs
    let votes := fastVotes config a.next inputs
    (b.Asked config.leader a.next ∨ a.next ∈ b.completed ↔
      Doubted a.next inputs ∨ Met ((3 * config.replicas + 3) / 4) config.leader votes ∨
        Met (config.replicas / 2 + 1) config.leader (slowVotes config a.next inputs)) ∧
    ∀ m : Reply, votes.lookup config.leader = some (.ofReply m) → RuledOut config.leader votes →
      (m.ok ≠ .clear ∨ Met ((3 * config.replicas + 3) / 4) config.leader votes →
        b.Asked config.leader a.next ∨ a.next ∈ b.completed) ∧
      (¬Met ((3 * config.replicas + 3) / 4) config.leader votes →
        ∀ later value, ¬a.Ends command .fast value (inputs ++ later)) := by
  intro a b votes
  have ha : a.Completes := (Account.balanced cid bound config before).1
  have hconfig : a.client.config = config := Account.config_takeAll _ before
  have hall : b = (Account.start cid bound config).takeAll
      (before ++ .issue false command :: inputs) := by
    rw [Account.takeAll_append]
    rfl
  have hasks : b.Asks := hall ▸ (Account.balanced cid bound config _).2
  have hcompletes : b.Completes := (ha.take _).takeAll inputs
  have hiff : b.Asked config.leader a.next ∨ a.next ∈ b.completed ↔
      Ended config votes (slowVotes config a.next inputs) (Doubted a.next inputs) := by
    cases Account.attends_follow ha hconfig command inputs with
    | settled hended hdone => exact iff_of_true hdone hended
    | @waits p hdoubt hp hopen =>
        have hended : ¬Ended config votes (slowVotes config a.next inputs)
            (Doubted a.next inputs) := by
          rintro (hdoubted | hmet | hmet)
          · exact hdoubt hdoubted
          · exact hopen.fast.unmet hmet
          · exact hopen.slow.unmet hmet
        refine iff_of_false ?_ hended
        rintro (hasked | hcompleted)
        · refine hasks.not_asked _ p hp hopen.unescalated ?_
          exact List.mem_filterMap.2 ⟨_, hasked, rfl⟩
        · exact (hcompletes.completed_issued _ hcompleted).2.1 (mem_pending_of_getElem? hp)
  refine ⟨hiff, fun m hvote hruled => ⟨fun hseen => hiff.2 ?_, fun hunmet later value => ?_⟩⟩
  · rcases hseen with hok | hmet
    · obtain ⟨m', hm', hid, hsame⟩ := mem_of_lookup_fastVotes hvote
      exact .inl ⟨_, hm', m', rfl, hid, hsame ▸ hok⟩
    · exact .inr (.inl hmet)
  · exact Account.not_ends_of_ruledOut ha hconfig hruled hunmet later

/-- What comes for a strong write in a cluster of three: the leader's result, and a verdict that
refuses. -/
def refusedVotes : List Input :=
  [.message (.reply ⟨0, ⟨7, 0⟩, .nil, .clear⟩),
    .message (.recordAck ⟨1, 0, ⟨7, 0⟩, .refused, none⟩)]

theorem ruledOut_refusedVotes : RuledOut 0 (fastVotes trio ⟨7, 0⟩ refusedVotes) :=
  @RuledOut.refused 0 _ 1 ⟨.refused, none, none⟩ (by decide) (by decide +kernel) rfl

/-- The verdict of the last replica makes the command escalate. -/
theorem asked_or_completed_lastVerdict :
    (fastVotes trio ⟨7, 0⟩ (refusedVotes ++ [lastVerdict])).lookup 0 =
        some (.ofReply ⟨0, ⟨7, 0⟩, .nil, .clear⟩) ∧
      RuledOut 0 (fastVotes trio ⟨7, 0⟩ (refusedVotes ++ [lastVerdict])) ∧
      (((Account.start 7 0 trio).follow ⟨.put, 1, ⟨[120]⟩⟩ (refusedVotes ++ [lastVerdict])).Asked 0
          ⟨7, 0⟩ ∨
        ⟨7, 0⟩ ∈ ((Account.start 7 0 trio).follow ⟨.put, 1, ⟨[120]⟩⟩
          (refusedVotes ++ [lastVerdict])).completed) := by
  have hvote : (fastVotes trio ⟨7, 0⟩ (refusedVotes ++ [lastVerdict])).lookup 0 =
      some (.ofReply ⟨0, ⟨7, 0⟩, .nil, .clear⟩) := by decide +kernel
  have hruled : RuledOut 0 (fastVotes trio ⟨7, 0⟩ (refusedVotes ++ [lastVerdict])) := by
    rw [fastVotes_snoc]
    exact ruledOut_refusedVotes.append _
  have hmet : Met 3 0 (fastVotes trio ⟨7, 0⟩ (refusedVotes ++ [lastVerdict])) := by
    decide +kernel
  exact ⟨hvote, hruled, ((asked_or_completed 7 0 trio [] (refusedVotes ++ [lastVerdict])
    ⟨.put, 1, ⟨[120]⟩⟩).2 _ hvote hruled).1 (.inr hmet)⟩

/-- A command whose fast path is lost can still wait: the leader was clear and a witness has
refused, but the leader has not been asked and the command has not completed. -/
theorem not_asked_or_completed_refused :
    ¬∀ (cid : ClientId) (bound : ReplicaId) (config : Config) (before inputs : List Input)
        (command : Command),
      let a := (Account.start cid bound config).takeAll before
      let b := a.follow command inputs
      let votes := fastVotes config a.next inputs
      ∀ m : Reply, votes.lookup config.leader = some (.ofReply m) → RuledOut config.leader votes →
        b.Asked config.leader a.next ∨ a.next ∈ b.completed := by
  intro hsettled
  have hdone := hsettled 7 0 trio [] refusedVotes ⟨.put, 1, ⟨[120]⟩⟩
    ⟨0, ⟨7, 0⟩, .nil, .clear⟩ (by decide +kernel) ruledOut_refusedVotes
  revert hdone
  decide +kernel

end Client

end WitnessReplication
