import Mathlib.Data.List.Induction
import WitnessReplication.Proofs.Accounts
import WitnessReplication.Proofs.Client.Concluding

/-!
# How strong commands complete

When a strong command completes, and how, depends only on the votes that come for it
(`Client.strong_verdict`). It completes on the fast path with the first vote by which three quarters
of the replicas have voted, the leader among them, provided that their first votes agree then; if
they do not, later votes do not help. It completes on the slow path with the first vote by which a
majority has voted and the leader has sent a committed result. Whichever comes first wins, and the
fast path if both come at once. Votes may come in any order and more than once, some of them from
another epoch, and the client may do other things in between.
-/

namespace WitnessReplication

open Quorum

/-- Results of a command come from the leader, and verdicts on it from the others. -/
def ClientMessage.Fair (leader : ReplicaId) (id : CommandId) : ClientMessage → Prop
  | .reply m => m.id = id → m.replica = leader
  | .syncReply m => m.id = id → m.replica = leader
  | .recordAck m => m.id = id → m.replica ≠ leader
  | _ => True

namespace Client

/-- The message that comes with an input, if one comes. -/
def Input.message? : Input → Option ClientMessage
  | .issue _ _ => none
  | .message m => some m

/-- The votes of one input for the fast path. -/
def Input.fastVotes (config : Config) (id : CommandId) (input : Input) : List (ReplicaId × Vote) :=
  (input.message?.bind (ClientMessage.fastVote? config.ballot id)).toList

/-- The votes of one input for the slow path. -/
def Input.slowVotes (config : Config) (id : CommandId) (input : Input) : List (ReplicaId × Vote) :=
  (input.message?.bind (ClientMessage.slowVote? config.ballot id)).toList

/-- The votes for the fast path that come for a command, in order. -/
def fastVotes (config : Config) (id : CommandId) (inputs : List Input) : List (ReplicaId × Vote) :=
  inputs.flatMap (Input.fastVotes config id)

/-- The votes for the slow path that come for a command, in order. -/
def slowVotes (config : Config) (id : CommandId) (inputs : List Input) : List (ReplicaId × Vote) :=
  inputs.flatMap (Input.slowVotes config id)

/-- The inputs have a property before the last one. -/
def Sooner (P : List Input → Prop) (inputs : List Input) : Prop :=
  ∃ earlier, earlier <+: inputs ∧ earlier ≠ inputs ∧ P earlier

/-- The inputs have a property with the last one for the first time. -/
def First (P : List Input → Prop) (inputs : List Input) : Prop := P inputs ∧ ¬Sooner P inputs

/-- The account of a client that issues a strong command, after some more inputs. -/
def Account.follow (a : Account) (command : Command) (inputs : List Input) : Account :=
  (a.take (.issue false command)).takeAll inputs

/-- A strong command that a client issues next has completed, after some more inputs. -/
def Account.Ends (a : Account) (command : Command) (path : Path) (value : Value)
    (inputs : List Input) : Prop :=
  ⟨a.next, value, path⟩ ∈ (a.follow command inputs).completions

/-- How a strong command stands that is followed by votes: it is pending, or it has completed on one
of the paths, for which enough have voted. -/
inductive Account.Stands (config : Config) (id : CommandId) (fast slow : List (ReplicaId × Vote))
    (a : Account) : Prop
  | pending {p : Pending} (hp : a.client.pending[id]? = some p)
      (hfollows : p.Follows config fast slow)
  | fast {value : Value} (hdone : ⟨id, value, .fast⟩ ∈ a.completions)
      (hmet : Met config.fastQuorum config.leader fast)
  | slow {value : Value} (hdone : ⟨id, value, .slow⟩ ∈ a.completions)
      (hmet : Met config.majority config.leader slow)

instance (a : Account) (command : Command) (path : Path) (value : Value) (inputs : List Input) :
    Decidable (a.Ends command path value inputs) :=
  inferInstanceAs (Decidable (_ ∈ _))

variable {config : Config} {id : CommandId} {fast slow : List (ReplicaId × Vote)} {a : Account}
variable {inputs : List Input} {input : Input} {P : List Input → Prop} {done done' : Completion}
variable {p : Pending} {value value' : Value} {leader : ReplicaId} {votes : List (ReplicaId × Vote)}
variable {path path' : Path} {command : Command} {vote : Vote}

/-! ### Moments -/

/-- What stays true was true sooner if it was so before the last input. -/
theorem sooner_snoc (hstays : ∀ inputs input, P inputs → P (inputs ++ [input])) :
    Sooner P (inputs ++ [input]) ↔ P inputs := by
  have hmore : ∀ earlier more, P earlier → P (earlier ++ more) := by
    intro earlier more
    induction more generalizing earlier with
    | nil => simp
    | cons next more ih =>
        intro h
        rw [List.append_cons]
        exact ih _ (hstays earlier next h)
  constructor
  · rintro ⟨earlier, hprefix, hne, h⟩
    obtain ⟨more, rfl⟩ := (List.prefix_concat_iff.1 hprefix).resolve_left hne
    exact hmore earlier more h
  · exact fun h => ⟨inputs, List.prefix_append _ _, by simp, h⟩

theorem first_snoc (hstays : ∀ inputs input, P inputs → P (inputs ++ [input])) :
    First P (inputs ++ [input]) ↔ P (inputs ++ [input]) ∧ ¬P inputs := by
  rw [First, sooner_snoc hstays]

/-! ### Votes -/

theorem fastVotes_snoc : fastVotes config id (inputs ++ [input]) =
    fastVotes config id inputs ++ input.fastVotes config id := by
  simp [fastVotes]

theorem slowVotes_snoc : slowVotes config id (inputs ++ [input]) =
    slowVotes config id inputs ++ input.slowVotes config id := by
  simp [slowVotes]

theorem Agreed.value_unique (h : Agreed leader votes value) (h' : Agreed leader votes value') :
    value = value' := by
  obtain ⟨vote, hvote, -, hvalue⟩ := h.clear
  obtain ⟨vote', hvote', -, hvalue'⟩ := h'.clear
  obtain rfl := Option.some.inj (hvote.symm.trans hvote')
  exact Option.some.inj (hvalue.symm.trans hvalue')

/-- The leader votes for the slow path with a value, by a committed result. -/
theorem exists_value (hfair : ∀ m, .message m ∈ inputs → m.Fair config.leader id)
    (hvote : (slowVotes config id inputs).lookup config.leader = some vote) :
    ∃ value, vote.value = some value := by
  obtain ⟨before, after, hvotes, -⟩ := List.lookup_eq_some_iff.1 hvote
  have hmem : (config.leader, vote) ∈ slowVotes config id inputs := by
    rw [hvotes]
    exact List.mem_append_right _ (List.mem_cons_self ..)
  obtain ⟨input, hinput, hbrings⟩ := List.mem_flatMap.1 hmem
  obtain ⟨m, hm, hslow⟩ := Option.bind_eq_some_iff.1 (Option.mem_toList.1 hbrings)
  obtain rfl : input = .message m := by
    cases input with
    | issue weak command => simp [Input.message?] at hm
    | message m' => rw [Option.some.inj hm]
  have hfair := hfair m hinput
  cases m with
  | syncReply m =>
      obtain ⟨-, hbrought⟩ := Option.ite_none_right_eq_some.1 hslow
      obtain ⟨-, rfl⟩ := Prod.mk.inj (Option.some.inj hbrought)
      exact ⟨m.value, rfl⟩
  | recordAck m =>
      obtain ⟨⟨hid, -⟩, hbrought⟩ := Option.ite_none_right_eq_some.1 hslow
      obtain ⟨hleader, -⟩ := Prod.mk.inj (Option.some.inj hbrought)
      exact absurd hleader (hfair hid)
  | _ => simp [ClientMessage.slowVote?] at hslow

/-! ### Accounts -/

theorem Account.Completes.completion_unique (h : a.Completes) (hdone : done ∈ a.completions)
    (hdone' : done' ∈ a.completions) (hid : done.id = done'.id) : done = done' :=
  List.inj_on_of_nodup_map h.completed_nodup hdone hdone' hid

/-- A pending command has not completed. -/
theorem Account.Completes.not_completed (h : a.Completes) (hp : a.client.pending[id]? = some p) :
    ⟨id, value, path⟩ ∉ a.completions := by
  intro hdone
  have hcompleted : id ∈ a.completed := List.mem_map_of_mem (f := Completion.id) hdone
  exact (h.completed_issued id hcompleted).2.1 (mem_pending_of_getElem? hp)

theorem Account.Completes.take (h : a.Completes) (input : Input) : (a.take input).Completes := by
  cases input with
  | issue weak command => exact h.issue weak command
  | message m => exact h.message m

theorem Account.Completes.takeAll (h : a.Completes) (inputs : List Input) :
    (a.takeAll inputs).Completes := by
  induction inputs generalizing a with
  | nil => exact h
  | cons input inputs ih => exact ih (h.take input)

theorem Account.config_take (a : Account) (input : Input) :
    (a.take input).client.config = a.client.config := by
  cases input with
  | issue weak command => cases weak <;> rfl
  | message m => exact config_handle a.client m

theorem Account.config_takeAll (a : Account) (inputs : List Input) :
    (a.takeAll inputs).client.config = a.client.config := by
  induction inputs generalizing a with
  | nil => rfl
  | cons input inputs ih => exact (ih (a.take input)).trans (a.config_take input)

theorem Account.mem_completions_take (hdone : done ∈ a.completions) (input : Input) :
    done ∈ (a.take input).completions := by
  cases input with
  | issue weak command => exact hdone
  | message m => exact List.mem_append_left _ hdone

theorem Account.follow_snoc (a : Account) (command : Command) (inputs : List Input)
    (input : Input) :
    a.follow command (inputs ++ [input]) = (a.follow command inputs).take input := by
  rw [follow, Account.takeAll_append]
  rfl

theorem Account.Ends.snoc (h : a.Ends command path value inputs) (input : Input) :
    a.Ends command path value (inputs ++ [input]) := by
  rw [Account.Ends, Account.follow_snoc]
  exact Account.mem_completions_take h input

/-- A command completes with one value and on one path. -/
theorem Account.Ends.unique (h : a.Ends command path value inputs) (ha : a.Completes)
    (h' : a.Ends command path' value' inputs) : value = value' ∧ path = path' := by
  have hafter : (a.follow command inputs).Completes := (ha.take _).takeAll inputs
  have hsame := hafter.completion_unique h h' rfl
  exact ⟨congrArg Completion.value hsame, congrArg Completion.path hsame⟩

/-- What has completed does not complete anew. -/
theorem Account.Ends.not_new (h : a.Ends command path value inputs) (ha : a.Completes)
    (input : Input) : ¬(a.Ends command path' value' (inputs ++ [input]) ∧
      ¬a.Ends command path' value' inputs) := by
  rintro ⟨hnew, hnot⟩
  obtain ⟨rfl, rfl⟩ := hnew.unique ha (h.snoc input)
  exact hnot h

/-- A pending command stays as it is when another one is issued. -/
theorem Account.pending_take_issue (ha : a.Completes) (hp : a.client.pending[id]? = some p)
    (weak : Bool) (command : Command) :
    (a.take (.issue weak command)).client.pending[id]? = some p := by
  have hnext : a.next ≠ id := by
    rintro rfl
    exact ha.fresh (List.mem_append_left _ (ha.pending_issued _ (mem_pending_of_getElem? hp)))
  cases weak with
  | true => exact hp
  | false =>
      have hcompare : ¬compare a.next id = .eq := fun heq =>
        hnext (Std.LawfulEqOrd.eq_of_compare heq)
      change (a.client.pending.insert a.next _)[id]? = some p
      rw [Std.ExtTreeMap.getElem?_insert, if_neg hcompare, hp]

/-- A pending command after one more input: it ends on the fast path, else on the slow one, or it
stays pending and follows the votes. -/
theorem Account.take_of_follows (ha : a.Completes) (hconfig : a.client.config = config)
    (hp : a.client.pending[id]? = some p) (h : p.Follows config fast slow) (input : Input) :
    (∃ value, Wins config fast (fast ++ input.fastVotes config id) value ∧
      ⟨id, value, .fast⟩ ∈ (a.take input).completions) ∨
    (∀ value, ¬Wins config fast (fast ++ input.fastVotes config id) value) ∧
      ((Met config.majority config.leader (slow ++ input.slowVotes config id) ∧
        ⟨id, (((slow ++ input.slowVotes config id).lookup config.leader).bind Vote.value).getD .nil,
          .slow⟩ ∈ (a.take input).completions) ∨
      ∃ p', (a.take input).client.pending[id]? = some p' ∧
        p'.Follows config (fast ++ input.fastVotes config id)
          (slow ++ input.slowVotes config id)) := by
  cases input with
  | issue weak command =>
      simp only [Input.fastVotes, Input.slowVotes, Input.message?, Option.bind_none,
        Option.toList_none, List.append_nil]
      exact .inr ⟨fun _ => not_wins_self, .inr ⟨p, pending_take_issue ha hp weak command, h⟩⟩
  | message m =>
      have hlast : ∀ {done}, (a.client.handle m).completion = some done →
          done ∈ (a.take (.message m)).completions := fun hdone =>
        List.mem_append_right _ (Option.mem_toList.2 hdone)
      cases concludes_handle hconfig hp h m with
      | fast hwins hdone => exact .inl ⟨_, hwins, hlast hdone⟩
      | slow hnot hmet hdone => exact .inr ⟨hnot, .inl ⟨hmet, hlast hdone⟩⟩
      | still hnot hp' hfollows => exact .inr ⟨hnot, .inr ⟨_, hp', hfollows⟩⟩

/-- A command that is issued follows no votes yet. -/
theorem Account.stands_issue (hconfig : a.client.config = config) (command : Command) :
    (a.take (.issue false command)).Stands config a.next [] [] := by
  have hp : (a.take (.issue false command)).client.pending[a.next]? = some
      ⟨.new .threeQuarters a.client.config.replicas a.client.config.leader true,
        .new .majority a.client.config.replicas a.client.config.leader true, false⟩ :=
    Std.ExtTreeMap.getElem?_insert_self
  rw [hconfig] at hp
  exact .pending hp ⟨.inl (.new .threeQuarters config.replicas config.leader),
    .new .majority config.replicas config.leader⟩

theorem Account.Stands.take (h : a.Stands config id fast slow) (ha : a.Completes)
    (hconfig : a.client.config = config) (input : Input) :
    (a.take input).Stands config id (fast ++ input.fastVotes config id)
      (slow ++ input.slowVotes config id) := by
  cases h with
  | pending hp hfollows =>
      rcases Account.take_of_follows ha hconfig hp hfollows input with
        ⟨value, hwins, hdone⟩ | ⟨-, ⟨hmet, hdone⟩ | ⟨p', hp', hfollows'⟩⟩
      · exact .fast hdone hwins.met
      · exact .slow hdone hmet
      · exact .pending hp' hfollows'
  | fast hdone hmet => exact .fast (mem_completions_take hdone input) (hmet.append _)
  | slow hdone hmet => exact .slow (mem_completions_take hdone input) (hmet.append _)

/-- Whatever comes after a strong command, it stands as the votes for it say. -/
theorem Account.stands_follow (ha : a.Completes) (hconfig : a.client.config = config)
    (command : Command) (inputs : List Input) :
    (a.follow command inputs).Stands config a.next (fastVotes config a.next inputs)
      (slowVotes config a.next inputs) := by
  induction inputs using List.reverseRecOn with
  | nil => exact Account.stands_issue hconfig command
  | append_singleton inputs input ih =>
      rw [follow_snoc, fastVotes_snoc, slowVotes_snoc]
      exact ih.take ((ha.take _).takeAll inputs)
        ((config_takeAll _ inputs).trans ((config_take a _).trans hconfig)) input

/-- After one more input a strong command completes on the fast path if the votes win with that
input and the slow path was not sooner, and on the slow path if the slow votes suffice with it and
the fast path was neither sooner nor as soon. -/
theorem Account.ends_snoc (ha : a.Completes) (hconfig : a.client.config = config)
    (hfair : ∀ m, .message m ∈ inputs ++ [input] → m.Fair config.leader a.next) :
    ((a.Ends command .fast value (inputs ++ [input]) ∧ ¬a.Ends command .fast value inputs) ↔
      Wins config (fastVotes config a.next inputs) (fastVotes config a.next (inputs ++ [input]))
          value ∧
        ¬∃ value, a.Ends command .slow value inputs) ∧
    ((a.Ends command .slow value (inputs ++ [input]) ∧ ¬a.Ends command .slow value inputs) ↔
      (Met config.majority config.leader (slowVotes config a.next (inputs ++ [input])) ∧
        ¬Met config.majority config.leader (slowVotes config a.next inputs)) ∧
        (∃ vote, (slowVotes config a.next (inputs ++ [input])).lookup config.leader = some vote ∧
          vote.value = some value) ∧
        ∀ value, ¬a.Ends command .fast value (inputs ++ [input])) := by
  have hbefore : (a.follow command inputs).Completes := (ha.take _).takeAll inputs
  have hafter : (a.follow command (inputs ++ [input])).Completes := (ha.take _).takeAll _
  cases Account.stands_follow ha hconfig command inputs with
  | @fast value' hdone hmet =>
      have hends : a.Ends command .fast value' inputs := hdone
      exact ⟨iff_of_false (hends.not_new ha input) fun h => h.1.unmet hmet,
        iff_of_false (hends.not_new ha input) fun h => h.2.2 _ (hends.snoc input)⟩
  | @slow value' hdone hmet =>
      have hends : a.Ends command .slow value' inputs := hdone
      exact ⟨iff_of_false (hends.not_new ha input) fun h => h.2 ⟨_, hends⟩,
        iff_of_false (hends.not_new ha input) fun h => h.1.2 hmet⟩
  | @pending p hp hfollows =>
      have hnot : ∀ {path value}, ¬a.Ends command path value inputs := hbefore.not_completed hp
      have hconfig' : (a.follow command inputs).client.config = config :=
        (config_takeAll _ inputs).trans ((config_take a _).trans hconfig)
      have hstep := Account.take_of_follows hbefore hconfig' hp hfollows input
      rw [← fastVotes_snoc, ← slowVotes_snoc, ← follow_snoc] at hstep
      rcases hstep with ⟨value', hwins, hends⟩ | ⟨hloses, ⟨hmet, hends⟩ | ⟨p', hp', hfollows'⟩⟩
      · -- it completes on the fast path
        refine ⟨⟨fun h => ?_, fun h => ?_⟩, iff_of_false ?_ fun h => h.2.2 _ hends⟩
        · obtain ⟨rfl, -⟩ := h.1.unique ha hends
          exact ⟨hwins, fun ⟨_, hslow⟩ => hnot hslow⟩
        · obtain rfl := h.1.agreed.value_unique hwins.agreed
          exact ⟨hends, hnot⟩
        · rintro ⟨hnew, -⟩
          simpa using (hnew.unique ha hends).2
      · -- it completes on the slow path
        obtain ⟨vote, hvote⟩ := Option.isSome_iff_exists.1 hmet.2
        obtain ⟨value', hvalue'⟩ := exists_value hfair hvote
        rw [hvote, Option.bind_some, hvalue', Option.getD_some] at hends
        refine ⟨iff_of_false ?_ fun h => hloses _ h.1, ⟨fun h => ?_, fun h => ?_⟩⟩
        · rintro ⟨hnew, -⟩
          simpa using (Account.Ends.unique hnew ha hends).2
        · obtain ⟨rfl, -⟩ := h.1.unique ha hends
          refine ⟨⟨hmet, hfollows.slow.unmet⟩, ⟨vote, hvote, hvalue'⟩, fun _ hfast => ?_⟩
          simpa using (Account.Ends.unique hfast ha hends).2
        · obtain ⟨-, ⟨vote', hvote', hvalue⟩, -⟩ := h
          obtain rfl := Option.some.inj (hvote.symm.trans hvote')
          obtain rfl := Option.some.inj (hvalue'.symm.trans hvalue)
          exact ⟨hends, hnot⟩
      · -- it stays pending
        have hstill : ∀ {path value}, ¬a.Ends command path value (inputs ++ [input]) :=
          hafter.not_completed hp'
        exact ⟨iff_of_false (fun h => hstill h.1) fun h => hloses _ h.1,
          iff_of_false (fun h => hstill h.1) fun h => hfollows'.slow.unmet h.1.1⟩

/-- Take any client, whatever it has done before, that issues a strong command, and any inputs after
that in which the results of the command come from the leader and the verdicts on it from others.
The command completes on the fast path with a value exactly at the first moment at which three
quarters of the replicas have voted, the leader among them, if their first votes then agree on that
value and the command has not completed on the slow path before. It completes on the slow path with
a value exactly at the first moment at which a majority has voted for that, the leader among them
with that value, if the command has not completed on the fast path by then. -/
theorem strong_verdict (cid : ClientId) (bound : ReplicaId) (config : Config)
    (before inputs : List Input) (command : Command) (value : Value)
    (hfair : ∀ m, .message m ∈ inputs →
      m.Fair config.leader ((Account.start cid bound config).takeAll before).next) :
    let a := (Account.start cid bound config).takeAll before
    (First (a.Ends command .fast value) inputs ↔
      First (fun inputs => Met ((3 * config.replicas + 3) / 4) config.leader
        (fastVotes config a.next inputs)) inputs ∧
      Agreed config.leader (fastVotes config a.next inputs) value ∧
      ¬Sooner (fun inputs => ∃ value, a.Ends command .slow value inputs) inputs) ∧
    (First (a.Ends command .slow value) inputs ↔
      First (fun inputs => Met (config.replicas / 2 + 1) config.leader
        (slowVotes config a.next inputs)) inputs ∧
      (∃ vote, (slowVotes config a.next inputs).lookup config.leader = some vote ∧
        vote.value = some value) ∧
      ∀ value, ¬a.Ends command .fast value inputs) := by
  intro a
  have ha : a.Completes := (Account.balanced cid bound config before).1
  have hconfig : a.client.config = config := Account.config_takeAll _ before
  have hfast : ∀ inputs input,
      Met config.fastQuorum config.leader (fastVotes config a.next inputs) →
        Met config.fastQuorum config.leader (fastVotes config a.next (inputs ++ [input])) :=
    fun inputs input hmet => fastVotes_snoc ▸ hmet.append _
  have hslow : ∀ inputs input,
      Met config.majority config.leader (slowVotes config a.next inputs) →
        Met config.majority config.leader (slowVotes config a.next (inputs ++ [input])) :=
    fun inputs input hmet => slowVotes_snoc ▸ hmet.append _
  change (_ ↔ First (fun inputs => Met config.fastQuorum _ _) inputs ∧ _) ∧
    (_ ↔ First (fun inputs => Met config.majority _ _) inputs ∧ _)
  rcases List.eq_nil_or_concat inputs with rfl | ⟨inputs, input, rfl⟩
  · have hnone : ∀ {path : Path}, ¬a.Ends command path value [] := fun hends =>
      ha.fresh (ha.completed_issued _ (List.mem_map_of_mem (f := Completion.id) hends)).1
    exact ⟨iff_of_false (fun h => hnone h.1) fun h => not_met_nil h.1.1,
      iff_of_false (fun h => hnone h.1) fun h => not_met_nil h.1.1⟩
  · rw [List.concat_eq_append] at hfair ⊢
    have hstays : ∀ path inputs input, a.Ends command path value inputs →
        a.Ends command path value (inputs ++ [input]) := fun _ _ input h => h.snoc input
    rw [first_snoc (hstays .fast), first_snoc (hstays .slow), first_snoc hfast, first_snoc hslow,
      sooner_snoc fun _ input ⟨value, h⟩ => ⟨value, h.snoc input⟩]
    obtain ⟨hfastEnds, hslowEnds⟩ := Account.ends_snoc ha hconfig hfair
    refine ⟨hfastEnds.trans ?_, hslowEnds⟩
    constructor
    · rintro ⟨⟨hunmet, hmet, hagreed⟩, hnot⟩
      exact ⟨⟨hmet, hunmet⟩, hagreed, hnot⟩
    · rintro ⟨⟨hmet, hunmet⟩, hagreed, hnot⟩
      exact ⟨⟨hunmet, hmet, hagreed⟩, hnot⟩

/-- What comes for a strong write in a cluster of three: a verdict, one of another epoch, the
leader's result, and the first sender's verdict again, which refuses now. -/
def firstVerdicts : List Input :=
  [.message (.recordAck ⟨1, 0, ⟨7, 0⟩, .clear, none⟩),
    .message (.recordAck ⟨2, 5, ⟨7, 0⟩, .clear, none⟩),
    .message (.reply ⟨0, ⟨7, 0⟩, .nil, .clear⟩),
    .message (.recordAck ⟨1, 0, ⟨7, 0⟩, .refused, none⟩)]

/-- The verdict of the last replica. -/
def lastVerdict : Input := .message (.recordAck ⟨2, 0, ⟨7, 0⟩, .ordered, none⟩)

/-- The write completes on the fast path with the verdict of the last replica. -/
theorem strong_verdict_lastVerdict :
    First ((Account.start 7 0 trio).Ends ⟨.put, 1, ⟨[120]⟩⟩ .fast .nil)
        (firstVerdicts ++ [lastVerdict]) ∧
      First (fun inputs => Met 3 0 (fastVotes trio ⟨7, 0⟩ inputs))
        (firstVerdicts ++ [lastVerdict]) ∧
      Agreed 0 (fastVotes trio ⟨7, 0⟩ (firstVerdicts ++ [lastVerdict])) .nil := by
  have hfair : ∀ m, .message m ∈ firstVerdicts ++ [lastVerdict] →
      m.Fair trio.leader ((Account.start 7 0 trio).takeAll []).next := by
    intro m hm
    simp only [firstVerdicts, lastVerdict, List.cons_append, List.nil_append, List.mem_cons,
      Input.message.injEq, List.not_mem_nil, or_false] at hm
    rcases hm with rfl | rfl | rfl | rfl | rfl <;> simp [ClientMessage.Fair, trio]
  have hends : First ((Account.start 7 0 trio).Ends ⟨.put, 1, ⟨[120]⟩⟩ .fast .nil)
      (firstVerdicts ++ [lastVerdict]) :=
    (first_snoc fun _ input h => h.snoc input).2 ⟨by decide +kernel, by decide +kernel⟩
  obtain ⟨hmet, hagreed, -⟩ :=
    (strong_verdict 7 0 trio [] (firstVerdicts ++ [lastVerdict]) ⟨.put, 1, ⟨[120]⟩⟩ .nil
      hfair).1.1 hends
  exact ⟨hends, hmet, hagreed⟩

end Client

end WitnessReplication
