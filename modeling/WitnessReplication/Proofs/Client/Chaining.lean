import WitnessReplication.Proofs.Accounts
import WitnessReplication.Proofs.Host.Receiving

/-!
# Chains of weak commands

A client's weak command names the position of the one before it, and the first one names none.
`Chains` says so of any weak commands, whoever holds them and in whatever order, and
`Account.chains` that the weak commands of a client are a chain, whatever else it issues and
whatever comes to it.
-/

namespace WitnessReplication.Client

open Replica (WeakCommand)

/-- The weak commands `ws` hold some of those that a client issued at the positions `issued`, each
at most once: each names the position before its own, and the first one names none. -/
structure Chains (client : ClientId) (issued : List SeqNum) (ws : List WeakCommand) : Prop where
  increasing : issued.Pairwise (· < ·)
  links : ∀ w ∈ ws, w.id.client = client → ∃ before after,
    issued = before ++ w.id.seq :: after ∧ w.causalDep = before.getLast?
  once : ws.Pairwise fun w w' => w.id.client = client → w.id ≠ w'.id

variable {client : ClientId} {issued : List SeqNum} {ws more : List WeakCommand} {w : WeakCommand}

namespace Chains

theorem left (hchains : Chains client issued (ws ++ more)) : Chains client issued ws where
  increasing := hchains.increasing
  links w hw := hchains.links w (List.mem_append_left _ hw)
  once := (List.pairwise_append.1 hchains.once).1

/-- A weak command has a place in its client's list, and names what is at the place before. -/
theorem place (hchains : Chains client issued ws) (hw : w ∈ ws) (hclient : w.id.client = client) :
    ∃ i : Nat, issued[i]? = some w.id.seq ∧
      w.causalDep = if i = 0 then none else issued[i - 1]? := by
  obtain ⟨before, after, rfl, hdep⟩ := hchains.links w hw hclient
  refine ⟨before.length, by simp, ?_⟩
  rw [hdep, List.getLast?_eq_getElem?]
  split
  · rename_i hempty
    rw [List.eq_nil_of_length_eq_zero hempty]
    rfl
  · rw [List.getElem?_append_left (by omega)]

/-- Two weak commands of one client with one position are the same one. -/
theorem index_unique (hchains : Chains client issued ws) {i j : Nat} {w' : WeakCommand}
    (hi : ws[i]? = some w) (hj : ws[j]? = some w') (hclient : w.id.client = client)
    (hid : w.id = w'.id) : i = j := by
  obtain ⟨hlt, rfl⟩ := List.getElem?_eq_some_iff.1 hi
  obtain ⟨hlt', rfl⟩ := List.getElem?_eq_some_iff.1 hj
  have honce := List.pairwise_iff_getElem.1 hchains.once
  rcases Nat.lt_trichotomy i j with hbefore | heq | hafter
  · exact absurd hid (honce i j hlt hlt' hbefore hclient)
  · exact heq
  · exact absurd hid.symm (honce j i hlt' hlt hafter (hid ▸ hclient))

end Chains

/-- Of two positions of an increasing list, the one with the smaller entry comes first. -/
theorem index_le_of_pairwise (hincreasing : issued.Pairwise (· < ·)) {i j : Nat} {a b : SeqNum}
    (ha : issued[i]? = some a) (hb : issued[j]? = some b) (hle : a ≤ b) : i ≤ j := by
  obtain ⟨hi, rfl⟩ := List.getElem?_eq_some_iff.1 ha
  obtain ⟨hj, rfl⟩ := List.getElem?_eq_some_iff.1 hb
  by_contra hlt
  exact Nat.not_lt.2 hle (List.pairwise_iff_getElem.1 hincreasing j i hj hi (Nat.not_le.1 hlt))

/-! ### The weak commands of a client -/

namespace Account

/-- The weak command in a message. -/
def weakCommandOf? : Sent → Option WeakCommand
  | .toReplica _ m => m.weakCommand?
  | .toAll m => m.weakCommand?
  | .toClient _ _ => none

/-- The weak commands that have been sent. -/
def weakCommands (a : Account) : List WeakCommand := a.sent.filterMap weakCommandOf?

/-- The positions of the weak commands that have been issued. -/
def positions (a : Account) : List SeqNum := a.weak.map CommandId.seq

/-- The client goes by its latest weak command, and the weak commands that it has sent are linked. -/
structure Linked (a : Account) : Prop where
  lastWeak_eq : a.client.lastWeak = a.positions.getLast?
  below : ∀ seq ∈ a.positions, seq < a.client.nextSeq
  increasing : a.positions.Pairwise (· < ·)
  links : ∀ w ∈ a.weakCommands, ∃ before after,
    a.positions = before ++ w.id.seq :: after ∧ w.causalDep = before.getLast?

variable {a : Account}

theorem linked_start (id : ClientId) (bound : ReplicaId) (config : Config) :
    (Account.start id bound config).Linked where
  lastWeak_eq := rfl
  below := by simp [Account.start, positions]
  increasing := List.Pairwise.nil
  links := by simp [Account.start, weakCommands]

/-- The account stays linked when a client issues a command. -/
theorem Linked.issue (h : a.Linked) (weak : Bool) (command : Command) :
    (a.take (.issue weak command)).Linked := by
  cases weak with
  | false =>
      have hsent : (a.take (.issue false command)).weakCommands = a.weakCommands := by
        simp [take, weakCommands, Client.issue, propose, weakCommandOf?,
          ReplicaMessage.weakCommand?]
      constructor
      case lastWeak_eq => exact h.lastWeak_eq
      case below => exact fun seq hseq => Nat.lt_succ_of_lt (h.below seq hseq)
      case increasing => exact h.increasing
      case links => exact fun w hw => h.links w (hsent ▸ hw)
  | true =>
      have hpositions : (a.take (.issue true command)).positions =
          a.positions ++ [a.client.nextSeq] := by
        simp [take, positions, Client.issue, proposeWeak]
      have hsent : ∃ causal, (a.take (.issue true command)).weakCommands =
          a.weakCommands ++ [⟨a.next, command, a.client.lastWeak, causal⟩] := by
        simp only [take, weakCommands, Client.issue, proposeWeak, if_true, List.filterMap_append]
        cases a.client.config.variant with
        | leaderOnly => exact ⟨false, rfl⟩
        | everyReplica => exact ⟨true, rfl⟩
      constructor
      case lastWeak_eq => rw [hpositions, List.getLast?_concat]; rfl
      case below =>
        intro seq hseq
        rw [hpositions] at hseq
        rcases List.mem_append.1 hseq with hold | hnew
        · exact Nat.lt_succ_of_lt (h.below seq hold)
        · rw [List.mem_singleton.1 hnew]
          exact Nat.lt_succ_self _
      case increasing =>
        rw [hpositions, List.pairwise_append]
        refine ⟨h.increasing, List.pairwise_singleton _ _, fun seq hseq next hnext => ?_⟩
        rw [List.mem_singleton.1 hnext]
        exact h.below seq hseq
      case links =>
        obtain ⟨causal, hsent⟩ := hsent
        intro w hw
        rw [hsent] at hw
        rw [hpositions]
        rcases List.mem_append.1 hw with hold | hnew
        · obtain ⟨before, after, hplace, hdep⟩ := h.links w hold
          exact ⟨before, after ++ [a.client.nextSeq], by rw [hplace]; simp, hdep⟩
        · rw [List.mem_singleton.1 hnew]
          exact ⟨a.positions, [], rfl, h.lastWeak_eq⟩

/-- The account stays linked when a message comes. -/
theorem Linked.message (h : a.Linked) (m : ClientMessage) : (a.take (.message m)).Linked := by
  have hreacts := reacts_handle a.client m
  generalize hreaction : a.client.handle m = reaction at hreacts
  have hframe : reaction.client.lastWeak = a.client.lastWeak ∧
      reaction.client.nextSeq = a.client.nextSeq ∧ reaction.sent.filterMap weakCommandOf? = [] := by
    cases hreacts <;> exact ⟨rfl, rfl, rfl⟩
  obtain ⟨hlast, hseq, hsent⟩ := hframe
  have hcommands : (a.take (.message m)).weakCommands = a.weakCommands := by
    simp [take, weakCommands, hreaction, hsent]
  constructor
  case lastWeak_eq =>
    rw [← hreaction] at hlast
    exact hlast.trans h.lastWeak_eq
  case below =>
    intro seq hmem
    rw [← hreaction] at hseq
    exact hseq ▸ h.below seq hmem
  case increasing => exact h.increasing
  case links => exact fun w hw => h.links w (hcommands ▸ hw)

theorem linked_takeAll (id : ClientId) (bound : ReplicaId) (config : Config)
    (inputs : List Input) : ((Account.start id bound config).takeAll inputs).Linked := by
  have hfold : ∀ a : Account, a.Linked → (a.takeAll inputs).Linked := by
    induction inputs with
    | nil => exact fun a h => h
    | cons input inputs ih =>
        intro a h
        refine ih _ ?_
        cases input with
        | issue weak command => exact h.issue weak command
        | message m => exact h.message m
  exact hfold _ (linked_start id bound config)

/-- Whatever a client issues and whatever comes to it, weak commands of which those of the client
are among the ones that it has sent, each once, are chained. -/
theorem chains (id : ClientId) (bound : ReplicaId) (config : Config) (inputs : List Input)
    {ws : List WeakCommand}
    (hsent : ∀ w ∈ ws, w.id.client = id →
      w ∈ ((Account.start id bound config).takeAll inputs).weakCommands)
    (honce : ws.Pairwise fun w w' => w.id.client = id → w.id ≠ w'.id) :
    Chains id ((Account.start id bound config).takeAll inputs).positions ws where
  increasing := (linked_takeAll id bound config inputs).increasing
  links w hw hclient := (linked_takeAll id bound config inputs).links w (hsent w hw hclient)
  once := honce

end Account

end WitnessReplication.Client
