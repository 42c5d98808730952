import Mathlib.Algebra.Order.BigOperators.Group.List
import Mathlib.Algebra.Order.Group.Nat
import WitnessReplication.Proofs.Client.Reacting
import WitnessReplication.Proofs.Network.Delivering
import WitnessReplication.Proofs.Network.Rules
import WitnessReplication.Proofs.Replica.Spending

/-!
# What a network may yet send

A client owes two messages for each strong command that has not escalated, the request for its
committed result and the answer to that (`Client.dues`). A network is worth what the messages in
flight are and what its replicas and clients owe (`Network.worth`).

Whoever handles a message lowers the worth of the network (`Network.worth_receive`), so that
besides losing messages only the issue of a command raises it, by no more than what the command
costs (`Network.worth_act`).
-/

namespace WitnessReplication

/-- How many messages a command can lead to, its own among them. -/
def Config.commandCost (config : Config) : Nat := 6 * config.replicas - 1

/-- How many messages a client owes for a strong command. -/
def Client.Pending.dues (p : Client.Pending) : Nat := if p.escalated then 0 else 2

/-- How many messages a client owes. -/
def Client.dues (c : Client) : Nat := Tables.total Client.Pending.dues c.pending

/-- How many messages a letter stands for. -/
def Network.Letter.worth (config : Config) : Network.Letter → Nat
  | .toReplica id m => m.worth config (config.isLeader id)
  | .toClient _ _ => 1

/-- How many messages a network can have in flight and send, with no command issued. -/
def Network.worth (config : Config) (n : Network) : Nat :=
  (n.pool.map (Network.Letter.worth config)).sum + (n.replicas.map (Replica.dues config)).sum +
    (n.clients.map Client.dues).sum

/-- A network of the replicas and clients of a configuration. -/
structure Network.Staffed (config : Config) (n : Network) : Prop where
  length_replicas : n.replicas.length = config.replicas
  config_eq : ∀ {i : Nat} {r : Replica}, n.replicas[i]? = some r → r.config = config
  isLeader_eq : ∀ {i : Nat} {r : Replica}, n.replicas[i]? = some r →
    r.isLeader = config.isLeader i
  client : ∀ {i : Nat} {c : Client}, n.clients[i]? = some c →
    c.config = config ∧ config.leader < config.replicas

variable {config : Config} {bounds : List ReplicaId} {n : Network} {s : Sent} {i place : Nat}

theorem Chronicle.Reachable.staffed {c : Chronicle} (hc : c.Reachable config bounds) :
    c.network.Staffed config where
  length_replicas := hc.length_replicas
  config_eq hr := hc.history.sound.replicas.config_eq hr
  isLeader_eq {i r} hr := by
    rw [hc.history.sound.replicas.isLeader_eq hr]
    exact decide_eq_decide.2 eq_comm
  client hclient := ⟨(hc.history.sound.clients.sound hclient).config_eq, (hc.bound_lt hclient).1⟩

/-! ### Members of lists -/

namespace Network

variable {α : Type} {l : List α} {a : α}

theorem sum_map_eraseIdx (f : α → Nat) (h : l[i]? = some a) :
    ((l.eraseIdx i).map f).sum + f a = (l.map f).sum := by
  obtain ⟨hi, rfl⟩ := List.getElem?_eq_some_iff.1 h
  rw [← ((List.getElem_cons_eraseIdx_perm hi).map f).sum_nat, List.map_cons, List.sum_cons,
    Nat.add_comm]

theorem sum_map_set (f : α → Nat) (h : l[i]? = some a) (b : α) :
    ((l.set i b).map f).sum + f a = (l.map f).sum + f b := by
  obtain ⟨hi, -⟩ := List.getElem?_eq_some_iff.1 h
  have herase := sum_map_eraseIdx f h
  have hset := ((List.set_perm_cons_eraseIdx hi b).map f).sum_nat
  rw [List.map_cons, List.sum_cons] at hset
  omega

/-- The replicas beside one. -/
theorem length_others (h : i < config.replicas) :
    ((List.range config.replicas).filter fun id => some id ≠ some i).length = config.others := by
  have herase : ((List.range config.replicas).filter fun id => some id ≠ some i) =
      (List.range config.replicas).erase i := by
    rw [List.nodup_range.erase_eq_filter]
    apply List.filter_congr
    intro id _
    simp [bne, Bool.beq_eq_decide_eq]
  rw [herase, List.length_erase_of_mem (List.mem_range.2 h), List.length_range]
  rfl

end Network

/-! ### Letters -/

theorem ReplicaMessage.worth_pos (m : ReplicaMessage) (leads : Bool) :
    0 < m.worth config leads := by
  cases m <;> cases leads <;> simp [worth]

/-- A message is worth most to the leader. -/
theorem ReplicaMessage.worth_le (m : ReplicaMessage) (leads : Bool) :
    m.worth config leads ≤ m.worth config true := by
  cases leads with
  | true => exact Nat.le_refl _
  | false => cases m <;> simp [worth]

namespace Network

theorem Letter.worth_pos (config : Config) (letter : Letter) : 0 < letter.worth config := by
  cases letter with
  | toReplica id m => exact m.worth_pos _
  | toClient id m => exact Nat.one_pos

/-- The letters in flight are no more than the network is worth. -/
theorem length_pool_le (config : Config) (n : Network) : n.pool.length ≤ n.worth config := by
  have hpool : (n.pool.map (Letter.worth config)).length ≤
      (n.pool.map (Letter.worth config)).sum := by
    apply List.length_le_sum_of_one_le
    intro worth hworth
    obtain ⟨letter, -, rfl⟩ := List.mem_map.1 hworth
    exact letter.worth_pos config
  rw [List.length_map] at hpool
  unfold Network.worth
  omega

/-- Nothing is in flight at the start, and nothing is owed. -/
theorem worth_start (hn : Network.start config bounds = .ok n) :
    n.worth config = 0 := by
  obtain rfl := Network.start_eq hn
  have hreplicas : ((List.range config.replicas).map fun id =>
      (Replica.initial id config).dues config).sum = 0 :=
    List.sum_eq_zero (by simp [Replica.dues, Replica.initial])
  have hclients : (bounds.zipIdx.map fun bound =>
      ({ id := bound.2 + 1, bound := bound.1, config } : Client).dues).sum = 0 :=
    List.sum_eq_zero (by simp [Client.dues])
  simp [worth, Function.comp_def, hreplicas, hclients]

/-- What the letters of sent messages are worth. -/
def posting (config : Config) (n : Network) (sender : Option ReplicaId) (sent : List Sent) : Nat :=
  ((sent.flatMap (n.letters sender)).map (Letter.worth config)).sum

/-- A replica gives way to another state of it, which has sent something. -/
theorem worth_post_replica (config : Config) {r : Replica} (hr : n.replicas[i]? = some r) (r' : Replica)
    (sender : Option ReplicaId) (sent : List Sent) :
    ({ n with replicas := n.replicas.set i r' }.post sender sent).worth config + r.dues config =
      n.worth config + r'.dues config + n.posting config sender sent := by
  have hset := sum_map_set (Replica.dues config) hr r'
  have hletters : ({ n with replicas := n.replicas.set i r' } : Network).letters sender =
      n.letters sender :=
    funext fun s => Chronicle.letters_congr List.length_set sender s
  simp only [post, hletters, worth, posting, List.map_append, List.sum_append]
  omega

/-- A client gives way to another state of it, which has sent something. -/
theorem worth_post_client (config : Config) {c : Client} (hc : n.clients[i]? = some c)
    (c' : Client) (sent : List Sent) :
    ({ n with clients := n.clients.set i c' }.post none sent).worth config + c.dues =
      n.worth config + c'.dues + n.posting config none sent := by
  have hset := sum_map_set Client.dues hc c'
  have hletters : ({ n with clients := n.clients.set i c' } : Network).letters none =
      n.letters none :=
    funext fun s => Chronicle.letters_congr rfl none s
  simp only [post, hletters, worth, posting, List.map_append, List.sum_append]
  omega

/-- A replica's message goes to the others, or to one addressee. -/
theorem posting_replica (hn : n.Staffed config) (hi : i < config.replicas) (sent : List Sent) :
    n.posting config (some i) sent ≤ (sent.map (Sent.worth config)).sum := by
  have hone : ∀ s, ((n.letters (some i) s).map (Letter.worth config)).sum ≤ s.worth config := by
    intro s
    cases s with
    | toReplica id m => simp [letters, Letter.worth, Sent.worth]
    | toClient id m => simp [letters, Letter.worth, Sent.worth]
    | toAll m =>
        have hletters := List.sum_le_card_nsmul
          ((n.letters (some i) (.toAll m)).map (Letter.worth config)) (m.worth config true)
          (fun worth hworth => by
            obtain ⟨letter, hletter, rfl⟩ := List.mem_map.1 hworth
            obtain ⟨id, -, rfl⟩ := List.mem_map.1 hletter
            exact m.worth_le _)
        rw [letters, hn.length_replicas, List.length_map, List.length_map, length_others hi]
          at hletters
        rw [letters, hn.length_replicas]
        exact hletters
  induction sent with
  | nil => exact Nat.le_refl _
  | cons s sent ih =>
      have hfirst := hone s
      simp only [posting, List.flatMap_cons, List.map_append, List.sum_append, List.map_cons,
        List.sum_cons] at ih ⊢
      omega

/-- A client's message to all is worth what it is to the leader and to each of the others. -/
theorem posting_all (hn : n.Staffed config) (hleader : config.leader < config.replicas)
    (m : ReplicaMessage) : n.posting config none [.toAll m] =
      m.worth config true + config.others * m.worth config false := by
  have hrange := List.perm_cons_erase (List.mem_range.2 hleader)
  have hothers : ∀ id ∈ (List.range config.replicas).erase config.leader,
      Letter.worth config (.toReplica id m) = m.worth config false := by
    intro id hid
    have hne := (List.nodup_range.mem_erase_iff.1 hid).1
    simp [Letter.worth, Config.isLeader, Ne.symm hne]
  have hlength := List.length_erase_of_mem (List.mem_range.2 hleader)
  rw [List.length_range] at hlength
  have hsum : (((List.range config.replicas).erase config.leader).map
      fun id => Letter.worth config (.toReplica id m)).sum =
        config.others * m.worth config false := by
    rw [List.map_congr_left hothers, List.map_const', List.sum_const_nat, hlength]
    rfl
  have hperm := (hrange.map fun id => Letter.worth config (.toReplica id m)).sum_nat
  rw [List.map_cons, List.sum_cons, hsum] at hperm
  simpa [posting, letters, hn.length_replicas, Function.comp_def, Letter.worth, Config.isLeader]
    using hperm

end Network

/-- What a replica sends is what its effects are worth. -/
theorem Replica.spent_step {r : Replica} (hconfig : r.config = config) (m : ReplicaMessage) :
    ((r.step m).2.map (Sent.worth config)).sum = spent config (r.handle m).2 := by
  simp only [step, hconfig]
  generalize (r.handle m).2 = effects
  induction effects with
  | nil => rfl
  | cons e effects ih =>
      rw [spent_cons, ← ih, Effect.worth, List.filterMap_cons]
      cases e.sent config.leader with
      | none => simp
      | some s => simp

/-! ### Clients -/

/-- A client pays for the request that it sends with what it owed. -/
theorem Client.posting_handle (config : Config) (n : Network) (c : Client) (m : ClientMessage) :
    n.posting config none (c.handle m).sent + (c.handle m).client.dues ≤ c.dues := by
  have hreacts := reacts_handle c m
  generalize c.handle m = reaction at hreacts
  cases hreacts with
  | passed => exact Nat.le_of_eq (Nat.zero_add _)
  | @counted id p p' hp hescalated =>
      have htotal := Tables.total_insert Pending.dues hp p'
      have hsame : p'.dues = p.dues := by rw [Pending.dues, hescalated, Pending.dues]
      simp only [Network.posting, dues, List.flatMap_nil, List.map_nil, List.sum_nil]
      omega
  | @escalated id p p' hp hbefore hafter =>
      have htotal := Tables.total_insert Pending.dues hp p'
      simp only [Pending.dues, hbefore, hafter, Bool.false_eq_true, if_true, if_false] at htotal
      simp [Network.posting, Network.letters, Network.Letter.worth, ReplicaMessage.worth, dues]
      omega
  | @completed id p value path hp hpath =>
      have htotal := Tables.total_erase Pending.dues hp
      simp only [Network.posting, dues, List.flatMap_nil, List.map_nil, List.sum_nil]
      omega
  | completedWeak hid => exact Nat.le_of_eq (Nat.zero_add _)

/-- What a client owes for a command and what the command's messages are worth is what the command
costs, at most. -/
theorem Client.posting_issue (hn : n.Staffed config) {c : Client}
    (hc : n.clients[place]? = some c) (weak : Bool) (command : Command) :
    n.posting config none (c.issue weak command).2.2 + (c.issue weak command).1.dues ≤
      c.dues + config.commandCost := by
  obtain ⟨hconfig, hleader⟩ := hn.client hc
  have hreplicas : 0 < config.replicas := Nat.zero_lt_of_lt hleader
  cases weak with
  | false =>
      have hsent := Network.posting_all hn hleader (.propose ⟨⟨c.id, c.nextSeq⟩, command⟩)
      have htotal := Tables.total_insert_le Pending.dues c.pending ⟨c.id, c.nextSeq⟩
        ⟨.new .threeQuarters c.config.replicas c.config.leader true,
          .new .majority c.config.replicas c.config.leader true, false⟩
      simp only [ReplicaMessage.worth, Pending.dues, Bool.false_eq_true, if_true, if_false,
        Config.others] at hsent htotal
      simp only [issue, propose, dues, hsent, Config.commandCost, Bool.false_eq_true, if_false]
      omega
  | true =>
      have hdues : (c.issue true command).1.dues = c.dues := rfl
      rw [hdues]
      cases hvariant : config.variant with
      | leaderOnly =>
          simp [issue, proposeWeak, hconfig, hvariant, Network.posting, Network.letters,
            Network.Letter.worth, Config.isLeader, ReplicaMessage.worth, Config.commandCost,
            Config.others]
          omega
      | everyReplica =>
          have hsent := Network.posting_all hn hleader
            (.causalPropose ⟨⟨c.id, c.nextSeq⟩, command, c.lastWeak, some c.bound⟩)
          simp only [ReplicaMessage.worth, if_true, Bool.false_eq_true, if_false,
            Config.others] at hsent
          simp only [issue, proposeWeak, hconfig, hvariant, hsent, Config.commandCost, if_true]
          omega

/-! ### Actions -/

namespace Network

theorem worth_remove (config : Config) {letter : Letter} (hl : n.pool[place]? = some letter) :
    (n.remove place).worth config + letter.worth config = n.worth config := by
  have hsum := sum_map_eraseIdx (Letter.worth config) hl
  simp only [worth, remove]
  omega

theorem length_remove {letter : Letter} (hl : n.pool[place]? = some letter) :
    (n.remove place).pool.length + 1 = n.pool.length := by
  obtain ⟨hlt, -⟩ := List.getElem?_eq_some_iff.1 hl
  rw [remove, List.length_eraseIdx_of_lt hlt]
  omega

theorem Staffed.remove (hn : n.Staffed config) (place : Nat) :
    (n.remove place).Staffed config :=
  ⟨hn.length_replicas, hn.config_eq, hn.isLeader_eq, hn.client⟩

/-- A letter that is handed over is worth more than what that leads to. -/
theorem worth_receive (hn : n.Staffed config) (letter : Letter) :
    (n.receive letter).1.worth config + 1 ≤ n.worth config + letter.worth config := by
  have hpos : 1 ≤ letter.worth config := letter.worth_pos config
  cases letter with
  | toReplica id m =>
      cases hr : n.replicas[id]? with
      | none =>
          simp only [receive, hr]
          omega
      | some r =>
          have hid : id < config.replicas :=
            hn.length_replicas ▸ (List.getElem?_eq_some_iff.1 hr).1
          have hhandle := r.spent_handle config m
          rw [hn.isLeader_eq hr, ← Replica.spent_step (hn.config_eq hr)] at hhandle
          have hposting := posting_replica hn hid (r.step m).2
          have hworth := worth_post_replica config hr (r.step m).1 (some id)
            (r.step m).2
          have hdues : (r.step m).1.dues config = (r.handle m).1.dues config := rfl
          simp only [receive, hr, Letter.worth]
          omega
  | toClient id m =>
      by_cases hid : id = 0
      · simp only [receive, if_pos hid]
        omega
      · cases hc : n.clients[id - 1]? with
        | none =>
            simp only [receive, hid, hc, if_false]
            omega
        | some c =>
            have hhandle := c.posting_handle config n m
            have hworth := worth_post_client config hc (c.handle m).client
              (c.handle m).sent
            simp only [receive, hid, hc, if_false, Letter.worth]
            omega

/-! ### Actions -/

/-- What an action leaves in flight of what was so. -/
def kept (n : Network) : Action → List Letter
  | .deliver place => n.pool.eraseIdx place
  | .drop place => n.pool.eraseIdx place
  | _ => n.pool

/-- What an action puts in flight. -/
def posted (n : Network) (action : Action) : List Letter :=
  (n.act action).pool.drop (n.kept action).length

theorem kept_prefix_receive (n : Network) (letter : Letter) :
    n.pool <+: (n.receive letter).1.pool := by
  cases letter with
  | toReplica id m =>
      cases hr : n.replicas[id]? <;> simp [receive, hr, post]
  | toClient id m =>
      by_cases hid : id = 0
      · simp [receive, hid]
      · cases hc : n.clients[id - 1]? <;> simp [receive, hid, hc, post]

/-- An action leaves messages in flight and puts others behind them. -/
theorem kept_append_posted (n : Network) (action : Action) :
    n.kept action ++ n.posted action = (n.act action).pool := by
  have hprefix : n.kept action <+: (n.act action).pool := by
    cases action with
    | propose place command =>
        cases hc : n.clients[place]? <;> simp [kept, act, perform, issue, hc, post]
    | proposeWeak place command =>
        cases hc : n.clients[place]? <;> simp [kept, act, perform, issue, hc, post]
    | deliver place =>
        cases hl : n.pool[place]? with
        | none =>
            have hle : n.pool.length ≤ place := List.getElem?_eq_none_iff.1 hl
            simp [kept, act, perform, hl, List.eraseIdx_of_length_le hle]
        | some letter =>
            simp only [kept, act, perform, hl]
            exact (n.remove place).kept_prefix_receive letter
    | drop place => exact List.prefix_rfl
    | duplicate place => exact List.prefix_append _ _
  obtain ⟨more, hmore⟩ := hprefix
  rw [posted, ← hmore, List.drop_left]

theorem length_kept_le (n : Network) (action : Action) :
    (n.kept action).length ≤ n.pool.length := by
  cases action with
  | deliver place => exact List.length_eraseIdx_le _ _
  | drop place => exact List.length_eraseIdx_le _ _
  | _ => exact Nat.le_refl _

theorem worth_issue (hn : n.Staffed config) (weak : Bool) (place : Nat) (command : Command)
    {action : Action}
    (haction : action = if weak then .proposeWeak place command else .propose place command) :
    (n.act action).worth config ≤
      n.worth config + config.commandCost * (n.requested action).length := by
  cases hc : n.clients[place]? with
  | none => cases weak <;> simp [haction, act, perform, issue, requested, hc]
  | some c =>
      have hissue := Client.posting_issue hn hc weak command
      have hworth := worth_post_client config hc (c.issue weak command).1
        (c.issue weak command).2.2
      have hact : n.act action =
          { n with clients := n.clients.set place (c.issue weak command).1 }.post none
            (c.issue weak command).2.2 := by
        cases weak <;> simp [haction, act, perform, issue, Client.issue, hc]
      have hrequested : (n.requested action).length = 1 := by
        cases weak <;> simp [haction, perform, issue, requested, hc]
      rw [hact, hrequested]
      omega

/-- Each message that leaves the network lowers what that is worth, and only a command raises it. -/
theorem worth_act (hn : n.Staffed config) {action : Action}
    (hrule : Rule.unrepeated n action = true) :
    (n.act action).worth config + n.pool.length ≤
      n.worth config + (n.kept action).length +
        config.commandCost * (n.requested action).length := by
  cases action with
  | propose place command =>
      have hissue := worth_issue hn false place command rfl
      simp only [kept, Bool.false_eq_true, if_false] at hissue ⊢
      omega
  | proposeWeak place command =>
      have hissue := worth_issue hn true place command rfl
      simp only [kept, if_true] at hissue ⊢
      omega
  | deliver place =>
      cases hl : n.pool[place]? with
      | none =>
          have hle : n.pool.length ≤ place := List.getElem?_eq_none_iff.1 hl
          simp [kept, act, perform, hl, List.eraseIdx_of_length_le hle]
      | some letter =>
          have hremove := worth_remove config hl
          have hreceive := worth_receive (hn.remove place) letter
          have hlength := length_remove hl
          simp only [kept, act, perform, hl, requested, List.length_nil]
          simp only [remove] at hlength
          omega
  | drop place =>
      cases hl : n.pool[place]? with
      | none =>
          have hle : n.pool.length ≤ place := List.getElem?_eq_none_iff.1 hl
          simp [kept, act, perform, remove, List.eraseIdx_of_length_le hle]
      | some letter =>
          have hremove := worth_remove config hl
          have hpos := letter.worth_pos config
          have hlength := length_remove hl
          simp only [kept, act, perform, requested, List.length_nil]
          simp only [remove] at hremove hlength ⊢
          omega
  | duplicate place => simp [Rule.unrepeated] at hrule

end Network

end WitnessReplication
