import WitnessReplication.Proofs.Client.Soundness
import WitnessReplication.Proofs.Network.Turns

/-!
# What every history keeps

In every history the replicas follow the leader's order and the leader leads it, each message in
flight and each completion is backed, and what was recorded fits together: commands are issued
once, only issued requests have slots, and a strong one has one slot.

Each action keeps this (`History.Sound.act`), so that it holds of every history that can be
reached (`History.Reachable.sound`).
-/

namespace WitnessReplication

namespace Network

/-- A message in flight is backed. -/
def Letter.Backed (config : Config) (log : Log) (issued : List Request) (bound : Slot) :
    Letter → Prop
  | .toReplica id m => m.Backed log issued (decide (id = config.leader))
  | .toClient _ m => m.Backed config log bound

end Network

/-- A message is backed for everyone that it is sent to. -/
def Sent.Backed (config : Config) (log : Log) (issued : List Request) (bound : Slot)
    (sender : Option ReplicaId) : Sent → Prop
  | .toAll m => ∀ id, some id ≠ sender → m.Backed log issued (decide (id = config.leader))
  | .toReplica id m => m.Backed log issued (decide (id = config.leader))
  | .toClient _ m => m.Backed config log bound

namespace Network

variable {config : Config} {log log' : Log} {issued issued' : List Request} {bound bound' : Slot}
variable {n : Network} {sender : Option ReplicaId}

theorem Letter.Backed.mono {letter : Letter} (h : letter.Backed config log issued bound)
    (hlog : log <+: log') (hissued : issued ⊆ issued') (hb : bound ≤ bound') :
    letter.Backed config log' issued' bound' := by
  cases letter with
  | toReplica id m => exact ReplicaMessage.Backed.mono h hlog hissued
  | toClient id m => exact ClientMessage.Backed.mono h hlog hb

theorem letters_backed {s : Sent} (h : s.Backed config log issued bound sender) :
    ∀ letter ∈ n.letters sender s, letter.Backed config log issued bound := by
  intro letter hmem
  cases s with
  | toAll m =>
      simp only [letters, List.mem_map, List.mem_filter] at hmem
      obtain ⟨id, ⟨-, hne⟩, rfl⟩ := hmem
      exact h id (by simpa using hne)
  | toReplica id m =>
      obtain rfl := List.mem_singleton.1 hmem
      exact h
  | toClient id m =>
      obtain rfl := List.mem_singleton.1 hmem
      exact h

/-- Putting backed messages in flight leaves all of those backed. -/
theorem backed_post {sent : List Sent}
    (hpool : ∀ letter ∈ n.pool, letter.Backed config log issued bound)
    (hsent : ∀ s ∈ sent, s.Backed config log issued bound sender) :
    ∀ letter ∈ (n.post sender sent).pool, letter.Backed config log issued bound := by
  intro letter hmem
  rcases List.mem_append.1 hmem with hmem | hmem
  · exact hpool letter hmem
  · obtain ⟨s, hs, hmem⟩ := List.mem_flatMap.1 hmem
    exact letters_backed (hsent s hs) letter hmem

end Network

/-- The message of a backed effect is backed for everyone that it is sent to. -/
theorem Replica.Effect.Backed.sent {config : Config} {log : Log} {bound : Slot} {leads : Bool}
    {e : Replica.Effect} {s : Sent} {sender : ReplicaId} {issued : List Request}
    (h : e.Backed config log bound leads) (hsender : leads = decide (sender = config.leader))
    (hs : e.sent config.leader = some s) : s.Backed config log issued bound (some sender) := by
  cases e with
  | broadcast m =>
      obtain rfl := Option.some.inj hs
      obtain ⟨body, rfl⟩ := h
      exact fun _ _ => trivial
  | tell client m =>
      obtain rfl := Option.some.inj hs
      exact h
  | accept a =>
      obtain rfl := Option.some.inj hs
      obtain ⟨rfl, hfits⟩ := h
      intro id hne
      have hleader : sender = config.leader := by simpa using hsender.symm
      refine ⟨?_, hfits⟩
      simpa [← hleader] using hne
  | acceptAck a =>
      obtain rfl := Option.some.inj hs
      trivial
  | opened slot => simp [Replica.Effect.sent] at hs
  | committed slot => simp [Replica.Effect.sent] at hs
  | executed slot => simp [Replica.Effect.sent] at hs
  | weakExecuted client => simp [Replica.Effect.sent] at hs

/-- The replicas of a cluster follow a log, which its leader leads. -/
structure Replica.AllFollow (config : Config) (log : Log) (replicas : List Replica) : Prop where
  id_eq : ∀ {i : Nat} {r : Replica}, replicas[i]? = some r → r.id = i
  config_eq : ∀ {i : Nat} {r : Replica}, replicas[i]? = some r → r.config = config
  follows : ∀ {i : Nat} {r : Replica}, replicas[i]? = some r → r.Follows log
  leads : ∀ {r : Replica}, replicas[config.leader]? = some r → r.Leads log

/-- The clients of a network are sound. -/
structure Client.AllSound (config : Config) (log : Log) (issued : List Request) (bound : Slot)
    (clients : List Client) : Prop where
  id_eq : ∀ {i : Nat} {c : Client}, clients[i]? = some c → c.id = i + 1
  sound : ∀ {i : Nat} {c : Client}, clients[i]? = some c → c.Sound config log issued bound

/-- Commands are issued once, only issued requests have slots, a strong one has one slot, and the
leader led the slots before each one when it gave that out. -/
structure Log.Records (log : Log) (issued : List Request) : Prop where
  issued_unique : ∀ {q q' : Request}, q ∈ issued → q' ∈ issued → q.id = q'.id → q = q'
  request_issued : ∀ {slot : Slot} {q : Request}, log.request? slot = some q → q ∈ issued
  slot_unique : ∀ {slot slot' : Slot} {q q' : Request}, log.request? slot = some q →
    log.request? slot' = some q' → q.id = q'.id → q.weak = false → slot = slot'
  leader_led : ∀ {slot : Slot} {a : Assignment}, log[slot]? = some a →
    a.leader.Leads (log.take slot)

/-- What every history keeps. -/
structure History.Sound (config : Config) (h : History) : Prop where
  replicas : Replica.AllFollow config h.log h.network.replicas
  clients : Client.AllSound config h.log h.issued (h.frontier config) h.network.clients
  records : h.log.Records h.issued
  pool : ∀ letter ∈ h.network.pool, letter.Backed config h.log h.issued (h.frontier config)
  completions : ∀ done ∈ h.completions,
    done.Backed config h.log h.issued (h.frontier config)

variable {config : Config} {bounds : List ReplicaId} {log log' more : Log}
variable {issued issued' : List Request} {bound bound' : Slot} {h : History} {n : Network}

/-! ### Before the first action -/

/-- Where a function that may fail gives a list of results, it gives each of them. -/
theorem forall₂_of_mapM {α β ε : Type} {f : α → Except ε β} {xs : List α} {ys : List β}
    (h : xs.mapM f = .ok ys) : List.Forall₂ (fun x y => f x = .ok y) xs ys := by
  induction xs generalizing ys with
  | nil =>
      obtain rfl : [] = ys := by simpa [pure, Except.pure] using h
      exact .nil
  | cons x xs ih =>
      rw [List.mapM_cons] at h
      cases hx : f x with
      | error e => simp [hx, bind, Except.bind] at h
      | ok y =>
          cases hxs : xs.mapM f with
          | error e => simp [hx, hxs, bind, Except.bind] at h
          | ok rest =>
              obtain rfl : y :: rest = ys := by
                simpa [hx, hxs, bind, Except.bind, pure, Except.pure] using h
              exact .cons hx (ih hxs)

/-- A network starts if all its replicas and clients do, and has nothing in flight then. -/
theorem Network.members_of_start (h : Network.start config bounds = .ok n) :
    List.Forall₂ (fun id r => Replica.start id config = .ok r)
        (List.range config.replicas) n.replicas ∧
      List.Forall₂ (fun bound client => Client.start (bound.2 + 1) bound.1 config = .ok client)
        bounds.zipIdx n.clients ∧
      n.pool = [] := by
  unfold Network.start at h
  cases hr : (List.range config.replicas).mapM fun id => Replica.start id config with
  | error e => simp [hr, bind, Except.bind] at h
  | ok replicas =>
      cases hc : bounds.zipIdx.mapM fun bound => Client.start (bound.2 + 1) bound.1 config with
      | error e => simp [hr, hc, bind, Except.bind] at h
      | ok clients =>
          obtain rfl : ⟨replicas, clients, []⟩ = n := by
            simpa [hr, hc, bind, Except.bind, pure, Except.pure] using h
          exact ⟨forall₂_of_mapM hr, forall₂_of_mapM hc, rfl⟩

theorem Replica.start_eq_ok {id : ReplicaId} {r : Replica} (h : Replica.start id config = .ok r) :
    config.validateReplica id = .ok () ∧ r = .initial id config := by
  unfold Replica.start at h
  split at h
  · simp at h
  · rename_i hvalid
    split at h
    · simp at h
    · exact ⟨hvalid, (Except.ok.inj h).symm⟩

theorem Client.start_eq_ok {id : ClientId} {place : ReplicaId} {client : Client}
    (h : Client.start id place config = .ok client) :
    config.validateReplica place = .ok () ∧ client = { id, bound := place, config } := by
  unfold Client.start at h
  split at h
  · simp at h
  · rename_i hvalid
    exact ⟨hvalid, (Except.ok.inj h).symm⟩

/-- A network starts with initial replicas and clients and with nothing in flight. -/
theorem Network.start_eq (h : Network.start config bounds = .ok n) :
    n = ⟨(List.range config.replicas).map fun id => .initial id config,
      bounds.zipIdx.map fun bound => { id := bound.2 + 1, bound := bound.1, config }, []⟩ := by
  obtain ⟨replicas, clients, pool⟩ := n
  obtain ⟨hreplicas, hclients, rfl⟩ := Network.members_of_start h
  have hr := hreplicas.imp fun id r hr => (Replica.start_eq_ok hr).2.symm
  have hc := hclients.imp fun bound client hc => (Client.start_eq_ok hc).2.symm
  rw [← List.forall₂_map_left_iff, List.forall₂_eq_eq_eq] at hr hc
  rw [hr, hc]

/-- A client without commands is sound. -/
theorem Client.sound_initial (id : ClientId) (bound : ReplicaId) (log : Log) (frontier : Slot) :
    Client.Sound config log [] frontier { id, bound, config } where
  config_eq := rfl
  seq_lt q hq := by simp at hq
  pending_issued id p hp := by simp at hp
  pending_backed id p hp := by simp at hp
  weak_issued id hid := by simp at hid

/-- Histories start sound. -/
theorem History.sound_start (hn : Network.start config bounds = .ok n) :
    (History.start n).Sound config := by
  obtain rfl := Network.start_eq hn
  have hreplica : ∀ {i : Nat} {r : Replica},
      ((List.range config.replicas).map fun id => Replica.initial id config)[i]? = some r →
        r = .initial i config := by
    intro i r hr
    rw [List.getElem?_map] at hr
    obtain ⟨id, hid, rfl⟩ := Option.map_eq_some_iff.1 hr
    obtain ⟨hlt, rfl⟩ := List.getElem?_eq_some_iff.1 hid
    rw [List.getElem_range]
  have hclient : ∀ {i : Nat} {c : Client},
      (bounds.zipIdx.map fun bound =>
        ({ id := bound.2 + 1, bound := bound.1, config } : Client))[i]? = some c →
        ∃ bound, c = { id := i + 1, bound, config } := by
    intro i c hc
    rw [List.getElem?_map, List.getElem?_zipIdx] at hc
    obtain ⟨bound, hbound, rfl⟩ := Option.map_eq_some_iff.1 hc
    obtain ⟨id, -, rfl⟩ := Option.map_eq_some_iff.1 hbound
    exact ⟨id, by simp⟩
  constructor
  case replicas =>
    constructor
    case id_eq => exact fun hr => hreplica hr ▸ rfl
    case config_eq => exact fun hr => hreplica hr ▸ rfl
    case follows => exact fun hr => hreplica hr ▸ Replica.follows_initial _ config []
    case leads => exact fun hr => hreplica hr ▸ Replica.leads_initial
  case clients =>
    constructor
    case id_eq =>
      intro i c hc
      obtain ⟨bound, rfl⟩ := hclient hc
      rfl
    case sound =>
      intro i c hc
      obtain ⟨bound, rfl⟩ := hclient hc
      exact Client.sound_initial _ bound [] _
  case records =>
    constructor
    case issued_unique => exact fun hq => absurd hq List.not_mem_nil
    case request_issued => exact fun hq => by simp [start, Log.request?] at hq
    case slot_unique => exact fun hq => by simp [start, Log.request?] at hq
    case leader_led => exact fun ha => by simp [start] at ha
  case pool => exact fun letter hmem => absurd hmem List.not_mem_nil
  case completions => exact fun done hmem => absurd hmem List.not_mem_nil

/-! ### Issuing a command -/

/-- Replacing an entry of a list leaves the other entries. -/
theorem of_getElem?_set {α : Type} {xs : List α} {i j : Nat} {x y : α}
    (h : (xs.set i x)[j]? = some y) : (j = i ∧ y = x) ∨ (j ≠ i ∧ xs[j]? = some y) := by
  rw [List.getElem?_set] at h
  split at h
  · rename_i heq
    split at h
    · exact .inl ⟨heq.symm, (Option.some.inj h).symm⟩
    · simp at h
  · rename_i hne
    exact .inr ⟨Ne.symm hne, h⟩

/-- A request that is not issued yet is issued once. -/
theorem Log.Records.issue (h : log.Records issued) {q : Request}
    (hnew : ∀ q' ∈ issued, q'.id ≠ q.id) : log.Records (issued ++ [q]) where
  issued_unique := by
    intro q₁ q₂ h₁ h₂ hid
    rcases List.mem_append.1 h₁ with hold₁ | hnew₁
    · rcases List.mem_append.1 h₂ with hold₂ | hnew₂
      · exact h.issued_unique hold₁ hold₂ hid
      · rw [List.mem_singleton.1 hnew₂] at hid
        exact absurd hid (hnew q₁ hold₁)
    · rcases List.mem_append.1 h₂ with hold₂ | hnew₂
      · rw [List.mem_singleton.1 hnew₁] at hid
        exact absurd hid.symm (hnew q₂ hold₂)
      · rw [List.mem_singleton.1 hnew₁, List.mem_singleton.1 hnew₂]
  request_issued hq := List.mem_append_left _ (h.request_issued hq)
  slot_unique := h.slot_unique
  leader_led := h.leader_led

/-- A client that issues a request is followed by the other clients, who have not. -/
theorem Client.AllSound.issue {clients : List Client} {place : Nat} {c c' : Client} {q : Request}
    (h : Client.AllSound config log issued bound clients) (hc : clients[place]? = some c)
    (hid : c'.id = c.id) (hsound : c'.Sound config log (issued ++ [q]) bound)
    (hq : q.id.client = c.id) :
    Client.AllSound config log (issued ++ [q]) bound (clients.set place c') where
  id_eq hget := by
    rcases of_getElem?_set hget with ⟨rfl, rfl⟩ | ⟨-, hget⟩
    · rw [hid, h.id_eq hc]
    · exact h.id_eq hget
  sound hget := by
    rcases of_getElem?_set hget with ⟨rfl, rfl⟩ | ⟨hne, hget⟩
    · exact hsound
    · refine (h.sound hget).issue_other ?_
      rw [hq, h.id_eq hc, h.id_eq hget]
      exact fun heq => hne (Nat.succ.inj heq).symm

/-- Issuing a request at a client keeps a history sound. -/
theorem History.Sound.issue (hs : h.Sound config) {place : Nat} {c c' : Client} {q : Request}
    {sent : List Sent} (hc : h.network.clients[place]? = some c) (hid : c'.id = c.id)
    (hsound : c'.Sound config h.log (h.issued ++ [q]) (h.frontier config))
    (hq : q.id = ⟨c.id, c.nextSeq⟩)
    (hsent : ∀ s ∈ sent, s.Backed config h.log (h.issued ++ [q]) (h.frontier config) none) :
    History.Sound config
      ⟨{ h.network with clients := h.network.clients.set place c' }.post none sent, h.log,
        h.issued ++ [q], h.completions⟩ := by
  have hissued : h.issued ⊆ h.issued ++ [q] := List.subset_append_left _ _
  constructor
  case replicas => exact hs.replicas
  case clients => exact hs.clients.issue hc hid hsound (by rw [hq])
  case records =>
    refine hs.records.issue fun q' hq' heq => ?_
    rw [hq] at heq
    have hlt := (hs.clients.sound hc).seq_lt q' hq' (by rw [heq])
    rw [heq] at hlt
    exact Nat.lt_irrefl _ hlt
  case pool =>
    refine Network.backed_post (fun letter hmem => ?_) hsent
    exact (hs.pool letter hmem).mono List.prefix_rfl hissued (Nat.le_refl _)
  case completions =>
    intro done hdone
    exact (hs.completions done hdone).mono List.prefix_rfl hissued (Nat.le_refl _)

/-! ### Delivering a message -/

/-- Losing and duplicating messages in flight keeps a history sound. -/
theorem History.Sound.thin (hs : h.Sound config) {pool : List Network.Letter}
    (hpool : pool ⊆ h.network.pool) :
    History.Sound config ⟨{ h.network with pool }, h.log, h.issued, h.completions⟩ where
  replicas := hs.replicas
  clients := hs.clients
  records := hs.records
  pool letter hmem := hs.pool letter (hpool hmem)
  completions := hs.completions

/-- A client that handles a backed message keeps a history sound. -/
theorem History.Sound.react (hs : h.Sound config) {place : Nat} {c : Client} {m : ClientMessage}
    (hc : h.network.clients[place]? = some c)
    (hm : m.Backed config h.log (h.frontier config)) :
    History.Sound config
      ⟨{ h.network with clients := h.network.clients.set place (c.handle m).client }.post none
          (c.handle m).sent, h.log, h.issued, h.completions ++ (c.handle m).completion.toList⟩ := by
  have hreaction := (hs.clients.sound hc).handle hm
  constructor
  case replicas => exact hs.replicas
  case clients =>
    constructor
    case id_eq =>
      intro i c' hget
      rcases of_getElem?_set hget with ⟨rfl, rfl⟩ | ⟨-, hget⟩
      · rw [hreaction.id_eq, hs.clients.id_eq hc]
      · exact hs.clients.id_eq hget
    case sound =>
      intro i c' hget
      rcases of_getElem?_set hget with ⟨rfl, rfl⟩ | ⟨-, hget⟩
      · exact hreaction.client
      · exact hs.clients.sound hget
  case records => exact hs.records
  case pool =>
    refine Network.backed_post hs.pool fun s hmem => ?_
    obtain ⟨body, rfl⟩ := hreaction.sent s hmem
    trivial
  case completions =>
    intro done hdone
    rcases List.mem_append.1 hdone with hdone | hdone
    · exact hs.completions done hdone
    · exact hreaction.completion done (Option.mem_toList.1 hdone)

/-- A request that the leader takes up is recorded. -/
theorem Log.Records.take (h : log.Records issued) {q : Request} {r : Replica} (hr : r.Leads log)
    (hq : q ∈ issued) (hnew : q.weak = false → r.slots.contains q.id = false) :
    Log.Records (log ++ [⟨q, r⟩]) issued := by
  constructor
  case issued_unique => exact h.issued_unique
  case request_issued =>
    intro slot q' hq'
    rcases Log.request?_append_eq_some hq' with hold | ⟨-, rfl⟩
    · exact h.request_issued hold
    · exact hq
  case slot_unique =>
    intro slot slot' q₁ q₂ h₁ h₂ hid hstrong
    rcases Log.request?_append_eq_some h₁ with hold₁ | ⟨rfl, rfl⟩
    · rcases Log.request?_append_eq_some h₂ with hold₂ | ⟨rfl, rfl⟩
      · exact h.slot_unique hold₁ hold₂ hid hstrong
      · have hsame := h.issued_unique (h.request_issued hold₁) hq hid
        have hslots := hr.slots_complete hold₁
        rw [hid, hnew (by rw [← hsame, hstrong])] at hslots
        simp at hslots
    · rcases Log.request?_append_eq_some h₂ with hold₂ | ⟨rfl, -⟩
      · have hslots := hr.slots_complete hold₂
        rw [← hid, hnew hstrong] at hslots
        simp at hslots
      · rfl
  case leader_led =>
    intro slot a ha
    have hlt := (List.getElem?_eq_some_iff.1 ha).1
    rw [List.length_append, List.length_singleton] at hlt
    rcases Nat.lt_succ_iff_lt_or_eq.1 hlt with hold | rfl
    · rw [List.getElem?_append_left hold] at ha
      rw [List.take_append_of_le_length (Nat.le_of_lt hold)]
      exact h.leader_led ha
    · obtain rfl : ⟨q, r⟩ = a := by simpa using ha
      rw [List.take_left]
      exact hr

/-- Putting back a replica that follows a longer log keeps the others following. -/
theorem Replica.AllFollow.set {replicas : List Replica} {id : Nat} {r r' : Replica}
    (h : Replica.AllFollow config log replicas) (hr : replicas[id]? = some r)
    (hlog : log <+: log') (hid : r'.id = r.id) (hconfig : r'.config = config)
    (hfollows : r'.Follows log') (hleads : id = config.leader → r'.Leads log')
    (hother : id ≠ config.leader → log' = log) :
    Replica.AllFollow config log' (replicas.set id r') where
  id_eq hget := by
    rcases of_getElem?_set hget with ⟨rfl, rfl⟩ | ⟨-, hget⟩
    · rw [hid, h.id_eq hr]
    · exact h.id_eq hget
  config_eq hget := by
    rcases of_getElem?_set hget with ⟨rfl, rfl⟩ | ⟨-, hget⟩
    · exact hconfig
    · exact h.config_eq hget
  follows hget := by
    rcases of_getElem?_set hget with ⟨rfl, rfl⟩ | ⟨-, hget⟩
    · exact hfollows
    · exact (h.follows hget).mono hlog
  leads hget := by
    rcases of_getElem?_set hget with ⟨heq, rfl⟩ | ⟨hne, hget⟩
    · exact hleads heq.symm
    · rw [hother (Ne.symm hne)]
      exact h.leads hget

theorem Replica.AllFollow.isLeader_eq {replicas : List Replica} {id : Nat} {r : Replica}
    (h : Replica.AllFollow config log replicas) (hr : replicas[id]? = some r) :
    r.isLeader = decide (id = config.leader) := by
  rw [Replica.isLeader, Config.isLeader, h.config_eq hr, h.id_eq hr]
  exact decide_eq_decide.2 eq_comm

/-- The frontier once a replica has been put back. -/
theorem History.frontier_set {id : Nat} {r r' : Replica} {pool : List Network.Letter}
    {completions : List Client.Completion} (hr : h.network.replicas[id]? = some r) :
    History.frontier config
        ⟨{ h.network with replicas := h.network.replicas.set id r', pool }, log, issued,
          completions⟩ =
      if id = config.leader then r'.executed else h.frontier config := by
  have hlt := (List.getElem?_eq_some_iff.1 hr).1
  simp only [History.frontier, List.getElem?_set, hlt, if_true]
  split <;> rfl

/-- A replica that handles a backed message keeps a history sound, with what the leader adds. -/
theorem History.Sound.handle (hs : h.Sound config) {id : Nat} {r : Replica} {m : ReplicaMessage}
    (hr : h.network.replicas[id]? = some r)
    (hm : m.Backed h.log h.issued (decide (id = config.leader))) :
    History.Sound config
      ⟨{ h.network with replicas := h.network.replicas.set id (r.step m).1 }.post (some id)
          (r.step m).2, h.log ++ if r.isLeader then r.assigned m else [], h.issued,
        h.completions⟩ := by
  have hleader := hs.replicas.isLeader_eq hr
  have hconfig := hs.replicas.config_eq hr
  rw [← hleader] at hm
  have hleads : r.isLeader = true → r.Leads h.log := by
    intro hl
    rw [hleader, decide_eq_true_eq] at hl
    exact hs.replicas.leads (hl ▸ hr)
  obtain ⟨more, hmore, hled, hserving, hshape⟩ :=
    Replica.handle_sound (hs.replicas.follows hr) hconfig hleads hm
  rw [hmore]
  have hprefix : h.log <+: h.log ++ more := List.prefix_append _ _
  have hother : id ≠ config.leader → h.log ++ more = h.log := by
    intro hne
    rcases hshape with rfl | ⟨hl, -⟩
    · exact List.append_nil _
    · rw [hleader, decide_eq_true_eq] at hl
      exact absurd hl hne
  let h' : History := ⟨{ h.network with replicas := h.network.replicas.set id (r.step m).1 }.post
    (some id) (r.step m).2, h.log ++ more, h.issued, h.completions⟩
  have hfrontier : h'.frontier config =
      if id = config.leader then (r.handle m).1.executed else h.frontier config :=
    History.frontier_set hr
  have hgrows : h.frontier config ≤ h'.frontier config := by
    rw [hfrontier]
    split
    · rename_i heq
      have hexec : h.frontier config = r.executed := by
        rw [History.frontier, ← heq, hr]
        rfl
      rw [hexec]
      exact hserving.le_executed
    · exact Nat.le_refl _
  change h'.Sound config
  constructor
  case replicas =>
    refine hs.replicas.set hr hprefix hserving.id_eq hserving.config_eq hserving.follows ?_ hother
    intro heq
    exact hled (by rw [hleader, decide_eq_true_eq, heq])
  case clients =>
    constructor
    case id_eq => exact hs.clients.id_eq
    case sound => exact fun hc => (hs.clients.sound hc).mono hprefix hgrows
  case records =>
    rcases hshape with rfl | ⟨hl, q, hq, -, hnew, rfl⟩
    · have hsame : h'.log = h.log := List.append_nil _
      rw [hsame]
      exact hs.records
    · exact hs.records.take (hleads hl) hq hnew
  case pool =>
    refine Network.backed_post (fun letter hmem => ?_) fun s hmem => ?_
    · exact (hs.pool letter hmem).mono hprefix (List.Subset.refl _) hgrows
    · obtain ⟨e, he, hsent⟩ := List.mem_filterMap.1 hmem
      rw [hconfig] at hsent
      refine Replica.Effect.Backed.sent (hserving.backed e he _ ?_) hleader hsent
      intro hl
      rw [hleader, decide_eq_true_eq] at hl
      exact Nat.le_of_eq (by rw [hfrontier, if_pos hl])
  case completions =>
    intro done hdone
    exact (hs.completions done hdone).mono hprefix (List.Subset.refl _) hgrows

/-! ### Actions -/

/-- Issuing a command, strong or weak, keeps a history sound. -/
theorem History.Sound.issue_command (hs : h.Sound config) {place : Nat} {client : Client}
    (weak : Bool) (command : Command) (hc : h.network.clients[place]? = some client) :
    History.Sound config
      ⟨{ h.network with
          clients := h.network.clients.set place (client.issue weak command).1 }.post none
          (client.issue weak command).2.2, h.log,
        h.issued ++ [⟨(client.issue weak command).2.1, command, weak⟩], h.completions⟩ := by
  have hclient := hs.clients.sound hc
  cases weak with
  | false =>
      refine hs.issue hc rfl (hclient.propose command) rfl fun s hmem => ?_
      obtain rfl := List.mem_singleton.1 hmem
      exact fun _ _ => List.mem_append_right _ (List.mem_singleton_self _)
  | true =>
      refine hs.issue hc rfl (hclient.proposeWeak command) rfl fun s hmem => ?_
      -- one letter to the leader, or one to every replica
      have hmem : s ∈ (client.proposeWeak command).2.2 := hmem
      unfold Client.proposeWeak at hmem
      dsimp only at hmem
      split at hmem
      · obtain rfl := List.mem_singleton.1 hmem
        exact List.mem_append_right _ (List.mem_singleton_self _)
      · obtain rfl := List.mem_singleton.1 hmem
        exact fun _ _ => List.mem_append_right _ (List.mem_singleton_self _)

/-- Every turn keeps a history sound. -/
theorem Chronicle.Turn.sound {c c' : Chronicle} {action : Network.Action} (h : c.Turn action c')
    (hs : c.Sound config) : c'.Sound config := by
  have hthin : ∀ place, History.Sound config
      ⟨c.network.remove place, c.log, c.issued, c.completions⟩ := fun _ =>
    hs.thin List.eraseIdx_subset
  cases h with
  | idle => exact hs
  | issued weak command haction hc => exact hs.issue_command weak command hc
  | lost hl hlost => exact hthin _
  | repeated hl =>
      refine hs.thin (List.append_subset.2 ⟨List.Subset.refl _, fun _ hmem => ?_⟩)
      exact List.mem_singleton.1 hmem ▸ List.mem_of_getElem? hl
  | reacted hl hc => exact (hthin _).react hc (hs.pool _ (List.mem_of_getElem? hl))
  | handled hl hr => exact (hthin _).handle hr (hs.pool _ (List.mem_of_getElem? hl))

/-- Every action keeps a history sound. -/
theorem History.Sound.act (hs : h.Sound config) (action : Network.Action) :
    (h.act action).Sound config :=
  ((⟨h, []⟩ : Chronicle).turn_act action).sound hs

/-- Every history that can be reached is sound. -/
theorem History.Reachable.sound (hh : h.Reachable config bounds) : h.Sound config := by
  induction hh with
  | start hn => exact History.sound_start hn
  | act action _ ih => exact ih.act action

/-- The leader knows the one slot of a strong command that has a slot. -/
theorem History.Sound.slot_eq {slot : Slot} {leader : Replica} {q : Request} (hs : h.Sound config)
    (hr : h.network.replicas[config.leader]? = some leader) (hq : h.log.request? slot = some q)
    (hstrong : q.weak = false) : leader.slot? q.id = some slot := by
  have hleads := hs.replicas.leads hr
  obtain ⟨slot', hslot'⟩ : ∃ slot', leader.slot? q.id = some slot' := by
    have hmem := hleads.slots_complete hq
    rw [Std.ExtTreeMap.contains_eq_isSome_getElem?] at hmem
    exact Option.isSome_iff_exists.1 hmem
  obtain ⟨q', hq', hid⟩ := hleads.slots_sound hslot'
  rw [hslot', hs.records.slot_unique hq hq' hid.symm hstrong]

end WitnessReplication
