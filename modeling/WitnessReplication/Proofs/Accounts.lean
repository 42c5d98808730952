import WitnessReplication.Proofs.Client.Reacting

/-!
# The accounts of a client

A client's counts balance, whatever it issues and whatever comes to it: the commands that it has
completed and those that are pending make up the commands that it has issued. No command completes
twice, and the leader is asked about a command at most once, each time that is counted. A message
that comes again after the client has handled it changes nothing (`Client.accounts`).
-/

namespace WitnessReplication.Client

/-- What can happen to a client: it issues a command, or a message comes to it. -/
inductive Input where
  | issue (weak : Bool) (command : Command)
  | message (body : ClientMessage)

/-- A client, the strong and the weak commands that it has issued, the commands that it has
completed, and all that it has sent. -/
structure Account where
  client : Client
  strong : List CommandId := []
  weak : List CommandId := []
  completions : List Completion := []
  sent : List Sent := []

/-- The command that a message asks the leader about. -/
def syncOf? : Sent → Option CommandId
  | .toReplica _ (.sync m) => some m.id
  | _ => none

namespace Account

/-- All commands that have been issued. -/
def issued (a : Account) : List CommandId := a.strong ++ a.weak

/-- The command that is issued next. -/
def next (a : Account) : CommandId := ⟨a.client.id, a.client.nextSeq⟩

/-- The commands that have completed. -/
def completed (a : Account) : List CommandId := a.completions.map Completion.id

/-- The commands that the leader has been asked about. -/
def syncs (a : Account) : List CommandId := a.sent.filterMap syncOf?

/-- The account after one more input. -/
def take (a : Account) : Input → Account
  | .issue weak command =>
    let proposed := a.client.issue weak command
    { a with
      client := proposed.1
      strong := if weak then a.strong else a.strong ++ [proposed.2.1]
      weak := if weak then a.weak ++ [proposed.2.1] else a.weak
      sent := a.sent ++ proposed.2.2 }
  | .message m =>
    let reaction := a.client.handle m
    { a with
      client := reaction.client
      completions := a.completions ++ reaction.completion.toList
      sent := a.sent ++ reaction.sent }

/-- The account after a list of inputs. -/
def takeAll (a : Account) (inputs : List Input) : Account := inputs.foldl take a

/-- Each issued command is pending or has completed once, and is counted as such. -/
structure Completes (a : Account) : Prop where
  strong_count :
    a.client.stats.fast + a.client.stats.slow + a.client.pending.size = a.strong.length
  weak_count : a.client.stats.weak + a.client.weak.size = a.weak.length
  issued_below : ∀ id ∈ a.issued, id.client = a.client.id ∧ id.seq < a.client.nextSeq
  issued_nodup : a.issued.Nodup
  pending_issued : ∀ id ∈ a.client.pending, id ∈ a.strong
  weak_issued : ∀ id ∈ a.client.weak, id ∈ a.weak
  completed_nodup : a.completed.Nodup
  completed_issued : ∀ id ∈ a.completed,
    id ∈ a.issued ∧ id ∉ a.client.pending ∧ id ∉ a.client.weak

/-- The leader has been asked once about each strong command that has escalated, which is counted,
and not at all about a pending one that has not. -/
structure Asks (a : Account) : Prop where
  escalated_count : a.client.stats.escalated = a.syncs.length
  syncs_nodup : a.syncs.Nodup
  syncs_strong : ∀ id ∈ a.syncs, id ∈ a.strong
  not_asked : ∀ (id : CommandId) p, a.client.pending[id]? = some p → p.escalated = false →
    id ∉ a.syncs

end Account

variable {a : Account} {m : ClientMessage} {id : CommandId} {p p' : Pending} {value : Value}
variable {path : Path}

theorem mem_pending_of_getElem? {c : Client} (hp : c.pending[id]? = some p) : id ∈ c.pending :=
  Std.ExtTreeMap.mem_iff_isSome_getElem?.2 (by simp [hp])

/-! ### Completing commands -/

namespace Account.Completes

theorem start (id : ClientId) (bound : ReplicaId) (config : Config) :
    Completes { client := { id, bound, config } } := by
  constructor <;> simp [issued, completed]

/-- The next command has not been issued. -/
theorem fresh (h : a.Completes) : a.next ∉ a.issued :=
  fun hmem => Nat.lt_irrefl _ (h.issued_below _ hmem).2

theorem not_mem_weak (h : a.Completes) (hid : id ∈ a.client.pending) : id ∉ a.client.weak :=
  fun hmem => (List.nodup_append.1 h.issued_nodup).2.2 id (h.pending_issued id hid) id
    (h.weak_issued id hmem) rfl

/-- Putting back a pending command. -/
theorem put (h : a.Completes) (hid : id ∈ a.client.pending) (p' : Pending) (escalated : Nat)
    (sent : List Sent) :
    Completes { a with
      client := { a.client with
        pending := a.client.pending.insert id p'
        stats := { a.client.stats with escalated } }
      sent } := by
  have hsame : ∀ other, other ∈ a.client.pending.insert id p' → other ∈ a.client.pending := by
    intro other hother
    rcases Std.ExtTreeMap.mem_insert.1 hother with heq | hold
    · exact Std.LawfulEqOrd.eq_of_compare heq ▸ hid
    · exact hold
  constructor
  case strong_count =>
    rw [Std.ExtTreeMap.size_insert, if_pos (Std.ExtTreeMap.contains_iff_mem.2 hid)]
    exact h.strong_count
  case weak_count => exact h.weak_count
  case issued_below => exact h.issued_below
  case issued_nodup => exact h.issued_nodup
  case pending_issued => exact fun other hother => h.pending_issued other (hsame other hother)
  case weak_issued => exact h.weak_issued
  case completed_nodup => exact h.completed_nodup
  case completed_issued =>
    intro other hother
    obtain ⟨hissued, hpending, hweak⟩ := h.completed_issued other hother
    exact ⟨hissued, fun hput => hpending (hsame other hput), hweak⟩

/-- Completing a command that is pending or awaited takes it out of those. -/
theorem complete (h : a.Completes) {c : Client} (hissued : id ∈ a.issued)
    (hopen : id ∈ a.client.pending ∨ id ∈ a.client.weak) (hid : c.id = a.client.id)
    (hseq : c.nextSeq = a.client.nextSeq)
    (hstrong : c.stats.fast + c.stats.slow + c.pending.size = a.strong.length)
    (hweak : c.stats.weak + c.weak.size = a.weak.length)
    (hpending : ∀ other ∈ c.pending, other ∈ a.client.pending ∧ other ≠ id)
    (hawaited : ∀ other ∈ c.weak, other ∈ a.client.weak ∧ other ≠ id) :
    Completes { a with client := c, completions := a.completions ++ [⟨id, value, path⟩] } := by
  have hcompleted : Account.completed { a with
      client := c, completions := a.completions ++ [⟨id, value, path⟩] } = a.completed ++ [id] := by
    simp [completed]
  constructor
  case strong_count => exact hstrong
  case weak_count => exact hweak
  case issued_below =>
    intro other hother
    change _ = c.id ∧ _ < c.nextSeq
    rw [hid, hseq]
    exact h.issued_below other hother
  case issued_nodup => exact h.issued_nodup
  case pending_issued => exact fun other hother => h.pending_issued other (hpending other hother).1
  case weak_issued => exact fun other hother => h.weak_issued other (hawaited other hother).1
  case completed_nodup =>
    rw [hcompleted, List.nodup_append]
    refine ⟨h.completed_nodup, by simp, ?_⟩
    rintro other hother _ hsame rfl
    obtain rfl : other = id := by simpa using hsame
    obtain ⟨-, hnot, hnotWeak⟩ := h.completed_issued other hother
    exact hopen.elim hnot hnotWeak
  case completed_issued =>
    intro other hother
    rw [hcompleted, List.mem_append] at hother
    rcases hother with hother | hother
    · obtain ⟨hold, hnot, hnotWeak⟩ := h.completed_issued other hother
      exact ⟨hold, fun hmem => hnot (hpending other hmem).1,
        fun hmem => hnotWeak (hawaited other hmem).1⟩
    · obtain rfl : other = id := by simpa using hother
      exact ⟨hissued, fun hmem => (hpending other hmem).2 rfl,
        fun hmem => (hawaited other hmem).2 rfl⟩

theorem completeStrong (h : a.Completes) (hid : id ∈ a.client.pending) (hpath : path ≠ .weak) :
    Completes { a with
      client := { a.client with
        pending := a.client.pending.erase id
        stats := a.client.stats.count path }
      completions := a.completions ++ [⟨id, value, path⟩] } := by
  have hsize : (a.client.pending.erase id).size + 1 = a.client.pending.size := by
    have hpos : a.client.pending.size ≠ 0 := by
      intro hzero
      rw [Std.ExtTreeMap.eq_empty_iff_size_eq_zero.2 hzero] at hid
      simp at hid
    rw [Std.ExtTreeMap.size_erase, if_pos (Std.ExtTreeMap.contains_iff_mem.2 hid)]
    omega
  have hstrong := h.strong_count
  have hcounted : (a.client.stats.count path).fast + (a.client.stats.count path).slow =
      a.client.stats.fast + a.client.stats.slow + 1 ∧
      (a.client.stats.count path).weak = a.client.stats.weak := by
    cases path with
    | fast => exact ⟨by simp only [Stats.count]; omega, rfl⟩
    | slow => exact ⟨by simp only [Stats.count]; omega, rfl⟩
    | weak => exact absurd rfl hpath
  refine h.complete (List.mem_append_left _ (h.pending_issued id hid)) (.inl hid) rfl rfl ?_ ?_ ?_ ?_
  · dsimp only
    omega
  · dsimp only
    rw [hcounted.2]
    exact h.weak_count
  · intro other hother
    obtain ⟨hne, hold⟩ := Std.ExtTreeMap.mem_erase.1 hother
    exact ⟨hold, fun heq => hne (Std.compare_eq_iff_eq.2 heq.symm)⟩
  · intro other hother
    refine ⟨hother, ?_⟩
    rintro rfl
    exact h.not_mem_weak hid hother

theorem completeWeak (h : a.Completes) (hid : id ∈ a.client.weak) :
    Completes { a with
      client := { a.client with
        weak := a.client.weak.erase id
        stats := a.client.stats.count .weak }
      completions := a.completions ++ [⟨id, value, .weak⟩] } := by
  have hsize : (a.client.weak.erase id).size + 1 = a.client.weak.size := by
    have hpos : a.client.weak.size ≠ 0 := by
      intro hzero
      rw [Std.ExtTreeSet.eq_empty_iff_size_eq_zero.2 hzero] at hid
      simp at hid
    rw [Std.ExtTreeSet.size_erase, if_pos (Std.ExtTreeSet.contains_iff_mem.2 hid)]
    omega
  have hweak := h.weak_count
  refine h.complete (List.mem_append_right _ (h.weak_issued id hid)) (.inr hid) rfl rfl
    h.strong_count ?_ ?_ ?_
  · simp only [Stats.count]
    omega
  · intro other hother
    refine ⟨hother, ?_⟩
    rintro rfl
    exact h.not_mem_weak hother hid
  · intro other hother
    obtain ⟨hne, hold⟩ := Std.ExtTreeSet.mem_erase.1 hother
    exact ⟨hold, fun heq => hne (Std.compare_eq_iff_eq.2 heq.symm)⟩

/-- Issuing a command adds it to those that are pending or awaited. -/
theorem issue (h : a.Completes) (weak : Bool) (command : Command) :
    (a.take (.issue weak command)).Completes := by
  have hfresh := h.fresh
  have hbelow : ∀ id ∈ a.issued ++ [a.next],
      id.client = a.client.id ∧ id.seq < a.client.nextSeq + 1 := by
    intro id hid
    rcases List.mem_append.1 hid with hold | hnew
    · exact ⟨(h.issued_below id hold).1, Nat.lt_succ_of_lt (h.issued_below id hold).2⟩
    · obtain rfl : id = a.next := by simpa using hnew
      exact ⟨rfl, Nat.lt_succ_self _⟩
  have hnodup : (a.issued ++ [a.next]).Nodup := by
    rw [List.nodup_append]
    refine ⟨h.issued_nodup, by simp, ?_⟩
    rintro id hid _ hnew rfl
    obtain rfl : id = a.next := by simpa using hnew
    exact hfresh hid
  -- a completed command is not the new one
  have hcompleted : ∀ id ∈ a.completed, id ∈ a.issued ++ [a.next] ∧
      id ∉ a.client.pending ∧ id ∉ a.client.weak ∧
        a.next ≠ id := by
    intro id hid
    obtain ⟨hissued, hpending, hweak⟩ := h.completed_issued id hid
    refine ⟨List.mem_append_left _ hissued, hpending, hweak, ?_⟩
    rintro rfl
    exact hfresh hissued
  have hstrong := h.strong_count
  have hweak := h.weak_count
  cases weak with
  | false =>
      have hperm : (a.take (.issue false command)).issued.Perm
          (a.issued ++ [a.next]) := by
        simp only [take, issued, Client.issue, propose, Bool.false_eq_true, if_false,
          List.append_assoc]
        exact List.perm_append_comm.append_left a.strong
      have hnew : a.next ∉ a.client.pending :=
        fun hmem => hfresh (List.mem_append_left _ (h.pending_issued _ hmem))
      constructor
      case strong_count =>
        simp only [take, Client.issue, propose, Bool.false_eq_true, if_false, List.length_append,
          List.length_singleton]
        rw [Std.ExtTreeMap.size_insert, if_neg (by simpa [next] using hnew)]
        omega
      case weak_count => exact hweak
      case issued_below => exact fun id hid => hbelow id (hperm.subset hid)
      case issued_nodup => exact hperm.nodup_iff.2 hnodup
      case pending_issued =>
        intro id hid
        rcases Std.ExtTreeMap.mem_insert.1 hid with heq | hold
        · exact List.mem_append_right _
            (List.mem_singleton.2 (Std.LawfulEqOrd.eq_of_compare heq).symm)
        · exact List.mem_append_left _ (h.pending_issued id hold)
      case weak_issued => exact h.weak_issued
      case completed_nodup => exact h.completed_nodup
      case completed_issued =>
        intro id hid
        obtain ⟨hissued, hpending, hweak, hne⟩ := hcompleted id hid
        refine ⟨hperm.symm.subset hissued, fun hmem => ?_, hweak⟩
        rcases Std.ExtTreeMap.mem_insert.1 hmem with heq | hold
        · exact hne (Std.LawfulEqOrd.eq_of_compare heq)
        · exact hpending hold
  | true =>
      have heq : (a.take (.issue true command)).issued =
          a.issued ++ [a.next] := by
        simp [take, issued, Client.issue, proposeWeak, next]
      have hnew : a.next ∉ a.client.weak :=
        fun hmem => hfresh (List.mem_append_right _ (h.weak_issued _ hmem))
      constructor
      case strong_count => exact hstrong
      case weak_count =>
        simp only [take, Client.issue, proposeWeak, if_true, List.length_append,
          List.length_singleton]
        rw [Std.ExtTreeSet.size_insert, if_neg (by simpa [next] using hnew)]
        omega
      case issued_below => exact fun id hid => hbelow id (heq ▸ hid)
      case issued_nodup => exact heq ▸ hnodup
      case pending_issued => exact h.pending_issued
      case weak_issued =>
        intro id hid
        rcases Std.ExtTreeSet.mem_insert.1 hid with heq | hold
        · exact List.mem_append_right _
            (List.mem_singleton.2 (Std.LawfulEqOrd.eq_of_compare heq).symm)
        · exact List.mem_append_left _ (h.weak_issued id hold)
      case completed_nodup => exact h.completed_nodup
      case completed_issued =>
        intro id hid
        obtain ⟨hissued, hpending, hweak, hne⟩ := hcompleted id hid
        refine ⟨heq ▸ hissued, hpending, fun hmem => ?_⟩
        rcases Std.ExtTreeSet.mem_insert.1 hmem with heq | hold
        · exact hne (Std.LawfulEqOrd.eq_of_compare heq)
        · exact hweak hold

/-- Whatever message comes, each issued command is pending or has completed once. -/
theorem message (h : a.Completes) (m : ClientMessage) : (a.take (.message m)).Completes := by
  have hreacts := reacts_handle a.client m
  unfold take
  dsimp only
  generalize a.client.handle m = reaction at hreacts
  cases hreacts with
  | passed => simpa using h
  | counted hp _ =>
      simpa using h.put (mem_pending_of_getElem? hp) _ a.client.stats.escalated a.sent
  | escalated hp _ _ =>
      rw [Option.toList_none, List.append_nil]
      exact h.put (mem_pending_of_getElem? hp) _ _ _
  | completed hp hpath =>
      rw [Option.toList_some, List.append_nil]
      exact h.completeStrong (mem_pending_of_getElem? hp) hpath
  | completedWeak hid =>
      rw [Option.toList_some, List.append_nil]
      exact h.completeWeak hid

end Account.Completes

/-! ### Asking the leader -/

namespace Account.Asks

theorem start (id : ClientId) (bound : ReplicaId) (config : Config) :
    Asks { client := { id, bound, config } } := by
  constructor <;> simp [syncs]

/-- As long as nothing is sent, and pending commands that have not escalated were so before. -/
theorem congr (h : a.Asks) {c : Client} {completions : List Completion}
    (hescalated : c.stats.escalated = a.client.stats.escalated)
    (hpending : ∀ (id : CommandId) p, c.pending[id]? = some p → p.escalated = false →
      ∃ p₀, a.client.pending[id]? = some p₀ ∧ p₀.escalated = false) :
    Asks { a with client := c, completions } where
  escalated_count := hescalated.trans h.escalated_count
  syncs_nodup := h.syncs_nodup
  syncs_strong := h.syncs_strong
  not_asked id p hp hnot := by
    obtain ⟨p₀, hp₀, hnot₀⟩ := hpending id p hp hnot
    exact h.not_asked id p₀ hp₀ hnot₀

/-- Asking about a pending strong command that has not escalated. -/
theorem escalate (h : a.Asks) (hstrong : id ∈ a.strong) (hp : a.client.pending[id]? = some p)
    (hbefore : p.escalated = false) (hafter : p'.escalated = true) :
    Asks { a with
      client := { a.client with
        pending := a.client.pending.insert id p'
        stats := { a.client.stats with escalated := a.client.stats.escalated + 1 } }
      sent := a.sent ++ [.toReplica a.client.config.leader (.sync ⟨id⟩)] } := by
  have hsyncs : ∀ client, Account.syncs { a with
      client
      sent := a.sent ++ [.toReplica a.client.config.leader (.sync ⟨id⟩)] } = a.syncs ++ [id] := by
    simp [syncs, syncOf?]
  have hnew := h.not_asked id p hp hbefore
  constructor
  case escalated_count =>
    rw [hsyncs, List.length_append, List.length_singleton, ← h.escalated_count]
  case syncs_nodup =>
    rw [hsyncs, List.nodup_append]
    refine ⟨h.syncs_nodup, by simp, ?_⟩
    rintro other hother _ hsame rfl
    obtain rfl : other = id := by simpa using hsame
    exact hnew hother
  case syncs_strong =>
    intro other hother
    rw [hsyncs, List.mem_append] at hother
    rcases hother with hold | hsame
    · exact h.syncs_strong other hold
    · exact List.mem_singleton.1 hsame ▸ hstrong
  case not_asked =>
    intro other p'' hp'' hescalated hmem
    rw [Std.ExtTreeMap.getElem?_insert] at hp''
    split at hp''
    · obtain rfl := Option.some.inj hp''
      rw [hafter] at hescalated
      simp at hescalated
    · rename_i hne
      rw [hsyncs, List.mem_append] at hmem
      rcases hmem with hold | hsame
      · exact h.not_asked other p'' hp'' hescalated hold
      · exact hne (Std.compare_eq_iff_eq.2 (List.mem_singleton.1 hsame).symm)

/-- The leader has not been asked about a command that is issued. -/
theorem issue (h : a.Asks) (hfresh : a.next ∉ a.issued)
    (weak : Bool) (command : Command) : (a.take (.issue weak command)).Asks := by
  have hsyncs : (a.take (.issue weak command)).syncs = a.syncs := by
    cases weak with
    | false => simp [take, syncs, Client.issue, propose, syncOf?]
    | true =>
        cases hvariant : a.client.config.variant <;>
          simp [take, syncs, Client.issue, proposeWeak, syncOf?, hvariant]
  constructor
  case escalated_count =>
    rw [hsyncs]
    cases weak <;> exact h.escalated_count
  case syncs_nodup => exact hsyncs ▸ h.syncs_nodup
  case syncs_strong =>
    intro id hid
    have hstrong := h.syncs_strong id (hsyncs ▸ hid)
    cases weak with
    | false => exact List.mem_append_left _ hstrong
    | true => exact hstrong
  case not_asked =>
    intro id p hp hescalated
    rw [hsyncs]
    rcases pending_issue rfl hp with hold | ⟨rfl, -⟩
    · exact h.not_asked id p hold hescalated
    · intro hmem
      have hstrong := h.syncs_strong _ hmem
      refine hfresh (List.mem_append_left _ ?_)
      cases weak <;> exact hstrong

/-- Whatever message comes, the leader is asked about a pending strong command only. -/
theorem message (h : a.Asks) (hissued : ∀ id ∈ a.client.pending, id ∈ a.strong)
    (m : ClientMessage) : (a.take (.message m)).Asks := by
  have hreacts := reacts_handle a.client m
  unfold take
  dsimp only
  generalize a.client.handle m = reaction at hreacts
  cases hreacts with
  | passed => simpa using h
  | @counted id p p' hp hkept =>
      rw [List.append_nil]
      refine h.congr rfl fun other p'' hp'' hnot => ?_
      rw [Std.ExtTreeMap.getElem?_insert] at hp''
      split at hp''
      · rename_i heq
        obtain rfl := Std.LawfulEqOrd.eq_of_compare heq
        obtain rfl := Option.some.inj hp''
        exact ⟨p, hp, hkept.symm.trans hnot⟩
      · exact ⟨p'', hp'', hnot⟩
  | escalated hp hbefore hafter =>
      rw [Option.toList_none, List.append_nil]
      exact h.escalate (hissued _ (mem_pending_of_getElem? hp)) hp hbefore hafter
  | @completed id p value path hp hpath =>
      rw [List.append_nil]
      refine h.congr (by cases path <;> rfl) fun other p'' hp'' hnot => ?_
      rw [Std.ExtTreeMap.getElem?_erase] at hp''
      split at hp''
      · simp at hp''
      · exact ⟨p'', hp'', hnot⟩
  | completedWeak hid =>
      rw [List.append_nil]
      exact h.congr rfl fun other p'' hp'' hnot => ⟨p'', hp'', hnot⟩

end Account.Asks

/-! ### All inputs -/

/-- The account of a client that has not done anything. -/
def Account.start (id : ClientId) (bound : ReplicaId) (config : Config) : Account :=
  { client := { id, bound, config } }

theorem Account.balanced (id : ClientId) (bound : ReplicaId) (config : Config)
    (inputs : List Input) : ((Account.start id bound config).takeAll inputs).Completes ∧
      ((Account.start id bound config).takeAll inputs).Asks := by
  have hrun : ∀ (inputs : List Input) (a : Account), a.Completes → a.Asks →
      (a.takeAll inputs).Completes ∧ (a.takeAll inputs).Asks := by
    intro inputs
    induction inputs with
    | nil => exact fun a hcompletes hasks => ⟨hcompletes, hasks⟩
    | cons input inputs ih =>
        intro a hcompletes hasks
        refine ih (a.take input) ?_ ?_
        · cases input with
          | issue weak command => exact hcompletes.issue weak command
          | message m => exact hcompletes.message m
        · cases input with
          | issue weak command => exact hasks.issue hcompletes.fresh weak command
          | message m => exact hasks.message hcompletes.pending_issued m
  exact hrun inputs _ (.start id bound config) (.start id bound config)

/-- A message about an issued command stays spent, whatever happens. -/
theorem Account.spent_takeAll (hbelow : m.id.client = a.client.id → m.id.seq < a.client.nextSeq)
    (hspent : a.client.Spent m) (inputs : List Input) : (a.takeAll inputs).client.Spent m := by
  induction inputs generalizing a with
  | nil => exact hspent
  | cons input inputs ih =>
      cases input with
      | issue weak command =>
          have hid : (a.client.issue weak command).1.id = a.client.id := by cases weak <;> rfl
          have hseq : (a.client.issue weak command).1.nextSeq = a.client.nextSeq + 1 := by
            cases weak <;> rfl
          have hnew : (a.client.issue weak command).2.1 = a.next := by
            cases weak <;> rfl
          refine ih (a := a.take (.issue weak command)) (fun hclient => ?_) (hspent.issue ?_)
          · exact hseq ▸ Nat.lt_succ_of_lt (hbelow (hclient.trans hid))
          · rw [hnew]
            intro heq
            rw [heq] at hbelow
            exact Nat.lt_irrefl _ (hbelow rfl)
      | message m' =>
          have hframe : (a.client.handle m').client.id = a.client.id ∧
              (a.client.handle m').client.nextSeq = a.client.nextSeq := by
            have hreacts := reacts_handle a.client m'
            generalize a.client.handle m' = reaction at hreacts
            cases hreacts <;> exact ⟨rfl, rfl⟩
          refine ih (a := a.take (.message m')) (fun hclient => ?_) (hspent.handle m')
          exact hframe.2 ▸ hbelow (hclient.trans hframe.1)

theorem Account.takeAll_append (a : Account) (inputs inputs' : List Input) :
    a.takeAll (inputs ++ inputs') = (a.takeAll inputs).takeAll inputs' :=
  List.foldl_append

/-- Whatever a client issues and whatever comes to it: the strong commands that it has completed on
the fast or the slow path and those that are pending make up the strong ones that it has issued,
and likewise for the weak ones. No command completes twice. As many commands have escalated as the
leader has been asked about, and it is asked about a strong command once at most. A message that
comes again after it was handled, and after its command was issued, changes nothing. -/
theorem accounts (id : ClientId) (bound : ReplicaId) (config : Config) (inputs : List Input) :
    let a := (Account.start id bound config).takeAll inputs
    (a.client.stats.fast + a.client.stats.slow + a.client.pending.size = a.strong.length ∧
      a.client.stats.weak + a.client.weak.size = a.weak.length) ∧
    (a.completed.Nodup ∧ ∀ cid ∈ a.completed, cid ∈ a.issued) ∧
    (a.client.stats.escalated = a.syncs.length ∧ a.syncs.Nodup ∧
      ∀ cid ∈ a.syncs, cid ∈ a.strong) ∧
    ∀ (earlier later : List Input) (m : ClientMessage),
      inputs = earlier ++ .message m :: later →
      m.id ∈ ((Account.start id bound config).takeAll earlier).issued →
      a.client.handle m = { client := a.client } := by
  obtain ⟨hcompletes, hasks⟩ := Account.balanced id bound config inputs
  refine ⟨⟨hcompletes.strong_count, hcompletes.weak_count⟩,
    ⟨hcompletes.completed_nodup, fun cid hcid => (hcompletes.completed_issued cid hcid).1⟩,
    ⟨hasks.escalated_count, hasks.syncs_nodup, hasks.syncs_strong⟩, ?_⟩
  rintro earlier later m rfl hissued
  rw [Account.takeAll_append]
  have hbefore := (Account.balanced id bound config earlier).1
  have hafter := hbefore.message m
  -- after the message its command is still below the next one
  have hbelow := hafter.issued_below m.id hissued
  exact (Account.spent_takeAll (fun _ => hbelow.2) (spent_handle _ m) later).handle_eq

/-- A cluster of three. -/
def trio : Config := { replicas := 3, leader := 0 }

/-- A strong write that is clear everywhere, one that the leader refuses and settles when it is
asked, a weak write, and a read that stays pending. -/
def threePaths : List Input :=
  [.issue false ⟨.put, 1, ⟨[120]⟩⟩,
    .message (.reply ⟨0, ⟨7, 0⟩, ⟨[120]⟩, .clear⟩),
    .message (.recordAck ⟨1, 0, ⟨7, 0⟩, .clear, none⟩),
    .message (.recordAck ⟨2, 0, ⟨7, 0⟩, .clear, none⟩),
    .issue false ⟨.put, 1, ⟨[121]⟩⟩,
    .message (.reply ⟨0, ⟨7, 1⟩, .nil, .refused⟩),
    .message (.syncReply ⟨0, ⟨7, 1⟩, ⟨[121]⟩, .clear⟩),
    .message (.recordAck ⟨1, 0, ⟨7, 1⟩, .refused, none⟩),
    .issue true ⟨.put, 2, ⟨[122]⟩⟩,
    .message (.weakReply ⟨0, ⟨7, 2⟩, ⟨[122]⟩⟩),
    .issue false (.get 1)]

theorem accounts_threePaths :
    ((Account.start 7 0 trio).takeAll threePaths).completions =
        [⟨⟨7, 0⟩, ⟨[120]⟩, .fast⟩, ⟨⟨7, 1⟩, ⟨[121]⟩, .slow⟩, ⟨⟨7, 2⟩, ⟨[122]⟩, .weak⟩] ∧
      ((Account.start 7 0 trio).takeAll threePaths).client.pending.size = 1 ∧
      ((Account.start 7 0 trio).takeAll threePaths).client.weak.size = 0 ∧
      ((Account.start 7 0 trio).takeAll threePaths).syncs.length = 1 ∧
      ((Account.start 7 0 trio).takeAll threePaths).client.handle
          (.reply ⟨0, ⟨7, 1⟩, .nil, .refused⟩) =
        { client := ((Account.start 7 0 trio).takeAll threePaths).client } := by
  have hstrong : ((Account.start 7 0 trio).takeAll threePaths).strong.length = 3 := by
    decide +kernel
  have hweak : ((Account.start 7 0 trio).takeAll threePaths).weak.length = 1 := by
    decide +kernel
  have hstats : ((Account.start 7 0 trio).takeAll threePaths).client.stats =
      { fast := 1, slow := 1, weak := 1, escalated := 1 } := by
    decide +kernel
  obtain ⟨⟨hpending, hawaited⟩, -, ⟨hescalated, -⟩, hrepeated⟩ := accounts 7 0 trio threePaths
  simp only [hstrong, hweak, hstats] at hpending hawaited hescalated
  refine ⟨by decide +kernel, by omega, by omega, hescalated.symm, ?_⟩
  -- the refusal comes again, after the command has completed
  exact hrepeated (threePaths.take 5) _ _ rfl (by decide +kernel)

end WitnessReplication.Client
