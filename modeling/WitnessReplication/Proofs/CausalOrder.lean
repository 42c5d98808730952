import Mathlib.Data.List.Infix
import WitnessReplication.Proofs.Client.Chaining
import WitnessReplication.Proofs.Host.Ordering

/-!
# The leader orders the weak commands of a client as the client issued them

A client's weak command names the one before it, and the leader waits for that one before it puts
the command in order. All that the wait looks at is the latest weak command of the client that has
executed, and yet no command gets ahead: as long as no wait times out, the commands that are in
order are always the first ones that the client issued, in increasing slots, each given its slot
only after the one before it had executed (`Host.causal_order`).

The induction is over the journal. Its invariant says that the positions of the commands in order
are the beginning of the client's list (`InOrder`): the command that has executed last is one of
them, so that a command whose wait is over is the very next one.
-/

namespace WitnessReplication.Host

open Client (Chains index_le_of_pairwise)
open Replica (WeakCommand)

/-- The wait of a weak command of a client for the one before it times out: its deadline has come
and that one has not executed. -/
def Moment.timesOut (client : ClientId) (x : Moment) : Bool :=
  match x.act with
  | .look now (.weak number) =>
    match x.host.weak[number]? with
    | some ⟨w, .dependency deadline⟩ =>
      decide (w.id.client = client) && decide (deadline ≤ now) && !x.host.dependencyMet w
    | _ => false
  | _ => false

/-- The weak commands of a client that have been put in order. -/
def orderingsOf (client : ClientId) (log : List Moment) : List (WeakCommand × Slot) :=
  (orderings log).filter fun given => given.1.id.client = client

/-- The positions of a client's weak commands in order are the first ones that it issued. -/
def InOrder (client : ClientId) (issued : List SeqNum) (log : List Moment) : Prop :=
  (orderingsOf client log).map (fun given => given.1.id.seq) <+: issued

/-- What matters is what is weak and of the client. -/
def weakOf (client : ClientId) (id : CommandId) (weak : Bool) : Prop :=
  weak = true ∧ id.client = client

variable {client : ClientId} {issued : List SeqNum} {ws more : List WeakCommand}
variable {id : ReplicaId} {config : Config} {log : List Moment} {h : Host} {x : Moment}
variable {w : WeakCommand} {slot : Slot}

theorem mem_orderingsOf {given : WeakCommand × Slot} :
    given ∈ orderingsOf client log ↔ given ∈ orderings log ∧ given.1.id.client = client := by
  simp [orderingsOf]

theorem orderingsOf_append (log more : List Moment) :
    orderingsOf client (log ++ more) = orderingsOf client log ++ orderingsOf client more := by
  simp [orderingsOf, orderings_append]

/-- A weak command whose task is yet to order it is not in order. -/
theorem Ordered.seq_ne {cares : CommandId → Bool → Prop} {number : Nat} {stage : Stage}
    {w' : WeakCommand} (ho : Ordered cares id config log h)
    (hchains : Chains client issued (commands log))
    (hown : h.weak[number]? = some ⟨w, stage⟩) (hstage : stage.slot? = none)
    (hclient : w.id.client = client) (hmem : (w', slot) ∈ orderings log) : w'.id ≠ w.id := by
  intro hid
  obtain ⟨number', hnumber', htasks⟩ := ho.started hmem
  obtain rfl := hchains.index_unique (ho.numbered hown) hnumber' hclient hid.symm
  have htends := htasks _ hown
  rw [hstage] at htends
  simp at htends

/-- What is in order at a position is what the client issued there. -/
theorem InOrder.issued_eq (hi : InOrder client issued log) {j : Nat}
    (hj : j < (orderingsOf client log).length) :
    issued[j]? = some (orderingsOf client log)[j].1.id.seq := by
  obtain ⟨rest, hrest⟩ := hi
  rw [← hrest, List.getElem?_append_left (by simpa using hj), List.getElem?_map,
    List.getElem?_eq_getElem hj, Option.map_some]

/-- Where what a weak command depends on has executed, the latest weak command of the client that
has executed is in order, and was issued no earlier than that. -/
theorem InOrder.executed {i : Nat} {seq : SeqNum} (hi : InOrder client issued log)
    (ho : Ordered (weakOf client) id config log h)
    (hchains : Chains client issued (commands log)) (hclient : w.id.client = client)
    (hmet : h.dependencyMet w = true) (hdep : w.causalDep = some seq)
    (hseq : issued[i]? = some seq) :
    ∃ (j : Nat) (w' : WeakCommand) (slot : Slot), i ≤ j ∧ j < (orderingsOf client log).length ∧
      issued[j]? = some w'.id.seq ∧ (w', slot) ∈ orderings log ∧ w'.id.client = client ∧
        h.replica.isExecuted slot = true ∧ w'.id ∈ h.replica.values := by
  simp only [dependencyMet, hdep, hclient] at hmet
  obtain ⟨last, hlast, hle⟩ : ∃ last, h.replica.weakExecuted[client]? = some last ∧
      seq ≤ last := by
    simpa [Option.any_eq_true] using hmet
  obtain ⟨hvalue, slot, hexec, hcarried⟩ := ho.named.weakExecuted hlast
  obtain ⟨w', hgiven, hid⟩ := hcarried ⟨rfl, rfl⟩
  have hmem : (w', slot) ∈ orderingsOf client log := mem_orderingsOf.2 ⟨hgiven, by rw [hid]⟩
  obtain ⟨j, hlt, hj⟩ := List.mem_iff_getElem.1 hmem
  have hissued := hi.issued_eq hlt
  rw [hj] at hissued
  refine ⟨j, w', slot, ?_, hlt, hissued, hgiven, by rw [hid],
    by simpa [Replica.isExecuted] using hexec, hid ▸ hvalue⟩
  rw [hid] at hissued
  exact index_le_of_pairwise hchains.increasing hseq hissued hle

/-- The weak command that is put in order is the next one that its client issued, and the one before
it has executed. -/
theorem InOrder.order {number : Nat} {stage : Stage}
    (hi : InOrder client issued log) (ho : Ordered (weakOf client) id config log h)
    (hchains : Chains client issued (commands log))
    (hown : h.weak[number]? = some ⟨w, stage⟩) (hstage : stage.slot? = none)
    (hclient : w.id.client = client) (hmet : h.dependencyMet w = true) :
    (orderingsOf client log).map (fun given => given.1.id.seq) ++ [w.id.seq] <+: issued ∧
      ∀ seq, w.causalDep = some seq → ∃ w' slot, (w', slot) ∈ orderings log ∧
        w'.id = ⟨client, seq⟩ ∧ h.replica.isExecuted slot = true ∧
          (h.replica.value? w'.id).isSome = true := by
  obtain ⟨i, hseq, hdep⟩ := hchains.place (List.mem_of_getElem? (ho.numbered hown)) hclient
  have hlower : (orderingsOf client log).length ≤ i := by
    by_contra hlt
    have hi' := Nat.not_le.1 hlt
    obtain ⟨hgiven, hclient'⟩ := mem_orderingsOf.1 (List.getElem_mem hi')
    refine ho.seq_ne hchains hown hstage hclient hgiven ?_
    rw [CommandId.mk.injEq]
    exact ⟨hclient'.trans hclient.symm, Option.some.inj ((hi.issued_eq hi').symm.trans hseq)⟩
  -- the first one depends on nothing, and what a later one depends on is the one before it
  have hbefore : ∀ seq, w.causalDep = some seq → i ≠ 0 ∧ issued[i - 1]? = some seq := by
    intro seq hsome
    rw [hdep] at hsome
    split at hsome
    · simp at hsome
    · rename_i hpos
      exact ⟨hpos, hsome⟩
  have hupper : i ≤ (orderingsOf client log).length := by
    by_cases hpos : i = 0
    · omega
    · obtain ⟨hlt, -⟩ := List.getElem?_eq_some_iff.1 hseq
      have hdep' : w.causalDep = some issued[i - 1] := by
        rw [hdep, if_neg hpos, List.getElem?_eq_getElem]
      obtain ⟨j, -, -, hle, hj, -⟩ :=
        hi.executed ho hchains hclient hmet hdep' (hbefore _ hdep').2
      omega
  obtain rfl : i = (orderingsOf client log).length := Nat.le_antisymm hupper hlower
  constructor
  case left =>
    obtain ⟨hlt, hnext⟩ := List.getElem?_eq_some_iff.1 hseq
    have hprefix := List.concat_get_prefix hi (by simpa using hlt)
    simpa [hnext] using hprefix
  case right =>
    intro seq hsome
    obtain ⟨hpos, hprevious⟩ := hbefore seq hsome
    obtain ⟨j, w', slot, hle, hlt, hj, hgiven, hclient', hexec, hvalue⟩ :=
      hi.executed ho hchains hclient hmet hsome hprevious
    refine ⟨w', slot, hgiven, ?_, hexec, Std.ExtTreeMap.mem_iff_isSome_getElem?.1 hvalue⟩
    obtain rfl : j = (orderingsOf client log).length - 1 := by omega
    rw [CommandId.mk.injEq]
    exact ⟨hclient', Option.some.inj (hj.symm.trans hprevious)⟩

/-- A weak command whose wait does not time out is put in order once what it depends on has
executed. -/
theorem dependencyMet_of_ordering {cares : CommandId → Bool → Prop}
    (ho : Ordered cares id config log x.host) (hwait : 0 < config.causalWait)
    (hordering : x.ordering? = some (w, slot)) (htimely : x.timesOut w.id.client = false) :
    ∃ (number : Nat) (stage : Stage), x.host.weak[number]? = some ⟨w, stage⟩ ∧
      stage.slot? = none ∧ x.host.dependencyMet w = true := by
  obtain ⟨now, number, stage, hact, hown, hstage, hslot, -⟩ := Moment.ordering?_eq_some hordering
  refine ⟨number, stage, hown, hstage, ?_⟩
  have hlook := weakLook_lookWeak (fun _ _ => True) (fun _ => True) x.host now number
    (fun _ _ _ _ => trivial) fun _ => trivial
  have hnew : (x.host.lookWeak now number).1.replica.slots ≠ x.host.replica.slots := by
    intro hslots
    simp only [Moment.outcome, hact, look, Replica.slot?, hslots] at hslot
    exact Nat.lt_irrefl _ (ho.slots_below _ _ hslot)
  generalize x.host.lookWeak now number = result at hlook hnew
  obtain ⟨h', signals⟩ := result
  cases hlook with
  | idle hown' => exact absurd rfl hnew
  | waits hown' hstage' hsent => exact absurd rfl hnew
  | refused hown' hstage' hslots hsent => exact absurd hslots hnew
  | tends hown' hstage' htends => exact absurd (congrArg Replica.slots htends.replica_eq) hnew
  | orders hown' hstage' hready hslots hsent hs htends =>
      obtain ⟨rfl, rfl⟩ := WeakTask.mk.inj (Option.some.inj (hown.symm.trans hown'))
      rcases hready with hmet | hzero | ⟨deadline, rfl, hdue, hunmet⟩
      · exact hmet
      · rw [ho.config_eq] at hzero
        exact absurd hzero (Nat.ne_of_gt hwait)
      · simp [Moment.timesOut, hact, hown, hdue, hunmet] at htimely

/-- Each weak command of a client in order was given its slot after the one before it had been
given one and had executed: that slot has executed at the leader, which has the result of the
command. -/
def Preceded (client : ClientId) (log : List Moment) : Prop :=
  ∀ before x after, log = before ++ x :: after → ∀ w slot, x.ordering? = some (w, slot) →
    w.id.client = client → ∀ seq, w.causalDep = some seq →
      ∃ w' slot', (w', slot') ∈ orderings before ∧ w'.id = ⟨client, seq⟩ ∧
        x.host.replica.isExecuted slot' = true ∧ (x.host.replica.value? w'.id).isSome = true

/-- One moment keeps the weak commands of a client in order. -/
theorem InOrder.step (hi : InOrder client issued log) (hp : Preceded client log)
    (ho : Ordered (weakOf client) id config log x.host) (hwait : 0 < config.causalWait)
    (hchains : Chains client issued (commands log)) (htimely : x.timesOut client = false) :
    InOrder client issued (log ++ [x]) ∧ Preceded client (log ++ [x]) := by
  have hnext : ∀ w slot, x.ordering? = some (w, slot) → w.id.client = client →
      (orderingsOf client log).map (fun given => given.1.id.seq) ++ [w.id.seq] <+: issued ∧
        ∀ seq, w.causalDep = some seq → ∃ w' slot, (w', slot) ∈ orderings log ∧
          w'.id = ⟨client, seq⟩ ∧ x.host.replica.isExecuted slot = true ∧
            (x.host.replica.value? w'.id).isSome = true := by
    rintro w slot hordering rfl
    obtain ⟨number, stage, hown, hstage, hmet⟩ :=
      dependencyMet_of_ordering ho hwait hordering htimely
    exact hi.order ho hchains hown hstage rfl hmet
  constructor
  case left =>
    rw [InOrder, orderingsOf_append, List.map_append]
    cases hordering : x.ordering? with
    | none =>
        have hlast : orderingsOf client [x] = [] := by simp [orderingsOf, orderings, hordering]
        rw [hlast, List.map_nil, List.append_nil]
        exact hi
    | some given =>
        obtain ⟨w, slot⟩ := given
        by_cases hclient : w.id.client = client
        · have hlast : orderingsOf client [x] = [(w, slot)] := by
            simp [orderingsOf, orderings, hordering, hclient]
          rw [hlast]
          exact (hnext w slot hordering hclient).1
        · have hlast : orderingsOf client [x] = [] := by
            simp [orderingsOf, orderings, hordering, hclient]
          rw [hlast, List.map_nil, List.append_nil]
          exact hi
  case right =>
    intro before y after hlog w slot hordering hclient seq hdep
    rcases List.eq_nil_or_concat after with rfl | ⟨after, last, rfl⟩
    · obtain ⟨rfl, hy⟩ := List.append_inj' hlog rfl
      obtain rfl := List.cons.inj hy |>.1
      exact (hnext w slot hordering hclient).2 seq hdep
    · have hlog' : log ++ [x] = (before ++ y :: after) ++ [last] := by
        rw [hlog, List.concat_eq_append, List.append_assoc, List.cons_append]
      obtain ⟨rfl, -⟩ := List.append_inj' hlog' rfl
      exact hp before y after rfl w slot hordering hclient seq hdep

/-- Where only weak commands of the client could be smuggled in and none is, all that matters is
honest. -/
theorem honest_weakOf {m : ReplicaMessage}
    (hm : ∀ a ∈ m.accepts, a.ballot = config.ballot → a.weak = true → a.id.client ≠ client) :
    Honest (weakOf client) config.ballot m where
  propose body _ h := by simp [weakOf] at h
  accepts a ha hballot h := hm a ha hballot h.1 h.2

/-- At any time the weak commands of a client in order are the first ones that it issued, and each
was preceded by the one before it. -/
theorem Running.Journal.inOrder {r : Run Running Task} (hj : Running.Journal id config r log)
    (hleader : config.isLeader id = true) (hchains : Chains client issued (commands log))
    (honest : ∀ m ∈ handled log, Honest (weakOf client) config.ballot m)
    (htimely : ∀ x ∈ log, x.timesOut client = false) :
    InOrder client issued log ∧ Preceded client log := by
  have hwait : 0 < config.causalWait := hj.wait_pos .causal
  induction hj with
  | start hstart =>
      refine ⟨List.nil_prefix, fun before x after hlog => ?_⟩
      simp at hlog
  | @handle r log hj m ih =>
      rw [commands_append] at hchains
      have honest' : ∀ m ∈ handled log, Honest (weakOf client) config.ballot m :=
        fun m hm => honest m (handled_subset _ _ hm)
      obtain ⟨hi, hp⟩ := ih hchains.left honest' fun x hx => htimely x (List.mem_append_left _ hx)
      exact hi.step hp (hj.ordered hleader honest') hwait hchains.left (htimely _ (by simp))
  | @look r log hj task ready hready ih =>
      rw [commands_append] at hchains
      have honest' : ∀ m ∈ handled log, Honest (weakOf client) config.ballot m :=
        fun m hm => honest m (handled_subset _ _ hm)
      obtain ⟨hi, hp⟩ := ih hchains.left honest' fun x hx => htimely x (List.mem_append_left _ hx)
      exact hi.step hp (hj.ordered hleader honest') hwait hchains.left (htimely _ (by simp))
  | pass hj hle ih => exact ih hchains honest htimely
  | take hj ih => exact ih hchains honest htimely

/-- **Causal order.** Let a client chain its weak commands, let none be handed to the leader twice,
and let no accept of the epoch that names a weak command of the client reach the leader. If no wait
of these commands for the one before times out, then their slots increase with their positions, and
each is given its slot only after the one before it has executed. -/
theorem causal_order {r : Run Running Task} (hj : Running.Journal id config r log)
    (hleader : config.isLeader id = true) (hchains : Chains client issued (commands log))
    (honest : ∀ m ∈ handled log, ∀ a ∈ m.accepts, a.ballot = config.ballot → a.weak = true →
      a.id.client ≠ client)
    (htimely : ∀ x ∈ log, x.timesOut client = false) :
    (∀ w w' slot slot', (w, slot) ∈ orderingsOf client log → (w', slot') ∈ orderingsOf client log →
      w.id.seq < w'.id.seq → slot < slot') ∧ Preceded client log := by
  have honest' := fun m hm => honest_weakOf (honest m hm)
  obtain ⟨hi, hp⟩ := hj.inOrder hleader hchains honest' htimely
  refine ⟨fun w w' slot slot' hmem hmem' hseq => ?_, hp⟩
  have hseqs : (orderingsOf client log).Pairwise fun a b => a.1.id.seq < b.1.id.seq :=
    List.pairwise_map.1 (hchains.increasing.sublist hi.sublist)
  have hslots : (orderingsOf client log).Pairwise fun a b => a.2 < b.2 :=
    (hj.ordered hleader honest').increasing.sublist List.filter_sublist
  obtain ⟨i, hlt, hfirst⟩ := List.getElem_of_mem hmem
  obtain ⟨j, hlt', hsecond⟩ := List.getElem_of_mem hmem'
  rcases Nat.lt_trichotomy i j with hbefore | rfl | hafter
  · have hslot := List.pairwise_iff_getElem.1 hslots i j hlt hlt' hbefore
    rwa [hfirst, hsecond] at hslot
  · obtain ⟨rfl, rfl⟩ := Prod.mk.inj (hfirst.symm.trans hsecond)
    exact absurd hseq (Nat.lt_irrefl _)
  · have hseq' := List.pairwise_iff_getElem.1 hseqs j i hlt' hlt hafter
    rw [hfirst, hsecond] at hseq'
    exact absurd hseq (Nat.lt_asymm hseq')

/-- A cluster of one. -/
def solo : Config := { replicas := 1, leader := 0 }

/-- The first weak write of client 1. -/
def firstWrite : WeakPropose := ⟨⟨1, 0⟩, ⟨.put, 1, ⟨[97]⟩⟩, none, none⟩

/-- The second weak write of client 1. -/
def secondWrite : WeakPropose := ⟨⟨1, 1⟩, ⟨.put, 1, ⟨[98]⟩⟩, some 0, none⟩

/-- The second write comes first and waits; then the first one comes. -/
def secondFirst : List Running.Deed :=
  [.handle (.weakPropose secondWrite), .look, .handle (.weakPropose firstWrite)] ++
    .replicate 12 .look

/-- The two writes are chained, whichever comes first. -/
theorem chains_secondFirst {ws : List WeakCommand}
    (hws : ws = [⟨⟨1, 1⟩, ⟨.put, 1, ⟨[98]⟩⟩, some 0, false⟩,
      ⟨⟨1, 0⟩, ⟨.put, 1, ⟨[97]⟩⟩, none, false⟩]) : Chains 1 [0, 1] ws where
  increasing := by decide
  links := by
    intro w hw _
    rw [hws] at hw
    rcases List.mem_cons.1 hw with rfl | hw
    · exact ⟨[0], [], rfl, rfl⟩
    · obtain rfl := List.mem_singleton.1 hw
      exact ⟨[], [1], rfl, rfl⟩
  once := by
    rw [hws]
    decide

theorem causal_order_secondFirst :
    (∃ w w' slot slot', (w, slot) ∈ orderingsOf 1 (Running.replay 0 solo secondFirst).2 ∧
      (w', slot') ∈ orderingsOf 1 (Running.replay 0 solo secondFirst).2 ∧
        w.id.seq < w'.id.seq ∧ slot < slot') ∧
      Preceded 1 (Running.replay 0 solo secondFirst).2 := by
  have hj : Running.Journal 0 solo (Running.replay 0 solo secondFirst).1
      (Running.replay 0 solo secondFirst).2 :=
    Running.journal_replay (by decide +kernel) rfl secondFirst
  have hordered : orderingsOf 1 (Running.replay 0 solo secondFirst).2 =
      [(⟨⟨1, 0⟩, ⟨.put, 1, ⟨[97]⟩⟩, none, false⟩, 0),
        (⟨⟨1, 1⟩, ⟨.put, 1, ⟨[98]⟩⟩, some 0, false⟩, 1)] := by decide +kernel
  have hchains : Chains 1 [0, 1] (commands (Running.replay 0 solo secondFirst).2) :=
    chains_secondFirst (by decide +kernel)
  have hslots := causal_order hj rfl hchains (by decide +kernel) (by decide +kernel)
  refine ⟨?_, hslots.2⟩
  refine ⟨_, _, 0, 1, hordered ▸ List.mem_cons_self,
    hordered ▸ List.mem_cons_of_mem _ List.mem_cons_self, by decide, ?_⟩
  exact hslots.1 _ _ _ _ (hordered ▸ List.mem_cons_self)
    (hordered ▸ List.mem_cons_of_mem _ List.mem_cons_self) (by decide)

/-- An accept puts the first write in slot 0 behind the leader's back, which gives slot 0 to the
second write and slot 1 to the first one. -/
def smuggled : List Running.Deed :=
  [.handle (.accept ⟨0, ⟨1, 0⟩, 0, some ⟨.put, 1, ⟨[97]⟩⟩, true⟩), .handle (.commit ⟨0, 0⟩)] ++
    .replicate 4 .look ++ [.handle (.weakPropose secondWrite)] ++ .replicate 4 .look ++
      [.handle (.weakPropose firstWrite)] ++ .replicate 8 .look

/-- An accept that names a weak command of the client can put the client's commands in the wrong
order, although they are chained and no wait times out. -/
theorem not_causal_order_smuggled :
    Running.Journal 0 solo (Running.replay 0 solo smuggled).1 (Running.replay 0 solo smuggled).2 ∧
      solo.isLeader 0 = true ∧
      Chains 1 [0, 1] (commands (Running.replay 0 solo smuggled).2) ∧
      (∀ x ∈ (Running.replay 0 solo smuggled).2, x.timesOut 1 = false) ∧
      ¬∀ w w' slot slot', (w, slot) ∈ orderingsOf 1 (Running.replay 0 solo smuggled).2 →
        (w', slot') ∈ orderingsOf 1 (Running.replay 0 solo smuggled).2 →
          w.id.seq < w'.id.seq → slot < slot' := by
  have hordered : orderingsOf 1 (Running.replay 0 solo smuggled).2 =
      [(⟨⟨1, 1⟩, ⟨.put, 1, ⟨[98]⟩⟩, some 0, false⟩, 0),
        (⟨⟨1, 0⟩, ⟨.put, 1, ⟨[97]⟩⟩, none, false⟩, 1)] := by decide +kernel
  refine ⟨Running.journal_replay (by decide +kernel) rfl smuggled, rfl,
    chains_secondFirst (by decide +kernel), by decide +kernel, fun hslots => ?_⟩
  rw [hordered] at hslots
  exact absurd (hslots _ _ 1 0 (List.mem_cons_of_mem _ List.mem_cons_self) List.mem_cons_self
    (by decide)) (by decide)

end WitnessReplication.Host
