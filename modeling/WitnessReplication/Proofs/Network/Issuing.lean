import WitnessReplication.Proofs.Client.Awaiting
import WitnessReplication.Proofs.Network.Rules

/-!
# Issued commands

A client numbers its commands in the order in which it issues them, and awaits each of them until
it has completed. A client that issues a command only when those before it have completed has
completed every command but its last.
-/

namespace WitnessReplication

namespace Chronicle

open Network

/-- Every issued command is awaited by its client, or has completed. -/
def Accounted (c : Chronicle) : Prop :=
  ∀ q ∈ c.issued, (∃ place client, c.network.clients[place]? = some client ∧
    q.id.client = place + 1 ∧ client.Awaits q.id) ∨ ∃ done ∈ c.completions, done.id = q.id

variable {config : Config} {bounds : List ReplicaId} {c c' : Chronicle} {q q' : Request}
variable {place : Nat}

theorem Step.accounted (h : c.Step c') (hs : c.Sound config) (ha : c.Accounted) :
    c'.Accounted := by
  have hkeep : ∀ {seat : Nat} {client client' : Client} {q : Request} {completions},
      c.network.clients[seat]? = some client →
      (client.Awaits q.id → client'.Awaits q.id ∨ ∃ done ∈ completions, done.id = q.id) →
      c.completions ⊆ completions → q ∈ c.issued →
      (∃ place client, (c.network.clients.set seat client')[place]? = some client ∧
        q.id.client = place + 1 ∧ client.Awaits q.id) ∨ ∃ done ∈ completions, done.id = q.id := by
    intro seat client client' q completions hc hawaits hmore hq
    have hlt := (List.getElem?_eq_some_iff.1 hc).1
    rcases ha q hq with ⟨place, other, hother, hid, hopen⟩ | ⟨done, hdone, hid⟩
    · by_cases hsame : seat = place
      · subst hsame
        obtain rfl : client = other := Option.some.inj (hc.symm.trans hother)
        refine (hawaits hopen).imp_left fun hstill => ⟨seat, client', ?_, hid, hstill⟩
        rw [List.getElem?_set_self hlt]
      · refine .inl ⟨place, other, ?_, hid, hopen⟩
        rw [List.getElem?_set_ne hsame, hother]
    · exact .inr ⟨done, hmore hdone, hid⟩
  cases h with
  | @issued seat client weak command hc =>
      intro q hq
      rcases List.mem_append.1 hq with hq | hq
      · exact hkeep hc (fun hopen => .inl (hopen.issue weak command)) (List.Subset.refl _) hq
      · obtain rfl := List.mem_singleton.1 hq
        have hlt := (List.getElem?_eq_some_iff.1 hc).1
        refine .inl ⟨seat, _, List.getElem?_set_self hlt, ?_, client.awaits_issue weak command⟩
        rw [← hs.clients.id_eq hc]
        cases weak <;> rfl
  | thinned hpool => exact ha
  | @reacted seat client m hc hm =>
      intro q hq
      refine hkeep hc (fun hopen => ?_) (List.subset_append_left _ _) hq
      refine (hopen.handle m).imp_right fun ⟨done, hdone, hid⟩ => ⟨done, ?_, hid⟩
      exact List.mem_append_right _ (Option.mem_toList.2 hdone)
  | handled hr hm => exact ha

theorem Reachable.accounted (hc : c.Reachable config bounds) : c.Accounted := by
  refine hc.induct (fun n hn q hq => ?_) fun c c' hs hstep ha => hstep.accounted hs ha
  simp [Chronicle.start, History.start] at hq

/-- Clients await only commands of their own. -/
def AwaitOwn (c : Chronicle) : Prop :=
  ∀ (place : Nat) client, c.network.clients[place]? = some client →
    ∀ id, client.Awaits id → id.client = place + 1

theorem Step.awaitOwn (h : c.Step c') (hs : c.Sound config) (ha : c.AwaitOwn) : c'.AwaitOwn := by
  cases h with
  | @issued seat client weak command hc =>
      intro place other hother id hopen
      rcases of_getElem?_set hother with ⟨rfl, rfl⟩ | ⟨-, hother⟩
      · rcases Client.of_awaits_issue hopen with rfl | hopen
        · rw [← hs.clients.id_eq hc]
          cases weak <;> rfl
        · exact ha place client hc id hopen
      · exact ha place other hother id hopen
  | thinned hpool => exact ha
  | @reacted seat client m hc hm =>
      intro place other hother id hopen
      rcases of_getElem?_set hother with ⟨rfl, rfl⟩ | ⟨-, hother⟩
      · exact ha place client hc id (Client.of_awaits_handle hopen)
      · exact ha place other hother id hopen
  | handled hr hm => exact ha

theorem Reachable.awaitOwn (hc : c.Reachable config bounds) : c.AwaitOwn := by
  refine hc.induct (fun n hn place client hclient id hopen => ?_) fun c c' hs hstep ha =>
    hstep.awaitOwn hs ha
  obtain rfl := Network.start_eq hn
  have hstart : (bounds.zipIdx.map fun bound : ReplicaId × Nat =>
      ({ id := bound.2 + 1, bound := bound.1, config } : Client))[place]? = some client := hclient
  rw [List.getElem?_map] at hstart
  obtain ⟨bound, -, rfl⟩ := Option.map_eq_some_iff.1 hstart
  exact absurd hopen (Client.not_awaits_of_inFlight rfl)

/-- Each client goes on listening to the replica that it is bound to. -/
theorem Step.bounds_eq (h : c.Step c') (hb : c.network.clients.map Client.bound = bounds) :
    c'.network.clients.map Client.bound = bounds := by
  have hset : ∀ {seat : Nat} {client client' : Client}, c.network.clients[seat]? = some client →
      client'.bound = client.bound →
        (c.network.clients.set seat client').map Client.bound = bounds := by
    intro seat client client' hc hsame
    obtain ⟨hlt, rfl⟩ := List.getElem?_eq_some_iff.1 hc
    rw [← hb]
    refine List.ext_getElem (by simp) fun i hi hi' => ?_
    rw [List.getElem_map, List.getElem_map, List.getElem_set]
    split
    · rename_i heq
      subst heq
      exact hsame
    · rfl
  cases h with
  | issued weak command hc => exact hset hc (Client.bound_issue _ weak command)
  | thinned hpool => exact hb
  | reacted hc hm => exact hset hc (Client.bound_handle _ _)
  | handled hr hm => exact hb

theorem Reachable.bounds_eq (hc : c.Reachable config bounds) :
    c.network.clients.map Client.bound = bounds := by
  refine hc.induct (fun n hn => ?_) fun c c' hs hstep hb => hstep.bounds_eq hb
  obtain rfl := Network.start_eq hn
  simp only [Chronicle.start, History.start, List.map_map]
  exact List.zipIdx_map_fst 0 bounds

/-! ### The order of issue -/

/-- One request was issued before another of the same client. -/
def IssuedBefore (q q' : Request) : Prop := q.id.client = q'.id.client → q.id.seq < q'.id.seq

theorem Step.pairwise_issued (h : c.Step c') (hs : c.Sound config)
    (hp : c.issued.Pairwise IssuedBefore) : c'.issued.Pairwise IssuedBefore := by
  cases h with
  | @issued seat client weak command hc =>
      refine List.pairwise_append.2 ⟨hp, List.pairwise_singleton _ _, fun q hq q' hq' hclient => ?_⟩
      obtain rfl := List.mem_singleton.1 hq'
      have hid : (client.issue weak command).2.1 = ⟨client.id, client.nextSeq⟩ := by
        cases weak <;> rfl
      rw [hid] at hclient ⊢
      exact (hs.clients.sound hc).seq_lt q hq hclient
  | thinned hpool => exact hp
  | reacted hc hm => exact hp
  | handled hr hm => exact hp

/-- Clients number their commands in the order in which they issue them. -/
theorem Reachable.pairwise_issued (hc : c.Reachable config bounds) :
    c.issued.Pairwise IssuedBefore := by
  refine hc.induct (fun n hn => ?_) fun c c' hs hstep hp => hstep.pairwise_issued hs hp
  exact List.Pairwise.nil

theorem issued_prefix_run (c : Chronicle) (actions : List Action) :
    c.issued <+: (c.run actions).issued := by
  induction actions generalizing c with
  | nil => exact List.prefix_rfl
  | cons action actions ih => exact (List.prefix_append _ _).trans (ih (c.act action))

/-- A command of a client that has been issued since then is later than those issued before. -/
theorem seq_lt_of_prefix (hp : c'.issued.Pairwise IssuedBefore) (hgrows : c.issued <+: c'.issued)
    (hq : q ∈ c.issued) (hnew : q' ∉ c.issued) (hq' : q' ∈ c'.issued)
    (hclient : q.id.client = q'.id.client) : q.id.seq < q'.id.seq := by
  obtain ⟨more, hmore⟩ := hgrows
  rw [← hmore] at hp hq'
  exact (List.pairwise_append.1 hp).2.2 q hq q' ((List.mem_append.1 hq').resolve_left hnew) hclient

theorem Reachable.seq_lt_of_new (hc : c.Reachable config bounds) {actions : List Action}
    (hq : q ∈ c.issued) (hnew : q' ∉ c.issued) (hq' : q' ∈ (c.run actions).issued)
    (hclient : q.id.client = q'.id.client) : q.id.seq < q'.id.seq :=
  seq_lt_of_prefix (hc.run actions).pairwise_issued (c.issued_prefix_run actions) hq hnew hq'
    hclient

theorem Turn.issued_prefix {action : Action} (h : c.Turn action c') : c.issued <+: c'.issued := by
  cases h with
  | issued weak command haction hc => exact List.prefix_append _ _
  | _ => exact List.prefix_rfl

/-! ### A client that waits for each of its commands -/

/-- Every command of a client but its last one has completed. -/
def Sequential (c : Chronicle) (client : ClientId) : Prop :=
  ∀ q ∈ c.issued, ∀ q' ∈ c.issued, q.id.client = client → q'.id.client = client →
    q.id.seq < q'.id.seq → ∃ done ∈ c.completions, done.id = q.id

theorem Turn.sequential {action : Action} (h : c.Turn action c') (hs : c.Sound config)
    (ha : c.Accounted) (hrule : Rule.sequential place c.network action = true)
    (hseq : c.Sequential (place + 1)) : c'.Sequential (place + 1) := by
  cases h with
  | idle => exact hseq
  | @issued _ seat client weak command haction hc =>
      have hid : (client.issue weak command).2.1 = ⟨client.id, client.nextSeq⟩ := by
        cases weak <;> rfl
      have hseat := hs.clients.id_eq hc
      intro q hq q' hq' hclient hclient' hlt
      rw [List.mem_append, List.mem_singleton] at hq hq'
      -- the new command is not the earlier one
      have hold : q ∈ c.issued := by
        refine hq.resolve_right ?_
        rintro rfl
        rw [hid] at hclient hlt
        rcases hq' with hq' | rfl
        · have hsmall := (hs.clients.sound hc).seq_lt q' hq' (hclient'.trans hclient.symm)
          exact Nat.lt_asymm hsmall hlt
        · rw [hid] at hlt
          exact Nat.lt_irrefl _ hlt
      rcases hq' with hq' | rfl
      · exact hseq q hold q' hq' hclient hclient' hlt
      · rw [hid] at hclient'
        obtain rfl : seat = place := Nat.succ.inj (hseat.symm.trans hclient')
        have hnone : client.inFlight = 0 := by
          cases weak with
          | false =>
              obtain rfl := haction
              simpa [Rule.sequential, hc] using hrule
          | true =>
              obtain rfl := haction
              simpa [Rule.sequential, hc] using hrule
        rcases ha q hold with ⟨other, client', hother, hid', hopen⟩ | hdone
        · obtain rfl : other = seat := Nat.succ.inj (hid'.symm.trans hclient)
          obtain rfl : client = client' := Option.some.inj (hc.symm.trans hother)
          exact absurd hopen (Client.not_awaits_of_inFlight hnone)
        · exact hdone
  | lost hl hlost => exact hseq
  | repeated hl => exact hseq
  | reacted hl hc =>
      intro q hq q' hq' hclient hclient' hlt
      obtain ⟨done, hdone, hid⟩ := hseq q hq q' hq' hclient hclient' hlt
      exact ⟨done, List.mem_append_left _ hdone, hid⟩
  | handled hl hr => exact hseq

theorem ReachableBy.sequential (hc : c.ReachableBy (.sequential place) config bounds) :
    c.Sequential (place + 1) := by
  refine hc.induct (fun n hn q hq => ?_) fun c c' action hc _ hrule hturn hseq =>
    hturn.sequential hc.reachable.history.sound hc.reachable.accounted hrule hseq
  simp [Chronicle.start, History.start] at hq

end Chronicle

end WitnessReplication
