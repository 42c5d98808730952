import WitnessReplication.Host.Running
import WitnessReplication.Proofs.Replica.Frames

/-!
# What a host does for its slots

A host serves its slots by changes to its replica, each carried out with its effects, and by
moving events in and out of mailboxes. `Move` lists these moves and `Moves` strings them together.
Whatever a host does with an event, a mailbox or a planned step is a sequence of moves
(`moves_route`, `moves_lookSlot`, `moves_performAll`), so that what every move preserves is
preserved by all of them. No move touches the tasks of weak commands (`Moves.weak_eq`).

## Implementation notes

An event in a mailbox has been let in by `Replica.claim`, so that it is of the replica's epoch, or
it is a wake-up; `Admits` says this, and `Holds` that it is so in every mailbox.
-/

namespace WitnessReplication.Host

open Replica (Change Changes Effect Event LiveSlot Step)

/-- An event may wait for a slot: it is a wake-up, or it is of the epoch and fits the slot. -/
def Admits (fits : Slot → Event → Prop) (ballot : Ballot) (slot : Slot) (event : Event) : Prop :=
  event = .wake ∨ event.isStale ballot = false ∧ fits slot event

/-- Only events that may wait for a slot are in its mailbox. -/
def Holds (fits : Slot → Event → Prop) (h : Host) : Prop :=
  ∀ {slot queue}, h.mailboxes[slot]? = some queue →
    ∀ event ∈ queue, Admits fits h.replica.config.ballot slot event

/-- A planned step spoken something that may be said, or hands a fitting event to a slot. -/
def Suits (fits : Slot → Event → Prop) (spoken : Effect → Prop) : Step → Prop
  | .emit effect => spoken effect
  | .route slot event => fits slot event

/-- One move of a host, with its signals. -/
inductive Move (fits : Slot → Event → Prop) (spoken : Effect → Prop) : Host → List Signal → Host → Prop
  /-- The replica changes, and the effects are carried out. -/
  | change {h : Host} {r : Replica} {effects : List Effect}
      (hc : Change fits h.replica effects r) :
      Move fits spoken h (h.adopt r effects).2 (h.adopt r effects).1
  /-- An effect is carried out that comes from no change. -/
  | say {h : Host} {effect : Effect} (hspoken : spoken effect) :
      Move fits spoken h (h.emit effect).2 (h.emit effect).1
  /-- An event joins a mailbox. -/
  | queue {h : Host} {slot : Slot} {queue : List Event} {event : Event}
      (hbox : h.mailboxes[slot]? = some queue)
      (hadmits : Admits fits h.replica.config.ballot slot event) :
      Move fits spoken h (h.enqueue slot queue event).2 (h.enqueue slot queue event).1
  /-- The events of a mailbox are taken out. -/
  | unload {h : Host} {slot : Slot} :
      Move fits spoken h [] { h with mailboxes := h.mailboxes.insert slot [] }
  /-- A mailbox is taken away. -/
  | close {h : Host} {slot : Slot} :
      Move fits spoken h [] { h with mailboxes := h.mailboxes.erase slot }

/-- A sequence of moves, with all their signals in order. -/
inductive Moves (fits : Slot → Event → Prop) (spoken : Effect → Prop) : Host → List Signal → Host → Prop
  | refl (h : Host) : Moves fits spoken h [] h
  | tail {h h' h'' : Host} {signals signals' : List Signal} (hs : Moves fits spoken h signals h')
      (hlast : Move fits spoken h' signals' h'') : Moves fits spoken h (signals ++ signals') h''

variable {fits fits' : Slot → Event → Prop} {spoken : Effect → Prop}
variable {h h' h'' : Host} {signals signals' : List Signal}
variable {slot : Slot} {event : Event}

/-! ### Carrying out effects -/

theorem emitAll_append (h : Host) (effects effects' : List Effect) :
    h.emitAll (effects ++ effects') =
      (((h.emitAll effects).1.emitAll effects').1,
        (h.emitAll effects).2 ++ ((h.emitAll effects).1.emitAll effects').2) := by
  induction effects generalizing h with
  | nil => simp [emitAll]
  | cons effect effects ih => simp [emitAll, ih]

/-- An effect is carried out alike by two hosts whose replicas are configured alike. -/
theorem emit_replica (h : Host) {r : Replica} (hconfig : r.config = h.replica.config)
    (effect : Effect) :
    { h with replica := r }.emit effect =
      ({ (h.emit effect).1 with replica := r }, (h.emit effect).2) := by
  have hbatch : ∀ (queue : Batcher → Batcher) (alone : Sent),
      { h with replica := r }.batchOrSend queue alone =
        ({ (h.batchOrSend queue alone).1 with replica := r },
          (h.batchOrSend queue alone).2) := by
    intro queue alone
    obtain ⟨_, _, _, _, _, _, _, _ | b⟩ := h
    · rfl
    · rfl
  cases effect with
  | broadcast m => rfl
  | tell client m => rfl
  | accept a => exact hbatch _ _
  | acceptAck a =>
      simp only [emit, hconfig]
      exact hbatch _ _
  | opened slot =>
      simp only [emit, hconfig]
      split <;> rfl
  | committed slot => rfl
  | executed slot => rfl
  | weakExecuted client => rfl

theorem emitAll_replica (h : Host) {r : Replica} (hconfig : r.config = h.replica.config)
    (effects : List Effect) :
    { h with replica := r }.emitAll effects =
      ({ (h.emitAll effects).1 with replica := r }, (h.emitAll effects).2) := by
  induction effects generalizing h with
  | nil => rfl
  | cons effect effects ih =>
      have hrest := ih (h.emit effect).1 (by rw [hconfig, replica_emit])
      simp only [emitAll, emit_replica h hconfig, hrest]

/-- Effects may be carried out together with the changes that they come from. -/
theorem adopt_append (h : Host) {r r' : Replica} (hr : r.config = h.replica.config)
    (hr' : r'.config = r.config) (effects effects' : List Effect) :
    h.adopt r' (effects ++ effects') =
      (((h.adopt r effects).1.adopt r' effects').1,
        (h.adopt r effects).2 ++ ((h.adopt r effects).1.adopt r' effects').2) := by
  have hconfig : r'.config = (h.emitAll effects).1.replica.config := by
    rw [replica_emitAll, hr', hr]
  simp only [adopt, emitAll_append, emitAll_replica h hr, emitAll_replica h (hr'.trans hr),
    emitAll_replica _ hconfig]

/-- Carrying out an effect leaves the tasks of weak commands as they are. -/
theorem weak_emit (h : Host) (effect : Effect) :
    (h.emit effect).1.weak = h.weak ∧ (h.emit effect).1.spawned = h.spawned := by
  have hbatch : ∀ (queue : Batcher → Batcher) (alone : Sent),
      (h.batchOrSend queue alone).1.weak = h.weak ∧
        (h.batchOrSend queue alone).1.spawned = h.spawned := by
    intro queue alone
    unfold batchOrSend
    split <;> exact ⟨rfl, rfl⟩
  cases effect with
  | accept a => exact hbatch _ _
  | acceptAck a => exact hbatch _ _
  | opened slot =>
      simp only [emit]
      split <;> exact ⟨rfl, rfl⟩
  | broadcast m => exact ⟨rfl, rfl⟩
  | tell client m => exact ⟨rfl, rfl⟩
  | committed slot => exact ⟨rfl, rfl⟩
  | executed slot => exact ⟨rfl, rfl⟩
  | weakExecuted client => exact ⟨rfl, rfl⟩

theorem weak_emitAll (h : Host) (effects : List Effect) :
    (h.emitAll effects).1.weak = h.weak ∧ (h.emitAll effects).1.spawned = h.spawned := by
  induction effects generalizing h with
  | nil => exact ⟨rfl, rfl⟩
  | cons effect effects ih =>
      obtain ⟨hweak, hspawned⟩ := ih (h.emit effect).1
      obtain ⟨hweak', hspawned'⟩ := h.weak_emit effect
      exact ⟨hweak.trans hweak', hspawned.trans hspawned'⟩

theorem weak_adopt (h : Host) (r : Replica) (effects : List Effect) :
    (h.adopt r effects).1.weak = h.weak ∧ (h.adopt r effects).1.spawned = h.spawned :=
  { h with replica := r }.weak_emitAll effects

/-- Carrying out an effect opens at most one mailbox, an empty one. -/
theorem of_mailboxes_emit {effect : Effect} {queue : List Event}
    (hbox : (h.emit effect).1.mailboxes[slot]? = some queue) :
    queue = [] ∨ h.mailboxes[slot]? = some queue := by
  have hbatch : ∀ (f : Batcher → Batcher) (alone : Sent),
      (h.batchOrSend f alone).1.mailboxes = h.mailboxes := by
    intro f alone
    unfold batchOrSend
    split <;> rfl
  cases effect with
  | accept a => exact .inr (by rwa [emit, hbatch] at hbox)
  | acceptAck a => exact .inr (by rwa [emit, hbatch] at hbox)
  | opened other =>
      simp only [emit] at hbox
      split at hbox
      · simp only [Std.ExtTreeMap.getElem?_insert] at hbox
        split at hbox
        · exact .inl (Option.some.inj hbox).symm
        · exact .inr hbox
      · exact .inr hbox
  | broadcast m => exact .inr hbox
  | tell client m => exact .inr hbox
  | committed other => exact .inr hbox
  | executed other => exact .inr hbox
  | weakExecuted client => exact .inr hbox

theorem of_mailboxes_emitAll {effects : List Effect} {queue : List Event}
    (hbox : (h.emitAll effects).1.mailboxes[slot]? = some queue) :
    queue = [] ∨ h.mailboxes[slot]? = some queue := by
  induction effects generalizing h with
  | nil => exact .inr hbox
  | cons effect effects ih =>
      rcases ih hbox with hempty | hbox
      · exact .inl hempty
      · exact of_mailboxes_emit hbox

/-! ### Sequences of moves -/

theorem Admits.mono {ballot : Ballot} (hadmits : Admits fits ballot slot event)
    (hfits : ∀ slot event, fits slot event → fits' slot event) :
    Admits fits' ballot slot event :=
  hadmits.imp_right (And.imp_right (hfits slot event))

/-- What waits in the mailboxes fits in either respect. -/
theorem Holds.and (hh : h.Holds fits) (hh' : h.Holds fits') :
    h.Holds fun slot event => fits slot event ∧ fits' slot event := by
  intro slot queue hbox event hmem
  rcases hh hbox event hmem with rfl | ⟨hstale, hfit⟩
  · exact .inl rfl
  · rcases hh' hbox event hmem with rfl | ⟨-, hfit'⟩
    · exact .inl rfl
    · exact .inr ⟨hstale, hfit, hfit'⟩

theorem Move.mono (hm : Move fits spoken h signals h')
    (hfits : ∀ slot event, fits slot event → fits' slot event) :
    Move fits' spoken h signals h' := by
  cases hm with
  | change hc => exact .change (hc.mono hfits)
  | say hspoken => exact .say hspoken
  | queue hbox hadmits => exact .queue hbox (hadmits.mono hfits)
  | unload => exact .unload
  | close => exact .close

namespace Moves

theorem mono (hs : Moves fits spoken h signals h')
    (hfits : ∀ slot event, fits slot event → fits' slot event) :
    Moves fits' spoken h signals h' := by
  induction hs with
  | refl => exact refl h
  | tail _ hlast ih => exact tail ih (hlast.mono hfits)

theorem single (hm : Move fits spoken h signals h') : Moves fits spoken h signals h' := by
  simpa using tail (refl h) hm

theorem trans (hs : Moves fits spoken h signals h') (hs' : Moves fits spoken h' signals' h'') :
    Moves fits spoken h (signals ++ signals') h'' := by
  induction hs' with
  | refl => simpa using hs
  | tail _ hlast ih =>
      rw [← List.append_assoc]
      exact tail ih hlast

/-- What every move preserves, together with the signals so far, a sequence preserves. -/
theorem preserve {P : Host → List Signal → Prop}
    (hstep : ∀ {h h' sent signals}, P h sent → Move fits spoken h signals h' → P h' (sent ++ signals))
    (hs : Moves fits spoken h signals h') (sent : List Signal) (hp : P h sent) :
    P h' (sent ++ signals) := by
  induction hs with
  | refl => simpa using hp
  | tail _ hlast ih =>
      rw [← List.append_assoc]
      exact hstep ih hlast

/-- What moves do to the replica is a sequence of changes. -/
theorem changes (hs : Moves fits spoken h signals h') :
    ∃ effects, Changes fits h.replica effects h'.replica := by
  induction hs with
  | refl => exact ⟨[], .refl _⟩
  | @tail h' h'' _ _ _ hlast ih =>
      obtain ⟨effects, hc⟩ := ih
      cases hlast with
      | change hlast =>
          rw [replica_adopt]
          exact ⟨_, hc.tail hlast⟩
      | say hspoken =>
          rw [replica_emit]
          exact ⟨_, hc⟩
      | queue hbox hadmits => exact ⟨_, hc⟩
      | unload => exact ⟨_, hc⟩
      | close => exact ⟨_, hc⟩

theorem config_eq (hs : Moves fits spoken h signals h') : h'.replica.config = h.replica.config := by
  obtain ⟨effects, hc⟩ := hs.changes
  exact hc.same.2

/-- Moves leave the tasks of weak commands as they are. -/
theorem weak_eq (hs : Moves fits spoken h signals h') : h'.weak = h.weak ∧ h'.spawned = h.spawned := by
  refine hs.preserve (P := fun h' _ => h'.weak = h.weak ∧ h'.spawned = h.spawned) ?_ [] ⟨rfl, rfl⟩
  rintro h₁ h₂ _ _ ⟨hweak, hspawned⟩ hm
  cases hm with
  | @change r effects hc =>
      obtain ⟨hweak', hspawned'⟩ := h₁.weak_adopt r effects
      exact ⟨hweak'.trans hweak, hspawned'.trans hspawned⟩
  | @say effect hspoken =>
      obtain ⟨hweak', hspawned'⟩ := h₁.weak_emit effect
      exact ⟨hweak'.trans hweak, hspawned'.trans hspawned⟩
  | queue hbox hadmits => exact ⟨hweak, hspawned⟩
  | unload => exact ⟨hweak, hspawned⟩
  | close => exact ⟨hweak, hspawned⟩

/-- Moves put only events in mailboxes that may wait there. -/
theorem holds (hs : Moves fits spoken h signals h') (hh : h.Holds fits) : h'.Holds fits := by
  refine hs.preserve (P := fun h' _ => h'.Holds fits) ?_ [] hh
  clear hh hs
  intro h₁ h₂ _ _ hp hm slot queue hbox event hmem
  have hconfig := (single hm).config_eq
  rw [hconfig]
  cases hm with
  | change hc =>
      rcases of_mailboxes_emitAll hbox with rfl | hbox
      · simp at hmem
      · exact hp hbox event hmem
  | say hspoken =>
      rcases of_mailboxes_emit hbox with rfl | hbox
      · simp at hmem
      · exact hp hbox event hmem
  | queue hbox' hadmits =>
      simp only [enqueue, Std.ExtTreeMap.getElem?_insert] at hbox
      split at hbox
      · rename_i heq
        obtain rfl := Std.LawfulEqOrd.eq_of_compare heq
        obtain rfl := Option.some.inj hbox
        rcases List.mem_append.1 hmem with hmem | hmem
        · exact hp hbox' event hmem
        · rwa [List.mem_singleton.1 hmem]
      · exact hp hbox event hmem
  | unload =>
      simp only [Std.ExtTreeMap.getElem?_insert] at hbox
      split at hbox
      · obtain rfl := Option.some.inj hbox
        simp at hmem
      · exact hp hbox event hmem
  | close =>
      simp only [Std.ExtTreeMap.getElem?_erase] at hbox
      split at hbox
      · simp at hbox
      · exact hp hbox event hmem

/-- Changes are moves, with all their effects carried out at the end. -/
theorem adopt {r : Replica} {effects : List Effect} (hc : Changes fits h.replica effects r) :
    Moves fits spoken h (h.adopt r effects).2 (h.adopt r effects).1 := by
  generalize hbase : h.replica = base at hc
  induction hc with
  | refl =>
      subst hbase
      exact refl h
  | @tail r' r'' effects effects' hc hlast ih =>
      have hconfig : r'.config = h.replica.config := by
        rw [hbase]
        exact hc.same.2
      rw [h.adopt_append hconfig hlast.same.2]
      refine tail ih (.change ?_)
      rwa [replica_adopt]

end Moves

/-! ### What a host does with events -/

/-- Waking a slot and the slots that become executable in turn is a sequence of moves. -/
theorem moves_wake (h : Host) (slot : Slot) : Moves fits spoken h (h.wake slot).2 (h.wake slot).1 := by
  fun_induction wake h slot with
  | case1 => exact .refl _
  | case2 h slot s hs queue hbox => exact .single (.queue hbox (.inl rfl))
  | case3 h slot s hs hbox r effects hp adopted rest ih =>
      have hc : Changes fits h.replica _ _ := Replica.changes_process_wake hs
      rw [hp] at hc
      exact (Moves.adopt hc).trans ih
  | case4 h slot s hs hbox r effects hp =>
      have hc : Changes fits h.replica _ _ := Replica.changes_process_wake hs
      rw [hp] at hc
      exact .adopt hc
  | case5 h slot s hs hbox r effects hp =>
      have hc : Changes fits h.replica _ _ := Replica.changes_process_wake hs
      rw [hp] at hc
      exact .adopt hc

theorem moves_wakeIf (h : Host) (awaited : Bool) (slot : Slot) :
    Moves fits spoken h (if awaited then h.wake slot else (h, [])).2
      (if awaited then h.wake slot else (h, [])).1 := by
  split
  · exact moves_wake h slot
  · exact .refl h

/-- Handing an event to a slot is a sequence of moves. -/
theorem moves_route (hfit : fits slot event) :
    Moves fits spoken h (h.route slot event).2 (h.route slot event).1 := by
  unfold route
  split
  · exact .refl h
  · rename_i r s opened hclaim
    obtain ⟨hstale, hs, hc⟩ : _ ∧ _ ∧ Changes fits h.replica opened r :=
      Replica.changes_claim hclaim
    have hclaimed : Moves fits spoken h _ _ := Moves.adopt hc
    dsimp only
    split
    · rename_i queue hbox
      refine hclaimed.trans (.single (.queue hbox (.inr ⟨?_, hfit⟩)))
      rwa [replica_adopt]
    · have hprocess := Replica.changes_process hs hstale hfit
      rw [← replica_adopt h r opened] at hprocess
      have hprocessed := hclaimed.trans (Moves.adopt hprocess)
      simp only [replica_adopt] at hprocessed ⊢
      split
      · exact hprocessed.trans (moves_wake _ _)
      · exact hprocessed

/-- Serving the events of a mailbox is a sequence of moves. -/
theorem moves_serve {events : List Event}
    (hevents : ∀ event ∈ events, Admits fits h.replica.config.ballot slot event) :
    Moves fits spoken h (h.serve slot events).2 (h.serve slot events).1 := by
  induction events generalizing h with
  | nil => exact .refl h
  | cons event events ih =>
      unfold serve
      split
      · exact .refl h
      · rename_i s hs
        have hprocess : Changes fits h.replica (h.replica.process slot s event).2.1
            (h.replica.process slot s event).1 := by
          rcases hevents event List.mem_cons_self with rfl | ⟨hstale, hfit⟩
          · exact Replica.changes_process_wake hs
          · exact Replica.changes_process hs hstale hfit
        have hadopted : Moves fits spoken h _ _ := Moves.adopt hprocess
        dsimp only
        split
        · refine hadopted.trans (ih fun event hmem => ?_)
          rw [hadopted.config_eq]
          exact hevents event (List.mem_cons_of_mem _ hmem)
        · rename_i awaited houtcome
          simpa using (hadopted.trans (moves_wakeIf _ awaited _)).tail .close

/-- One look of the task of a slot is a sequence of moves. -/
theorem moves_lookSlot (hh : h.Holds fits) (slot : Slot) :
    Moves fits spoken h (h.lookSlot slot).2 (h.lookSlot slot).1 := by
  unfold lookSlot
  split
  · exact .refl h
  · rename_i queue hbox
    simpa using (Moves.single .unload).trans (moves_serve (hh hbox))

/-- Planned steps are a sequence of moves. -/
theorem moves_performAll {steps : List Step}
    (hsteps : ∀ step ∈ steps, Suits fits spoken step) :
    Moves fits spoken h (h.performAll steps).2 (h.performAll steps).1 := by
  induction steps generalizing h with
  | nil => exact .refl h
  | cons step steps ih =>
      have hfirst : Moves fits spoken h (h.perform step).2 (h.perform step).1 := by
        have hstep := hsteps step List.mem_cons_self
        cases step with
        | emit effect => exact .single (.say hstep)
        | route slot event => exact moves_route hstep
      exact hfirst.trans (ih fun step hmem => hsteps step (List.mem_cons_of_mem _ hmem))

end WitnessReplication.Host
