import WitnessReplication.Proofs.Clock
import WitnessReplication.Proofs.Host.Ordering
import WitnessReplication.Proofs.Replica.Notifying

/-!
# No word is missed

Whoever is subscribed to a slot is woken when word of it comes, and nobody subscribes to what has
come already (`Attentive`). The task of a weak command that waits for its slot is therefore
subscribed to it or in the queue at any time (`Running.Journal.watchful`), and where no task is in
the queue, what the tasks wait for has not come.
-/

namespace WitnessReplication.Host

open Replica (Effect Event)

/-- Nobody waits for what has come, and the replica gives word of what comes. -/
structure Attentive (h : Host) : Prop where
  tidy : h.replica.Tidy
  commits : ∀ {t : Task} {slot}, t ∈ h.commits.subscribers slot →
    h.replica.isCommitted slot = false
  executions : ∀ {t : Task} {slot}, t ∈ h.executions.subscribers slot →
    h.replica.isExecuted slot = false

/-- Whoever was subscribed to a slot still is, or is woken. -/
structure Reaches (h : Host) (signals : List Signal) (h' : Host) : Prop where
  commits : ∀ {t : Task} {slot}, t ∈ h.commits.subscribers slot →
    t ∈ h'.commits.subscribers slot ∨ .request (.wake t) ∈ signals
  executions : ∀ {t : Task} {slot}, t ∈ h.executions.subscribers slot →
    t ∈ h'.executions.subscribers slot ∨ .request (.wake t) ∈ signals

/-- A task that waits for a slot is subscribed to it. -/
def Subscribed (h : Host) (number : Nat) : Stage → Prop
  | .commit slot _ => Task.weak number ∈ h.commits.subscribers slot
  | .execute slot _ => Task.weak number ∈ h.executions.subscribers slot
  | .begin => True
  | .dependency _ => True

/-- The tasks of weak commands that are not in the queue are subscribed to what they wait for. -/
def Watched (h : Host) (ready : List Task) : Prop :=
  ∀ {number : Nat} {task : WeakTask}, h.weak[number]? = some task →
    h.Subscribed number task.stage ∨ .weak number ∈ ready

variable {fits : Slot → Event → Prop} {spoken : Effect → Prop} {h h' h'' : Host}
variable {signals signals' : List Signal} {number : Nat} {slot : Slot} {t : Task}
variable {w : Replica.WeakCommand} {due : Prop} {stage : Stage} {ready ready' : List Task}

/-! ### Carrying out effects -/

theorem mem_commits_emit {effect : Effect} :
    t ∈ (h.emit effect).1.commits.subscribers slot ↔
      t ∈ h.commits.subscribers slot ∧ effect ≠ .committed slot := by
  have hbatch : ∀ (queue : Batcher → Batcher) (alone : Sent),
      (h.batchOrSend queue alone).1.commits = h.commits := by
    intro queue alone
    unfold batchOrSend
    split <;> rfl
  cases effect with
  | accept a => simp [emit, hbatch]
  | acceptAck a => simp [emit, hbatch]
  | opened other =>
      simp only [emit]
      split <;> simp
  | broadcast m => simp [emit]
  | tell client m => simp [emit]
  | committed other => simp [emit, Registry.mem_subscribers_close, eq_comm]
  | executed other => simp [emit]
  | weakExecuted client => simp [emit]

theorem mem_executions_emit {effect : Effect} :
    t ∈ (h.emit effect).1.executions.subscribers slot ↔
      t ∈ h.executions.subscribers slot ∧ effect ≠ .executed slot := by
  have hbatch : ∀ (queue : Batcher → Batcher) (alone : Sent),
      (h.batchOrSend queue alone).1.executions = h.executions := by
    intro queue alone
    unfold batchOrSend
    split <;> rfl
  cases effect with
  | accept a => simp [emit, hbatch]
  | acceptAck a => simp [emit, hbatch]
  | opened other =>
      simp only [emit]
      split <;> simp
  | broadcast m => simp [emit]
  | tell client m => simp [emit]
  | committed other => simp [emit]
  | executed other => simp [emit, Registry.mem_subscribers_close, eq_comm]
  | weakExecuted client => simp [emit]

theorem mem_commits_emitAll {effects : List Effect} :
    t ∈ (h.emitAll effects).1.commits.subscribers slot ↔
      t ∈ h.commits.subscribers slot ∧ .committed slot ∉ effects := by
  induction effects generalizing h with
  | nil => simp [emitAll]
  | cons effect effects ih =>
      simp only [emitAll, ih, mem_commits_emit, List.mem_cons, not_or, and_assoc]
      simp [eq_comm]

theorem mem_executions_emitAll {effects : List Effect} :
    t ∈ (h.emitAll effects).1.executions.subscribers slot ↔
      t ∈ h.executions.subscribers slot ∧ .executed slot ∉ effects := by
  induction effects generalizing h with
  | nil => simp [emitAll]
  | cons effect effects ih =>
      simp only [emitAll, ih, mem_executions_emit, List.mem_cons, not_or, and_assoc]
      simp [eq_comm]

namespace Reaches

theorem refl (h : Host) : h.Reaches [] h := ⟨.inl, .inl⟩

theorem trans (hr : h.Reaches signals h') (hr' : h'.Reaches signals' h'') :
    h.Reaches (signals ++ signals') h'' where
  commits hmem := by
    rcases hr.commits hmem with hmem | hwoken
    · exact (hr'.commits hmem).imp_right (List.mem_append_right _)
    · exact .inr (List.mem_append_left _ hwoken)
  executions hmem := by
    rcases hr.executions hmem with hmem | hwoken
    · exact (hr'.executions hmem).imp_right (List.mem_append_right _)
    · exact .inr (List.mem_append_left _ hwoken)

/-- Whoever an effect drops is woken. -/
theorem emit (h : Host) (effect : Effect) : h.Reaches (h.emit effect).2 (h.emit effect).1 where
  commits {t slot} hmem := by
    by_cases heffect : effect = .committed slot
    · subst heffect
      exact .inr (mem_wakeAll.2 hmem)
    · exact .inl (mem_commits_emit.2 ⟨hmem, heffect⟩)
  executions {t slot} hmem := by
    by_cases heffect : effect = .executed slot
    · subst heffect
      exact .inr (mem_wakeAll.2 hmem)
    · exact .inl (mem_executions_emit.2 ⟨hmem, heffect⟩)

theorem emitAll (h : Host) (effects : List Effect) :
    h.Reaches (h.emitAll effects).2 (h.emitAll effects).1 := by
  induction effects generalizing h with
  | nil => exact refl h
  | cons effect effects ih => exact (emit h effect).trans (ih _)

theorem adopt (h : Host) (r : Replica) (effects : List Effect) :
    h.Reaches (h.adopt r effects).2 (h.adopt r effects).1 where
  commits hmem := (emitAll { h with replica := r } effects).commits hmem
  executions hmem := (emitAll { h with replica := r } effects).executions hmem

end Reaches

/-- A host that moves stays attentive, and whoever it drops is woken. -/
theorem Attentive.moves (ha : h.Attentive) (hs : Moves fits spoken h signals h') :
    h'.Attentive ∧ h.Reaches signals h' := by
  refine hs.preserve (P := fun h' signals => h'.Attentive ∧ h.Reaches signals h') ?_ []
    ⟨ha, .refl h⟩
  clear hs ha
  rintro h₁ h₂ sent signals ⟨ha, hreaches⟩ hm
  cases hm with
  | @change r effects hc =>
      obtain ⟨htidy, htells⟩ := hc.tells ha.tidy
      refine ⟨?_, hreaches.trans (.adopt h₁ r effects)⟩
      constructor
      case tidy => rwa [replica_adopt]
      case commits =>
        intro t slot hmem
        obtain ⟨hmem, heffect⟩ := mem_commits_emitAll.1 hmem
        rw [replica_adopt]
        refine Bool.eq_false_iff.2 fun hcommitted => ?_
        rcases htells.committed slot hcommitted with hold | hnew
        · exact absurd (ha.commits hmem) (by simp [hold])
        · exact heffect hnew
      case executions =>
        intro t slot hmem
        obtain ⟨hmem, heffect⟩ := mem_executions_emitAll.1 hmem
        rw [replica_adopt]
        refine Bool.eq_false_iff.2 fun hexecuted => ?_
        rcases htells.executed slot hexecuted with hold | hnew
        · exact absurd (ha.executions hmem) (by simp [hold])
        · exact heffect hnew
  | @say effect hspoken =>
      refine ⟨?_, hreaches.trans (.emit h₁ effect)⟩
      constructor
      case tidy => rw [replica_emit]; exact ha.tidy
      case commits =>
        intro t slot hmem
        rw [replica_emit]
        exact ha.commits (mem_commits_emit.1 hmem).1
      case executions =>
        intro t slot hmem
        rw [replica_emit]
        exact ha.executions (mem_executions_emit.1 hmem).1
  | queue hbox hadmits => exact ⟨⟨ha.tidy, ha.commits, ha.executions⟩, hreaches.trans ⟨.inl, .inl⟩⟩
  | unload => exact ⟨⟨ha.tidy, ha.commits, ha.executions⟩, hreaches.trans ⟨.inl, .inl⟩⟩
  | close => exact ⟨⟨ha.tidy, ha.commits, ha.executions⟩, hreaches.trans ⟨.inl, .inl⟩⟩

/-- What a replica notes does not bear on who waits. -/
theorem Attentive.note {q? : Option Request} {r : Replica} (ha : h.Attentive)
    (hnoted : h.replica.Noted q? r) : { h with replica := r }.Attentive := by
  obtain ⟨⟨_, _, _, _, _, _, rfl⟩, -⟩ := hnoted
  exact ⟨ha.tidy.congr rfl rfl rfl, ha.commits, ha.executions⟩

/-! ### Tasks -/

theorem Attentive.tends (ha : h.Attentive) (ht : Tends number w slot due h h' signals) :
    h'.Attentive where
  tidy := by rw [ht.replica_eq]; exact ha.tidy
  commits hmem := by
    rw [ht.replica_eq]
    exact (ht.commits_of _ _ hmem).elim ha.commits id
  executions hmem := by
    rw [ht.replica_eq]
    exact (ht.executions_of _ _ hmem).elim ha.executions id

/-- A task that goes on tending its slot is subscribed to it. -/
theorem Tending.subscribed {sent : List Sent} (ht : Tending number w slot due h' sent)
    {task : WeakTask} (htask : h'.weak[number]? = some task) : h'.Subscribed number task.stage := by
  cases ht with
  | commits hown hsub =>
      obtain rfl := Option.some.inj (hown.symm.trans htask)
      exact hsub
  | executes hown hsub =>
      obtain rfl := Option.some.inj (hown.symm.trans htask)
      exact hsub
  | gaveUp hown hexec hdue => simp [hown] at htask
  | answered hown hexec => simp [hown] at htask

theorem Subscribed.congr (hsub : h.Subscribed number stage) (hcommits : h'.commits = h.commits)
    (hexecutions : h'.executions = h.executions) : h'.Subscribed number stage := by
  cases stage with
  | begin => trivial
  | dependency deadline => trivial
  | commit slot deadline => simpa [Subscribed, hcommits] using hsub
  | execute slot deadline => simpa [Subscribed, hexecutions] using hsub

theorem Subscribed.reached (hsub : h.Subscribed number stage) (hr : h.Reaches signals h') :
    h'.Subscribed number stage ∨ .request (.wake (.weak number)) ∈ signals := by
  cases stage with
  | begin => exact .inl trivial
  | dependency deadline => exact .inl trivial
  | commit slot deadline => exact hr.commits hsub
  | execute slot deadline => exact hr.executions hsub

/-- Whoever is subscribed while another task tends its slot still is afterwards, or is woken. -/
theorem Subscribed.tended {other : Nat} (hsub : h.Subscribed other stage)
    (ht : Tends number w slot due h h' signals) (hother : other ≠ number) :
    h'.Subscribed other stage ∨ .request (.wake (.weak other)) ∈ signals := by
  have hne : Task.weak other ≠ .weak number := by simpa using hother
  cases stage with
  | begin => exact .inl trivial
  | dependency deadline => exact .inl trivial
  | commit slot deadline =>
      exact (ht.commits_kept _ _ hsub).imp_right fun hmem => hmem.resolve_right hne
  | execute slot deadline =>
      exact (ht.executions_kept _ _ hsub).imp_right fun hmem => hmem.resolve_right hne

/-- The tasks stay watched while those that are dropped are woken. -/
theorem Watched.reached (hw : h.Watched ready) (hweak : h'.weak = h.weak)
    (hr : h.Reaches signals h') (hready : ∀ t ∈ ready, t ∈ ready')
    (hwoken : ∀ t, .request (.wake t) ∈ signals → t ∈ ready') : h'.Watched ready' := by
  intro number task htask
  rcases hw (hweak ▸ htask) with hsub | hmem
  · exact (hsub.reached hr).imp_right (hwoken _)
  · exact .inr (hready _ hmem)

/-- A task that is handed over waits for nothing yet. -/
theorem Watched.spawn (hw : h.Watched ready) (w : Replica.WeakCommand) :
    (h.spawnWeak w).1.Watched ready := by
  intro number task htask
  simp only [spawnWeak, setStage, Std.ExtTreeMap.getElem?_insert] at htask
  split at htask
  · obtain rfl := Option.some.inj htask
    exact .inl trivial
  · exact hw htask

/-- The tasks stay watched when one of them looks. -/
theorem Watched.look {now : Nat} (hw : h.Watched (.weak number :: ready)) (ha : h.Attentive)
    (hlook : WeakLook fits spoken now number h h' signals) (hready : ∀ t ∈ ready, t ∈ ready')
    (hwoken : ∀ t, .request (.wake t) ∈ signals → t ∈ ready') :
    h'.Attentive ∧ h'.Watched ready' := by
  have hothers : ∀ {other : Nat} {task : WeakTask}, other ≠ number →
      h.weak[other]? = some task → h.Subscribed other task.stage ∨ .weak other ∈ ready' := by
    intro other task hne htask
    have hne : Task.weak other ≠ .weak number := by simpa using hne
    refine (hw htask).imp_right fun hmem => hready _ ?_
    exact (List.mem_cons.1 hmem).resolve_left hne
  have htended : ∀ {h₁ : Host} {w : Replica.WeakCommand} {slot : Slot} {due : Prop}
      {signals' : List Signal}, Tends number w slot due h₁ h' signals' →
      (∀ {other : Nat} {task : WeakTask}, other ≠ number → h₁.weak[other]? = some task →
        h₁.Subscribed other task.stage ∨ .weak other ∈ ready') →
      (∀ t, .request (.wake t) ∈ signals' → t ∈ ready') → h'.Watched ready' := by
    intro h₁ w slot due signals' ht hbefore hwoken other task htask
    by_cases hother : other = number
    · subst hother
      exact .inl (ht.own.subscribed htask)
    · rcases hbefore hother (ht.others other hother ▸ htask) with hsub | hmem
      · exact (hsub.tended ht hother).imp_right (hwoken _)
      · exact .inr hmem
  cases hlook with
  | idle hown =>
      refine ⟨ha, fun {other task} htask => hothers ?_ htask⟩
      rintro rfl
      simp [hown] at htask
  | waits hown hstage hsent =>
      refine ⟨⟨ha.tidy, ha.commits, ha.executions⟩, fun {other task} htask => ?_⟩
      by_cases hother : other = number
      · subst hother
        obtain rfl : _ = task := by simpa using htask
        exact .inl trivial
      · refine hothers hother ?_
        simpa [Std.ExtTreeMap.getElem?_insert, Ne.symm hother] using htask
  | @refused w stage weakDeps _ hown hstage hslots hsent =>
      have hassigned := ha.note (noted_assigned h.replica w)
      refine ⟨⟨hassigned.tidy, hassigned.commits, hassigned.executions⟩,
        fun {other task} htask => ?_⟩
      have hother : other ≠ number := by
        rintro rfl
        simp at htask
      refine hothers hother ?_
      simpa [Std.ExtTreeMap.getElem?_erase, Ne.symm hother] using htask
  | @orders w stage weakDeps woken moved tended h₁ _ hown hstage hdep hslots hsent hs ht =>
      have hassigned := ha.note (noted_assigned h.replica w)
      have hordered : Attentive { h with replica := assigned h.replica w, weakDeps } :=
        ⟨hassigned.tidy, hassigned.commits, hassigned.executions⟩
      obtain ⟨hmoved, hreaches⟩ := hordered.moves hs
      refine ⟨hmoved.tends ht, htended ht (fun {other task} hne htask => ?_)
        fun t hmem => hwoken t (by simp [hmem])⟩
      rcases hothers hne (hs.weak_eq.1 ▸ htask) with hsub | hmem
      · have hordered : Subscribed { h with replica := assigned h.replica w, weakDeps } other
            task.stage := hsub.congr rfl rfl
        exact (hordered.reached hreaches).imp_right fun hmem => hwoken _ (by simp [hmem])
      · exact .inr hmem
  | tends hown hstage ht => exact ⟨ha.tends ht, htended ht hothers hwoken⟩

/-! ### Running -/

namespace Running

variable {id : ReplicaId} {config : Config} {r : Run Running Task} {log : List Moment}

/-- Whatever is handled, the host goes by its journal in all that concerns no command. -/
theorem Journal.unnamed (hj : Journal id config r log) (hleader : config.isLeader id = true) :
    Ordered (fun _ _ => False) id config log r.state.host :=
  hj.ordered hleader fun _ _ => ⟨fun _ _ hcares => hcares, fun _ _ _ hcares => hcares⟩

/-- The replica of a running host that leads goes on leading. -/
theorem Journal.isLeader (hj : Journal id config r log) (hleader : config.isLeader id = true) :
    r.state.host.replica.isLeader = true := by
  have ho := hj.unnamed hleader
  rw [Replica.isLeader, ho.config_eq, ho.id_eq, hleader]

theorem mem_requests {signals : List Signal} {request : Clock.Request Task} :
    request ∈ requests signals ↔ .request request ∈ signals := by
  simp only [requests, List.mem_filterMap]
  constructor
  · rintro ⟨signal, hmem, hsignal⟩
    cases signal with
    | send m => simp at hsignal
    | request r =>
        obtain rfl := Option.some.inj hsignal
        exact hmem
  · exact fun hmem => ⟨_, hmem, rfl⟩

theorem attentive_start {h : Host} {signals : List Signal}
    (hstart : Host.start id config = .ok (h, signals)) : h.Attentive := by
  obtain ⟨-, heq⟩ := start_eq hstart
  rw [heq]
  exact ⟨Replica.tidy_initial id config, by simp, by simp⟩

/-- At any time nobody waits for what has come, and the task of a weak command that is not in the
queue is subscribed to what it waits for. -/
theorem Journal.watchful (hj : Journal id config r log) (hleader : config.isLeader id = true) :
    r.state.host.Attentive ∧ r.state.host.Watched r.clock.ready := by
  induction hj with
  | start hstart =>
      obtain ⟨host, signals, hhost, rfl⟩ := exists_of_start hstart
      refine ⟨attentive_start hhost, fun {number task} htask => ?_⟩
      have hweak : host.weak = ∅ := by rw [(start_eq hhost).2]
      simp [Run.put, hweak] at htask
  | @handle r log hj m ih =>
      obtain ⟨ha, hw⟩ := ih
      obtain ⟨h₁, signals, hs, heq⟩ := handle_eq (fun slot event => event.Brought m slot)
        (fun _ => True) (hj.isLeader hleader) (fun _ _ hbrought => hbrought) fun _ _ => trivial
      obtain ⟨hmoved, hreaches⟩ := (ha.note (r.state.host.replica.noted_respond m)).moves hs
      have hready : ∀ signals, ∀ t ∈ r.clock.ready,
          t ∈ (r.clock.grantAll (requests signals)).ready :=
        fun _ _ hmem => Clock.mem_ready_grantAll hmem _
      have hwoken : ∀ signals t, .request (.wake t) ∈ signals →
          t ∈ (r.clock.grantAll (requests signals)).ready :=
        fun _ _ hmem => Clock.mem_ready_of_wake (mem_requests.2 hmem)
      have hnoted : Watched { r.state.host with
          replica := (r.state.host.replica.respond m).replica } r.clock.ready :=
        fun htask => (hw htask).imp_left fun hsub => hsub.congr rfl rfl
      simp only [Run.put, note, heq]
      cases hweak : m.weakCommand? with
      | none => exact ⟨hmoved, hnoted.reached hs.weak_eq.1 hreaches (hready _) (hwoken _)⟩
      | some w =>
          have hspawned : h₁.Watched _ := hnoted.reached hs.weak_eq.1 hreaches
            (hready (signals ++ (h₁.spawnWeak w).2))
            fun t hmem => hwoken _ t (List.mem_append_left _ hmem)
          exact ⟨⟨hmoved.tidy, hmoved.commits, hmoved.executions⟩, hspawned.spawn w⟩
  | @look r log hj task ready hready ih =>
      obtain ⟨ha, hw⟩ := ih
      rw [hready] at hw
      have hkept : ∀ t ∈ ready, t ∈ (Clock.grantAll { r.clock with ready := ready }
          (requests (r.state.host.look r.now task).2)).ready :=
        fun _ hmem => Clock.mem_ready_grantAll hmem _
      have hwoken : ∀ t, .request (.wake t) ∈ (r.state.host.look r.now task).2 →
          t ∈ (Clock.grantAll { r.clock with ready := ready }
            (requests (r.state.host.look r.now task).2)).ready :=
        fun _ hmem => Clock.mem_ready_of_wake (mem_requests.2 hmem)
      simp only [Run.put, note]
      have hrest : (∀ number, task ≠ .weak number) → r.state.host.Watched ready := by
        intro hne number task' htask
        exact (hw htask).imp_right fun hmem =>
          (List.mem_cons.1 hmem).resolve_left (hne number).symm
      cases task with
      | slot slot =>
          have hs : Moves _ (fun _ => True) r.state.host _ _ :=
            moves_lookSlot (hj.unnamed hleader).holds slot
          obtain ⟨hmoved, hreaches⟩ := ha.moves hs
          have hslots : r.state.host.Watched ready := hrest (by simp)
          exact ⟨hmoved, hslots.reached hs.weak_eq.1 hreaches hkept hwoken⟩
      | weak number =>
          have hlook := weakLook_lookWeak (fun _ _ => True) (fun _ => True) r.state.host r.now number
            (fun _ _ _ _ => trivial) fun _ => trivial
          exact hw.look ha hlook hkept hwoken
      | flush =>
          have hflush : ∃ batcher, (r.state.host.lookFlush r.now).1 =
              { r.state.host with batcher } := by
            unfold lookFlush
            split <;> exact ⟨_, rfl⟩
          obtain ⟨batcher, hflush⟩ := hflush
          simp only [Host.look, hflush] at hkept ⊢
          exact ⟨⟨ha.tidy, ha.commits, ha.executions⟩,
            fun htask => (hrest (by simp) htask).imp_right (hkept _)⟩
  | pass hj hle ih =>
      exact ⟨ih.1, fun htask => (ih.2 htask).imp_right Clock.mem_ready_moveTo⟩
  | take hj ih => exact ih

end Running

end WitnessReplication.Host
