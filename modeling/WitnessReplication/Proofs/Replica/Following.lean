import WitnessReplication.Proofs.Replica.Effects
import WitnessReplication.Proofs.Replica.Records

/-!
# Following the log

A replica follows a log if its store replays the executed part of it, every slot under way holds
the request that the log has there, and every remembered result is what the log gives.

Every change that takes only fitting events keeps a replica following and sends only what is
backed (`Serving`), so that the same holds of whole routes and of planned steps.
-/

namespace WitnessReplication.Replica

/-- The record of a slot agrees with the log. -/
def LiveSlot.Fits (log : Log) (slot : Slot) (s : LiveSlot) : Prop :=
  ∀ id c, s.id = some id → s.command = some c → log.request? slot = some ⟨id, c, s.weak⟩

/-- A replica's state is what executing a part of the log leads to. -/
structure Follows (log : Log) (r : Replica) : Prop where
  executed_le : r.executed ≤ log.length
  store_eq : r.store = log.storeAt r.executed
  executed_le_live : ∀ {slot : Slot} {s : LiveSlot}, r.live[slot]? = some s → r.executed ≤ slot
  live_fits : ∀ {slot : Slot} {s : LiveSlot}, r.live[slot]? = some s → s.Fits log slot
  values_result : ∀ {id value}, r.value? id = some value → log.Results r.executed id value

variable {log log' : Log} {r r' : Replica} {effects : List Effect}

theorem LiveSlot.Fits.mono {slot : Slot} {s : LiveSlot} (h : s.Fits log slot)
    (hlog : log <+: log') : s.Fits log' slot :=
  fun id c hid hc => Log.request?_mono hlog (h id c hid hc)

theorem LiveSlot.fits_empty (slot : Slot) : ({} : LiveSlot).Fits log slot := by
  intro id c hid
  simp at hid

/-- A replica that follows a log follows every longer one. -/
theorem Follows.mono (h : r.Follows log) (hlog : log <+: log') : r.Follows log' where
  executed_le := Nat.le_trans h.executed_le hlog.length_le
  store_eq := by rw [h.store_eq, Log.storeAt_mono hlog h.executed_le]
  executed_le_live := h.executed_le_live
  live_fits hs := (h.live_fits hs).mono hlog
  values_result hv := (h.values_result hv).mono hlog (Nat.le_refl _)

/-- A replica without messages follows every log. -/
theorem follows_initial (id : ReplicaId) (config : Config) (log : Log) :
    (initial id config).Follows log where
  executed_le := Nat.zero_le _
  store_eq := rfl
  executed_le_live hs := by simp [initial] at hs
  live_fits hs := by simp [initial] at hs
  values_result hv := by simp [initial, value?] at hv

/-- Following depends on the store, the slots under way, the progress and the results only. -/
theorem Follows.congr (h : r.Follows log) (hexec : r'.executed = r.executed)
    (hstore : r'.store = r.store) (hlive : r'.live = r.live) (hvalues : r'.values = r.values) :
    r'.Follows log where
  executed_le := hexec ▸ h.executed_le
  store_eq := by rw [hstore, hexec, h.store_eq]
  executed_le_live hs := by rw [hexec]; exact h.executed_le_live (hlive ▸ hs)
  live_fits hs := h.live_fits (hlive ▸ hs)
  values_result hv := by
    rw [hexec]
    exact h.values_result (by rwa [value?, ← hvalues])

/-! ### What one change keeps -/

/-- A replica that follows a log and was `base` at first, with what it has sent since: all of it
is backed however far the leader has executed, which is no less far than the replica itself if
that leads. -/
structure Serving (config : Config) (leads : Bool) (log : Log) (base r : Replica)
    (sent : List Effect) : Prop where
  follows : r.Follows log
  id_eq : r.id = base.id
  le_executed : base.executed ≤ r.executed
  config_eq : r.config = config
  leads_eq : r.isLeader = leads
  backed : ∀ e ∈ sent, ∀ bound, (leads = true → r.executed ≤ bound) →
    e.Backed config log bound leads

variable {config : Config} {leads : Bool} {base : Replica} {slot : Slot}
variable {s s' : LiveSlot} {event : Event}

theorem LiveSlot.Fits.congr (h : s.Fits log slot) (hid : s'.id = s.id)
    (hcommand : s'.command = s.command) (hweak : s'.weak = s.weak) : s'.Fits log slot := by
  intro id c hid' hc'
  rw [hweak]
  exact h id c (hid ▸ hid') (hcommand ▸ hc')

/-- Taking a fitting event leaves the record of a slot fitting. -/
theorem fits_apply (hs : s.Fits log slot) (he : event.Fits log r.isLeader slot) :
    (r.apply slot s event).2.1.Fits log slot := by
  obtain ⟨_, _, hrecord⟩ := r.record_apply slot s event
  rw [hrecord]
  cases event with
  | propose p =>
      intro id c hid hc
      obtain rfl : p.id = id := Option.some.inj hid
      obtain rfl : p.command = c := Option.some.inj hc
      exact he
  | accept m =>
      obtain ⟨-, c, hc, hq⟩ := he
      simp only [LiveSlot.told]
      split
      · exact hs
      · intro id c' hid hc'
        obtain rfl : m.id = id := Option.some.inj hid
        obtain rfl : c = c' := by simpa [hc] using hc'
        exact hq
  | _ => exact hs

/-- What a fitting event makes a replica send is backed. -/
theorem backed_apply (hconfig : r.config = config) (hleads : r.isLeader = leads)
    (he : event.Fits log leads slot) (bound : Slot) :
    ∀ e ∈ (r.apply slot s event).2.2, e.Backed config log bound leads := by
  intro e hmem
  rcases effects_apply hmem with rfl | ⟨body, rfl⟩ | ⟨m, rfl, ⟨body, rfl⟩ | ⟨id, rfl⟩⟩
  · trivial
  · exact ⟨body, rfl⟩
  · trivial
  · have hother : r.config.leader ≠ r.id := by
      simpa [isLeader, Config.isLeader] using hleads.trans he.1
    exact fun h => hother (by rw [hconfig]; exact h.symm)

theorem isLeader_congr (hid : r'.id = r.id) (hconfig : r'.config = r.config) :
    r'.isLeader = r.isLeader := by
  rw [isLeader, isLeader, hid, hconfig]

theorem config_leader_of_isLeader (h : r.isLeader = true) : r.id = r.config.leader := by
  have hid : r.config.leader = r.id := by simpa [isLeader, Config.isLeader] using h
  exact hid.symm

/-- A result of the log is a backed answer. -/
theorem backed_answers {id : CommandId} {value : Value} {waiting : Bool} {bound : Slot}
    (hconfig : r.config = config) (hv : r.isLeader = true → log.Results bound id value) :
    ∀ e ∈ r.answers s id value waiting, e.Backed config log bound leads := by
  intro e he
  obtain ⟨hleader, rfl | ⟨causal, rfl⟩⟩ := mem_answers he
  · exact ⟨by rw [← hconfig]; exact config_leader_of_isLeader hleader, hv hleader⟩
  · cases causal with
    | true => exact fun _ => hv hleader
    | false => exact fun _ => hv hleader

theorem LiveSlot.executable?_eq_some {id : CommandId} {c : Command}
    (h : s.executable? = some (id, c)) :
    s.applied = false ∧ s.phase = .commit ∧ s.id = some id ∧ s.command = some c := by
  unfold executable? at h
  split at h
  · simp at h
  · rename_i hready
    split at h
    · simp_all
    · simp at h

theorem Follows.putSlot (h : r.Follows log) (hexec : r.executed ≤ slot) (hs : s.Fits log slot) :
    (r.putSlot slot s).Follows log where
  executed_le := h.executed_le
  store_eq := h.store_eq
  executed_le_live := by
    intro other s' hs'
    rw [live_putSlot, Std.ExtTreeMap.getElem?_insert] at hs'
    split at hs'
    · rename_i heq
      rwa [← Std.LawfulEqOrd.eq_of_compare heq]
    · exact h.executed_le_live hs'
  live_fits := by
    intro other s' hs'
    rw [live_putSlot, Std.ExtTreeMap.getElem?_insert] at hs'
    split at hs'
    · rename_i heq
      obtain rfl : s = s' := Option.some.inj hs'
      rwa [← Std.LawfulEqOrd.eq_of_compare heq]
    · exact h.live_fits hs'
  values_result := h.values_result

/-- A slot under way that may execute is the next one to execute. -/
theorem Follows.eq_executed (h : r.Follows log) (hs : r.live[slot]? = some s)
    (hturn : slot ≤ r.executed) : slot = r.executed :=
  Nat.le_antisymm hturn (h.executed_le_live hs)

/-- Executing the next slot replays one more slot of the log. -/
theorem Follows.execute {id : CommandId} {c : Command} (h : r.Follows log)
    (hs : r.live[slot]? = some s) (hx : s.executable? = some (id, c))
    (hturn : slot ≤ r.executed) : ((r.execute slot s id c).1.dropSlot slot).Follows log := by
  obtain ⟨-, -, hid, hc⟩ := LiveSlot.executable?_eq_some hx
  have hslot := h.eq_executed hs hturn
  have hq := h.live_fits hs id c hid hc
  have hbefore : log.storeAt slot = r.store := by rw [hslot, h.store_eq]
  obtain ⟨_, _, _, _, _, -, hframe⟩ := r.execute_frame id c slot s
  rw [hframe]
  -- what is left under way was so before, at a later slot
  have hlive : ∀ {other : Slot} {s' : LiveSlot},
      ((r.live.insert slot { s with applied := true }).erase slot)[other]? = some s' →
        r.live[other]? = some s' ∧ slot ≠ other := by
    intro other s' hs'
    rw [Std.ExtTreeMap.getElem?_erase, Std.ExtTreeMap.getElem?_insert] at hs'
    split at hs'
    · simp at hs'
    · rename_i hne
      exact ⟨hs', fun heq => hne (Std.compare_eq_iff_eq.2 heq)⟩
  constructor
  case executed_le => exact Log.lt_length_of_request? hq
  case store_eq =>
    change (r.store.execute c).1 = log.storeAt (slot + 1)
    rw [Log.storeAt_succ hq, hbefore]
  case executed_le_live =>
    intro other s' hs'
    obtain ⟨hs', hne⟩ := hlive hs'
    have hle := h.executed_le_live hs'
    exact Nat.lt_of_le_of_ne (hslot ▸ hle) hne
  case live_fits => exact fun hs' => h.live_fits (hlive hs').1
  case values_result =>
    intro id' value hvalue
    have hinsert : (r.values.insert id (r.store.execute c).2)[id']? = some value := hvalue
    rw [Std.ExtTreeMap.getElem?_insert] at hinsert
    split at hinsert
    · rename_i heq
      obtain rfl := Std.LawfulEqOrd.eq_of_compare heq
      refine ⟨slot, _, hq, rfl, Nat.lt_succ_self slot, ?_⟩
      rw [← Option.some.inj hinsert, hbefore]
    · exact (h.values_result hinsert).mono List.prefix_rfl (by rw [← hslot]; exact Nat.le_succ slot)

theorem Serving.extend {sent effects : List Effect} (h : Serving config leads log base r sent)
    (hfollows : r'.Follows log) (hid : r'.id = r.id) (hconfig : r'.config = r.config)
    (hexec : r.executed ≤ r'.executed)
    (hnew : ∀ e ∈ effects, ∀ bound, (leads = true → r'.executed ≤ bound) →
      e.Backed config log bound leads) : Serving config leads log base r' (sent ++ effects) where
  follows := hfollows
  id_eq := hid.trans h.id_eq
  le_executed := Nat.le_trans h.le_executed hexec
  config_eq := hconfig.trans h.config_eq
  leads_eq := (isLeader_congr hid hconfig).trans h.leads_eq
  backed := by
    intro e he bound hbound
    rcases List.mem_append.1 he with he | he
    · exact h.backed e he bound fun hleads => Nat.le_trans hexec (hbound hleads)
    · exact hnew e he bound hbound

/-- Every change with fitting events keeps a replica following and sends only what is backed. -/
theorem Change.serving {sent effects : List Effect} (h : Serving config leads log base r sent)
    (hc : Change (fun slot event => event.Fits log leads slot) r effects r') :
    Serving config leads log base r' (sent ++ effects) := by
  cases hc with
  | opened hlive hexec =>
      refine h.extend (h.follows.putSlot hexec (LiveSlot.fits_empty _)) rfl rfl (Nat.le_refl _) ?_
      intro e he bound _
      obtain rfl := List.mem_singleton.1 he
      trivial
  | @took slot s event hs happlied hstale hfit =>
      obtain ⟨committed, ordered, hframe⟩ := r.apply_frame slot s event
      have hfollows : (r.apply slot s event).1.Follows log := by
        rw [hframe]
        exact h.follows.congr rfl rfl rfl rfl
      have hslot := fits_apply (h.follows.live_fits hs) (h.leads_eq.symm ▸ hfit)
      have hexec := executed_apply r slot s event
      refine h.extend (hfollows.putSlot ?_ hslot) ?_ ?_ ?_ ?_
      · exact hexec ▸ h.follows.executed_le_live hs
      · exact id_apply r slot s event
      · exact config_apply r slot s event
      · exact Nat.le_of_eq hexec.symm
      · exact fun e he bound _ => backed_apply h.config_eq h.leads_eq hfit bound e he
  | awaited hs hexec =>
      refine h.extend (h.follows.putSlot hexec ?_) rfl rfl (Nat.le_refl _) (by simp)
      exact (h.follows.live_fits hs).congr rfl rfl rfl
  | @executed slot s id c hs hx hturn =>
      have hslot := h.follows.eq_executed hs hturn
      have hfollows := h.follows.execute hs hx hturn
      have hconfig := config_execute r id c slot s
      refine h.extend hfollows (id_execute r id c slot s) hconfig ?_ ?_
      · exact hslot ▸ Nat.le_succ slot
      · intro e he bound hbound
        have hv : (r.execute slot s id c).1.isLeader = true →
            log.Results bound id (r.store.execute c).2 := by
          intro hleader
          obtain ⟨-, -, hid, hcommand⟩ := LiveSlot.executable?_eq_some hx
          have hleads := (isLeader_congr (id_execute r id c slot s) hconfig).symm.trans hleader
          refine ⟨slot, _, h.follows.live_fits hs id c hid hcommand, rfl, ?_, ?_⟩
          · exact hbound (h.leads_eq.symm.trans hleads)
          · rw [hslot, ← h.follows.store_eq]
        rcases effects_execute he with rfl | rfl | he
        · trivial
        · trivial
        · exact backed_answers (hconfig.trans h.config_eq) hv e he

end WitnessReplication.Replica
