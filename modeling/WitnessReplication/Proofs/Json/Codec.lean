import WitnessReplication.Command.Json
import WitnessReplication.Proofs.Json.Reading

/-!
# Values that survive being written

`Json.Faithful` ties a way of writing the values of a type to a way of reading them: a value in
range is written without loss and read back as itself, and whatever is read is in range. Both
round trips through text follow (`Faithful.read_write_text`, `Faithful.reread_text`).

The lemmas below carry it from the parts of a value to the value: to bounded integers, strings,
optionals, sequences, choices among names, and the fields of records.
-/

namespace WitnessReplication.Json

variable {α : Type} {toJson : α → Json} {ofJson? : Json → Option α} {InRange : α → Prop} {a : α}

/-- What is in range is written without loss and read back as itself, and what is read is in
range. -/
structure Faithful (toJson : α → Json) (ofJson? : Json → Option α) (InRange : α → Prop) : Prop where
  writable : ∀ {a}, InRange a → (toJson a).Writable
  read_write : ∀ {a}, InRange a → ofJson? (toJson a) = some a
  inRange : ∀ {j a}, ofJson? j = some a → InRange a

/-- The same of a field of a record: it is written as a value, and read unless it is left out. -/
structure FaithfulField (toJson : α → Json) (read : Option Json → Option α) (InRange : α → Prop) :
    Prop where
  writable : ∀ {a}, InRange a → (toJson a).Writable
  read_write : ∀ {a}, InRange a → read (some (toJson a)) = some a
  inRange : ∀ {part a}, read part = some a → InRange a

namespace Faithful

/-- Parsing the written form of a value gives the value back. -/
theorem read_write_text (h : Faithful toJson ofJson? InRange) (ha : InRange a) :
    (read? (toJson a).write).bind ofJson? = some a := by
  rw [(h.writable ha).read?_write, Option.bind_some, h.read_write ha]

/-- What was parsed from any text is parsed again from its written form. -/
theorem reread_text (h : Faithful toJson ofJson? InRange) {text : String}
    (hread : (read? text).bind ofJson? = some a) :
    (read? (toJson a).write).bind ofJson? = some a := by
  obtain ⟨j, -, hj⟩ := Option.bind_eq_some_iff.1 hread
  exact h.read_write_text (h.inRange hj)

end Faithful

section Scalars

theorem faithful_asNat {limit : Nat} (h : limit ≤ UInt64.size) :
    Faithful ofNat (asNat limit) (· < limit) where
  writable ha := .integer false (Nat.lt_of_lt_of_le ha h)
  read_write ha := if_pos ha
  inRange {j a} hj := by
    unfold asNat at hj
    split at hj
    · split at hj
      · exact Option.some.inj hj ▸ ‹_›
      · cases hj
    · cases hj

theorem faithful_asNat32 : Faithful ofNat asNat32 (· < UInt32.size) := faithful_asNat (by decide)

theorem faithful_asNat64 : Faithful ofNat asNat64 (· < UInt64.size) := faithful_asNat (by decide)

/-- An integer that fits in 64 bits with its sign. -/
def InInt64 (i : Int) : Prop := -(UInt64.size / 2 : Nat) ≤ i ∧ i < (UInt64.size / 2 : Nat)

theorem faithful_asInt64 : Faithful ofInt asInt64 InInt64 where
  writable {i} hi := by
    obtain ⟨hlow, hhigh⟩ := hi
    have hsize : UInt64.size = 18446744073709551616 := rfl
    exact .integer _ (by omega)
  read_write {i} hi := by
    obtain ⟨hlow, hhigh⟩ := hi
    have hsize : UInt64.size = 18446744073709551616 := rfl
    by_cases hneg : i < 0
    · simp only [ofInt, hneg, decide_true, asInt64]
      rw [if_pos (by omega)]
      exact congrArg some (by omega)
    · simp only [ofInt, hneg, decide_false, asInt64]
      rw [if_pos (by omega)]
      exact congrArg some (by omega)
  inRange {j i} hj := by
    have hsize : UInt64.size = 18446744073709551616 := rfl
    unfold asInt64 at hj
    unfold InInt64
    split at hj
    · split at hj
      · cases hj; omega
      · cases hj
    · split at hj
      · cases hj; omega
      · cases hj
    · cases hj

theorem faithful_asBool : Faithful .bool asBool fun _ => True where
  writable _ := .bool _
  read_write _ := rfl
  inRange _ := trivial

theorem faithful_asString : Faithful ofString asString fun _ => True where
  writable _ := .text _
  read_write _ := rfl
  inRange _ := trivial

/-- A choice among names, if every choice has a name of its own. -/
theorem faithful_asName {name : α → String} {choices : List α}
    (h : ∀ a, (choices.map fun a => (name a, a)).lookup (name a) = some a) :
    Faithful (fun a => ofString (name a)) (asName (choices.map fun a => (name a, a)))
      fun _ => True where
  writable _ := .text _
  read_write _ := h _
  inRange _ := trivial

end Scalars

namespace Faithful

/-- Optional values, if no value is written like an absent one. -/
theorem option (h : Faithful toJson ofJson? InRange) (hnull : ∀ a, toJson a ≠ .null) :
    Faithful (ofOption toJson) (asOption ofJson?) fun a? => ∀ a ∈ a?, InRange a where
  writable {a?} ha := by
    cases a? with
    | none => exact .null
    | some a => exact h.writable (ha a rfl)
  read_write {a?} ha := by
    cases a? with
    | none => rfl
    | some a =>
      have hread := h.read_write (ha a rfl)
      unfold asOption ofOption
      split
      · exact absurd ‹_› (hnull a)
      · rw [hread, Option.map_some]
  inRange {j a?} hj := by
    unfold asOption at hj
    split at hj
    · cases hj; simp
    · obtain ⟨a, ha, rfl⟩ := Option.map_eq_some_iff.1 hj
      exact fun _ hmem => Option.some.inj hmem ▸ h.inRange ha

/-- Sequences of values. -/
theorem list (h : Faithful toJson ofJson? InRange) :
    Faithful (ofList toJson) (asList ofJson?) fun as => ∀ a ∈ as, InRange a where
  writable ha := .array (List.forall_mem_map.2 fun a hmem => h.writable (ha a hmem))
  read_write {as} ha := by
    change (as.map toJson).mapM ofJson? = some as
    induction as with
    | nil => rfl
    | cons a as ih =>
      rw [List.map_cons, List.mapM_cons, h.read_write (ha a List.mem_cons_self),
        ih fun b hmem => ha b (List.mem_cons_of_mem _ hmem)]
      rfl
  inRange {j as} hj := by
    unfold asList at hj
    split at hj
    · rename_i items
      induction items generalizing as with
      | nil => cases hj; simp
      | cons item items ih =>
        simp only [List.mapM_cons, Option.bind_eq_bind, Option.bind_eq_some_iff, Option.pure_def,
          Option.some.injEq] at hj
        obtain ⟨a, ha, as, has, rfl⟩ := hj
        exact List.forall_mem_cons.2 ⟨h.inRange ha, ih has⟩
    · cases hj

/-- A field that must be there. -/
theorem demand (h : Faithful toJson ofJson? InRange) :
    FaithfulField toJson (Json.demand ofJson?) InRange where
  writable := h.writable
  read_write := h.read_write
  inRange hpart := by
    obtain ⟨j, -, hj⟩ := Option.bind_eq_some_iff.1 hpart
    exact h.inRange hj

/-- A field that may be left out. -/
theorem orElse (h : Faithful toJson ofJson? InRange) {fallback : α} (hfall : InRange fallback) :
    FaithfulField toJson (Json.orElse fallback ofJson?) InRange where
  writable := h.writable
  read_write := h.read_write
  inRange {part a} hpart := by
    cases part with
    | none => exact Option.some.inj hpart ▸ hfall
    | some j => exact h.inRange hpart

/-- A field that is optional. -/
theorem orNone (h : Faithful toJson ofJson? InRange) (hnull : ∀ a, toJson a ≠ .null) :
    FaithfulField (ofOption toJson) (Json.orNone ofJson?) fun a? => ∀ a ∈ a?, InRange a :=
  (h.option hnull).orElse (by simp)

end Faithful

section Records

variable {fields : List Field} {values : List Json}

/-- The fields of a record have names of their own, and no character of a name needs an escape. -/
def WellNamed (fields : List Field) : Prop :=
  (fields.map Field.name).Nodup ∧ ∀ field ∈ fields, isLiteral field.name = true

instance (fields : List Field) : Decidable (WellNamed fields) :=
  inferInstanceAs (Decidable (_ ∧ _))

/-- A record is written without loss if its values are. -/
theorem writable_ofFields (hnames : WellNamed fields) (hvalues : ∀ value ∈ values, value.Writable) :
    (ofFields fields values).Writable := by
  refine .object (List.forall_mem_map.2 fun member hmem => ⟨rfl, member.1, rfl, ?_⟩)
    (List.forall_mem_map.2 fun member hmem => hvalues _ (List.of_mem_zip hmem).2)
  obtain ⟨field, hfield, hname⟩ := List.mem_map.1 (List.of_mem_zip hmem).1
  exact hname ▸ hnames.2 field hfield

/-- A tagged value is written without loss if its body is and its tag needs no escape. -/
theorem writable_tagged {tag : String} {body : Json} (htag : isLiteral tag = true)
    (hbody : body.Writable) : (ofMembers [(tag, body)]).Writable :=
  .object (List.forall_mem_singleton.2 ⟨rfl, tag, rfl, htag⟩) (List.forall_mem_singleton.2 hbody)

/-- A field that an object names once has the value that the object gives it. -/
theorem memberOf_ofMembers {members : List (String × Json)} (hnames : (members.map Prod.fst).Nodup)
    {field : Field} {value : Json} (hmem : (field.name, value) ∈ members) :
    memberOf (members.map fun member => (⟨some member.1, true⟩, member.2)) field =
      some (some value) := by
  have honly : ((members.map fun member => ((⟨some member.1, true⟩ : Name), member.2)).filter
      fun member => member.1.text = some field.name) = [(⟨some field.name, true⟩, value)] := by
    induction members with
    | nil => simp at hmem
    | cons member members ih =>
      obtain ⟨hfresh, hnodup⟩ := List.nodup_cons.1 hnames
      rcases List.mem_cons.1 hmem with rfl | htail
      · have hnone : ∀ member ∈ members, member.1 ≠ field.name := by
          exact fun member hmem heq => hfresh (List.mem_map.2 ⟨member, hmem, heq⟩)
        simpa [List.filter_map, Function.comp_def] using hnone
      · have hother : member.1 ≠ field.name :=
          fun heq => hfresh (heq ▸ List.mem_map_of_mem htail)
        simpa [hother] using ih hnodup htail
  rw [memberOf, honly]

/-- A reading that finds each of some values finds them all. -/
theorem mapM_of_zip (hlength : fields.length = values.length) {read : Field → Option (Option Json)}
    (hread : ∀ entry ∈ fields.zip values, read entry.1 = some (some entry.2)) :
    fields.mapM read = some (values.map some) := by
  induction fields generalizing values with
  | nil =>
    obtain rfl := List.eq_nil_of_length_eq_zero hlength.symm
    rfl
  | cons field fields ih =>
    cases values with
    | nil => simp at hlength
    | cons value values =>
      have hfirst : read field = some (some value) := hread (field, value) List.mem_cons_self
      rw [List.mapM_cons, hfirst, ih (Nat.succ.inj hlength) fun entry hmem =>
        hread entry (List.mem_cons_of_mem _ hmem)]
      rfl

/-- A written record has the values that it was written with. -/
theorem fieldsOf_ofFields (hnames : WellNamed fields) (hlength : fields.length = values.length) :
    fieldsOf fields (ofFields fields values) = some (values.map some) := by
  have hfst : ((fields.map Field.name).zip values).map Prod.fst = fields.map Field.name :=
    List.map_fst_zip (by simp [hlength])
  have hmembers : ∀ entry ∈ fields.zip values,
      memberOf (((fields.map Field.name).zip values).map fun member =>
        (⟨some member.1, true⟩, member.2)) entry.1 = some (some entry.2) := by
    intro entry hmem
    refine memberOf_ofMembers (by rw [hfst]; exact hnames.1) ?_
    rw [List.zip_map_left]
    exact List.mem_map.2 ⟨entry, hmem, rfl⟩
  simp only [ofFields, ofMembers, fieldsOf]
  rw [if_pos (by simp), mapM_of_zip hlength hmembers]

/-- What is read of a written record is read of its values. -/
theorem asRecord_ofFields (hnames : WellNamed fields) (hlength : fields.length = values.length)
    (read : List (Option Json) → Option α) :
    asRecord fields read (ofFields fields values) = read (values.map some) := by
  rw [asRecord, fieldsOf_ofFields hnames hlength, Option.bind_some]

/-- What is read of a record is read of some fields. -/
theorem exists_of_asRecord {read : List (Option Json) → Option α} {j : Json}
    (h : asRecord fields read j = some a) : ∃ parts, read parts = some a := by
  obtain ⟨parts, -, hparts⟩ := Option.bind_eq_some_iff.1 h
  exact ⟨parts, hparts⟩

/-- A record, if its values are written without loss and its fields read back as what they are
values of. -/
theorem Faithful.record {values : α → List Json} {read : List (Option Json) → Option α}
    (hnames : WellNamed fields) (hlength : ∀ a, fields.length = (values a).length)
    (hvalues : ∀ {a}, InRange a → ∀ value ∈ values a, value.Writable)
    (hread : ∀ {a}, InRange a → read ((values a).map some) = some a)
    (hrange : ∀ {parts a}, read parts = some a → InRange a) :
    Faithful (fun a => ofFields fields (values a)) (asRecord fields read) InRange where
  writable ha := writable_ofFields hnames (hvalues ha)
  read_write {a} ha := (asRecord_ofFields hnames (hlength a) read).trans (hread ha)
  inRange hj := by
    obtain ⟨parts, hparts⟩ := exists_of_asRecord hj
    exact hrange hparts

end Records

end WitnessReplication.Json
