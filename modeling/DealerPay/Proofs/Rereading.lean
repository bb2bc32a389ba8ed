import DealerPay.Plan.Draft
import DealerPay.Proofs.RoundTrip
import DealerPay.Proofs.Valid

/-!
# Rules field by field

A rule is read field by field, each field by itself, and what was read of a field is read of it
again once it is written down.

* `Fields.get?_overlay_of_mem` and `Fields.get?_overlay_of_not_mem`: fields put over others replace
  those of their names and leave the rest alone.
* `RecordField` is a field of a record, with the way it is read and written down;
  `Rule.recordFields` lists those of the rules of a kind.
* `Rule.ofFields_congr`: what a rule is read as, and whether it can be read, is a matter of what its
  fields are read as.
* `Rule.found_of_ofFields`: of a rule that was read each field is written down as it was read.
* `Rule.ofFields_overlay`: fields put over those of a rule that was read are read as if they had
  been put over what the rule was read from.
* `Rule.exists_ofFields_of_overlay` and `Rule.exists_ofFields_overlay`: such fields spell a rule
  exactly if they spell one alone.
* `Rule.get?_toFields_congr` and `Rule.eq_of_get?_toFields`: a rule that was read is told by its
  fields, and each of them by what it was read from.
-/

namespace DealerPay

/-! ## Fields put over others -/

namespace Fields

variable {fs gs changes : Fields} {key : String}

/-- The names of fields. -/
def names (fs : Fields) : List String := fs.map Prod.fst

/-- There is no field of a name that none has. -/
theorem get?_of_not_mem (h : key ∉ fs.names) : fs.get? key = none := by
  induction fs with
  | nil => rfl
  | cons f rest ih =>
    obtain ⟨hf, hrest⟩ := not_or.1 (mt List.mem_cons.2 h)
    exact (if_neg (Ne.symm hf)).trans (ih hrest)

/-- A field that is not among those put over is left alone. -/
theorem get?_overlay_of_not_mem (h : key ∉ changes.names) :
    (fs.overlay changes).get? key = fs.get? key := by
  induction changes generalizing fs with
  | nil => rfl
  | cons c rest ih =>
    obtain ⟨hc, hrest⟩ := not_or.1 (mt List.mem_cons.2 h)
    show ((fs.put c.1 c.2).overlay rest).get? key = _
    rw [ih hrest, get?_put_other fs c.2 hc]

/-- A field that is put over others has its value whatever they are. -/
theorem get?_overlay_of_mem (h : key ∈ changes.names) :
    (fs.overlay changes).get? key = (gs.overlay changes).get? key := by
  induction changes generalizing fs gs with
  | nil => cases h
  | cons c rest ih =>
    show ((fs.put c.1 c.2).overlay rest).get? key = ((gs.put c.1 c.2).overlay rest).get? key
    by_cases hrest : key ∈ names rest
    · exact ih hrest
    · have hkey : key = c.1 := (List.mem_cons.1 h).resolve_right hrest
      rw [get?_overlay_of_not_mem hrest, get?_overlay_of_not_mem hrest, hkey, get?_put_same,
        get?_put_same]

/-- Setting a field adds its name. -/
theorem mem_names_put {value : Value} {other : String} :
    other ∈ (fs.put key value).names ↔ other ∈ fs.names ∨ other = key := by
  induction fs with
  | nil => simp [put, names]
  | cons f rest ih =>
    rw [put]
    split
    · next hf => simp [names, hf, or_comm]
    · simp only [names, List.map_cons, List.mem_cons] at ih ⊢
      rw [ih, or_assoc]

/-- Names stay distinct where a field is set. -/
theorem nodup_names_put {value : Value} (h : fs.names.Nodup) : (fs.put key value).names.Nodup := by
  induction fs with
  | nil => exact List.nodup_singleton key
  | cons f rest ih =>
    obtain ⟨hf, hrest⟩ := List.nodup_cons.1 h
    rw [put]
    split
    · exact h
    · next hne =>
      refine List.nodup_cons.2 ⟨fun hmem => ?_, ih hrest⟩
      exact (mem_names_put.1 hmem).elim hf hne

/-- Names stay distinct where fields are put over others. -/
theorem nodup_names_overlay (h : fs.names.Nodup) : (fs.overlay changes).names.Nodup := by
  induction changes generalizing fs with
  | nil => exact h
  | cons c rest ih => exact ih (nodup_names_put h)

/-- The names of fields put over others are the names of both. -/
theorem mem_names_overlay :
    key ∈ (fs.overlay changes).names ↔ key ∈ fs.names ∨ key ∈ changes.names := by
  induction changes generalizing fs with
  | nil => simp [overlay, names]
  | cons c rest ih =>
    show key ∈ ((fs.put c.1 c.2).overlay rest).names ↔ _
    rw [ih, mem_names_put, or_assoc]
    show _ ↔ key ∈ fs.names ∨ key ∈ c.1 :: names rest
    rw [List.mem_cons]

/-- Of fields with distinct names each is put over others with its value. -/
theorem get?_overlay_of_nodup (h : changes.names.Nodup) (hkey : key ∈ changes.names) :
    (fs.overlay changes).get? key = changes.get? key := by
  induction changes generalizing fs with
  | nil => cases hkey
  | cons c rest ih =>
    obtain ⟨hc, hrest⟩ := List.nodup_cons.1 h
    show ((fs.put c.1 c.2).overlay rest).get? key = if c.1 = key then some c.2 else get? rest key
    by_cases heq : c.1 = key
    · rw [if_pos heq, get?_overlay_of_not_mem (heq ▸ hc), heq, get?_put_same]
    · rw [if_neg heq]
      exact ih hrest ((List.mem_cons.1 hkey).resolve_left (Ne.symm heq))

/-- Fields put over others one after the other are put over them at once, the later over the
earlier. -/
theorem get?_overlay_overlay {more : Fields} (h : changes.names.Nodup) :
    (fs.overlay (changes.overlay more)).get? key =
      ((fs.overlay changes).overlay more).get? key := by
  have hnodup : (changes.overlay more).names.Nodup := nodup_names_overlay h
  by_cases hmore : key ∈ more.names
  · rw [get?_overlay_of_nodup hnodup (mem_names_overlay.2 (.inr hmore))]
    exact get?_overlay_of_mem hmore
  · rw [get?_overlay_of_not_mem hmore]
    by_cases hchanges : key ∈ changes.names
    · rw [get?_overlay_of_nodup hnodup (mem_names_overlay.2 (.inl hchanges)),
        get?_overlay_of_not_mem hmore, get?_overlay_of_nodup h hchanges]
    · have hnone : key ∉ (changes.overlay more).names := fun hmem =>
        (mem_names_overlay.1 hmem).elim hchanges hmore
      rw [get?_overlay_of_not_mem hnone, get?_overlay_of_not_mem hchanges]

/-- Fields of different names are put over others in either order. -/
theorem get?_overlay_comm {more : Fields} (h : changes.names.Disjoint more.names) :
    ((fs.overlay changes).overlay more).get? key =
      ((fs.overlay more).overlay changes).get? key := by
  by_cases hmore : key ∈ more.names
  · have hkept : ((fs.overlay more).overlay changes).get? key = (fs.overlay more).get? key :=
      get?_overlay_of_not_mem fun hchanges => h hchanges hmore
    exact (get?_overlay_of_mem hmore).trans hkept.symm
  · rw [get?_overlay_of_not_mem hmore]
    by_cases hchanges : key ∈ changes.names
    · exact get?_overlay_of_mem hchanges
    · rw [get?_overlay_of_not_mem hchanges, get?_overlay_of_not_mem hchanges,
        get?_overlay_of_not_mem hmore]

/-- Fields that are left out are those of names that are left out. -/
theorem get?_overlay_filter (keep : String → Bool) (hkey : keep key = true) :
    (fs.overlay (changes.filter fun c => keep c.1)).get? key = (fs.overlay changes).get? key := by
  induction changes generalizing fs with
  | nil => rfl
  | cons c rest ih =>
    by_cases hc : keep c.1 = true
    · rw [List.filter_cons, if_pos hc]
      exact ih
    · have hne : key ≠ c.1 := fun heq => hc (heq ▸ hkey)
      rw [List.filter_cons, if_neg hc, ih]
      show (fs.overlay rest).get? key = ((fs.put c.1 c.2).overlay rest).get? key
      by_cases hrest : key ∈ names rest
      · exact get?_overlay_of_mem hrest
      · rw [get?_overlay_of_not_mem hrest, get?_overlay_of_not_mem hrest,
          get?_put_other fs c.2 hne]

end Fields

namespace Reading

variable {α β : Type} {x : Reading α}

/-- A changed result is there exactly if the result is. -/
theorem exists_map_iff {f : α → β} : (∃ b, f <$> x = accepted b) ↔ ∃ a, x = accepted a := by
  simp only [map_eq_accepted_iff]
  exact ⟨fun ⟨_, a, h, _⟩ => ⟨a, h⟩, fun ⟨a, h⟩ => ⟨_, a, h, rfl⟩⟩

/-- Two readings have a result together exactly if each has one. -/
theorem exists_seq_iff {f : Reading (α → β)} :
    (∃ b, f <*> x = accepted b) ↔ (∃ g, f = accepted g) ∧ ∃ a, x = accepted a := by
  simp only [seq_eq_accepted_iff]
  exact ⟨fun ⟨_, g, a, hg, ha, _⟩ => ⟨⟨g, hg⟩, a, ha⟩,
    fun ⟨⟨g, hg⟩, a, ha⟩ => ⟨_, g, a, hg, ha, rfl⟩⟩

end Reading

/-! ## Values that were read -/

namespace Value

/-- An amount is read as itself. -/
theorem readAmount_ofDecimal {d : Decimal} (h : d.IsAmount) :
    (ofDecimal d).readAmount = .accepted d :=
  Reading.ofAmount_eq_accepted_iff.2 (Amount.ofValue_ofDecimal h)

/-- An amount that may be absent is read as itself. -/
theorem readOptionalAmount_ofDecimal? {o : Option Decimal} (h : ∀ d ∈ o, d.IsAmount) :
    (ofDecimal? o).readOptionalAmount = .accepted o := by
  apply Reading.ofAmount_eq_accepted_iff.2
  cases o with
  | none => rfl
  | some d =>
    show (Amount.ofValue (.ofDecimal d)).map some = _
    rw [Amount.ofValue_ofDecimal (h d rfl)]
    rfl

/-- A list of items that were read is read as itself, if each item is. -/
theorem readItems_map {α : Type} {refusal : Refusal} {read : Value → Reading α}
    {write : α → Value} (hread : ∀ v x, read v = .accepted x → read (write x) = .accepted x)
    {v : Value} {xs : List α} (h : readItems refusal read v = .accepted xs) :
    readItems refusal read (.list (xs.map write)) = .accepted xs :=
  readEach_map (ensures_readItems (fun _ _ x _ => hread x) xs h) 0

end Value

/-- A tier of amounts is read as itself. -/
theorem Tier.ofValue_toValue (source : Source) (kind : TierKind) {t : Tier}
    (h : ∀ x ∈ t.figures, x.IsAmount) : ofValue source kind (t.toValue kind) = .accepted t := by
  simp only [figures, List.forall_mem_cons, Option.mem_toList] at h
  obtain ⟨hlower, hrate, hstated⟩ := h
  show ofFields kind _ = _
  cases kind <;>
    simp [ofFields, Fields.renamed, Fields.optional, Fields.get?, TierKind.rateKey,
      Reading.within_eq_accepted_iff.2 (Value.readAmount_ofDecimal hlower),
      Reading.within_eq_accepted_iff.2 (Value.readAmount_ofDecimal hrate),
      Reading.within_eq_accepted_iff.2 (Value.readOptionalAmount_ofDecimal? hstated)]

/-- A threshold of amounts is read as itself. -/
theorem Threshold.ofValue_toValue (source : Source) {t : Threshold}
    (h : ∀ x ∈ t.figures, x.IsAmount) : ofValue source t.toValue = .accepted t := by
  simp only [figures, List.forall_mem_cons] at h
  obtain ⟨hlower, hamount, -⟩ := h
  show ofFields _ = _
  simp [ofFields, Fields.renamed, Fields.optional, Fields.get?,
    Reading.within_eq_accepted_iff.2 (Value.readAmount_ofDecimal hlower),
    Reading.within_eq_accepted_iff.2 (Value.readAmount_ofDecimal hamount)]

/-! ## Fields of records -/

/-- A field of a record, with the way its value is read and written down. -/
structure RecordField where
  /-- What the value is read as. -/
  Meaning : Type
  /-- The name of the field. -/
  key : String
  /-- What a record has that leaves the field out. -/
  default : Meaning
  /-- How a value is read. -/
  read : Value → Reading Meaning
  /-- How what was read is written down. -/
  write : Meaning → Value
  /-- The default is read as itself once it is written down. -/
  read_default : read (write default) = .accepted default
  /-- So is whatever was read. -/
  read_write : ∀ {v a}, read v = .accepted a → read (write a) = .accepted a

namespace RecordField

variable {f : RecordField} {fs gs : Fields} {a : f.Meaning}

/-- What a record has in the field. -/
def found (f : RecordField) (fs : Fields) : Reading f.Meaning := fs.optional f.key f.default f.read

/-- What a record has in a field depends on nothing else. -/
theorem found_congr (h : gs.get? f.key = fs.get? f.key) : f.found gs = f.found fs := by
  unfold found Fields.optional
  rw [h]

/-- A record has the default in a field that it leaves out. -/
theorem found_of_not_mem (h : f.key ∉ fs.names) : f.found fs = .accepted f.default := by
  unfold found Fields.optional
  rw [Fields.get?_of_not_mem h]

/-- What was found in a field is found in it where it is written down. -/
theorem found_written (h : f.found fs = .accepted a) (hgs : gs.get? f.key = some (f.write a)) :
    f.found gs = .accepted a := by
  have hread : f.read (f.write a) = .accepted a := by
    unfold found Fields.optional at h
    split at h
    · exact f.read_write (Reading.within_eq_accepted_iff.1 h)
    · cases h
      exact f.read_default
  unfold found Fields.optional
  rw [hgs]
  exact Reading.within_eq_accepted_iff.2 hread

/-- The label of a rule. -/
def label : RecordField where
  Meaning := String
  key := "label"
  default := ""
  read := Value.readText
  write := .text
  read_default := rfl
  read_write _ := rfl

/-- The kind of a rule. -/
def kind (k : RuleKind) : RecordField where
  Meaning := Unit
  key := Rule.kindKey
  default := ()
  read := Value.readWord [(k.text, ())]
  write _ := .text k.text
  read_default := Rule.readWord_kind k
  read_write _ := Rule.readWord_kind k

/-- The scope of a rule. -/
def scope : RecordField where
  Meaning := Scope
  key := "scope"
  default := .all
  read := Value.readWord Scope.words
  write s := .text s.text
  read_default := rfl
  read_write {_ s} _ := s.readWord_dumped

/-- The gross that a percentage is taken of. -/
def basis : RecordField where
  Meaning := GrossBasis
  key := "gross_basis"
  default := .total
  read := Value.readWord GrossBasis.words
  write g := .text g.text
  read_default := rfl
  read_write {_ g} _ := g.readWord_dumped

/-- A choice between two ways. -/
def flag (key : String) : RecordField where
  Meaning := Bool
  key := key
  default := false
  read := Value.readBool
  write := .bool
  read_default := rfl
  read_write _ := rfl

/-- An amount. -/
def amount (key : String) : RecordField where
  Meaning := Decimal
  key := key
  default := Decimal.zero
  read := Value.readAmount
  write := Value.ofDecimal
  read_default := Value.readAmount_ofDecimal Decimal.isAmount_zero
  read_write h :=
    Value.readAmount_ofDecimal (Value.ensures_readAmount Amount.keeps_isAmount trivial _ h)

/-- An amount that may be absent. -/
def cap (key : String) : RecordField where
  Meaning := Option Decimal
  key := key
  default := none
  read := Value.readOptionalAmount
  write := Value.ofDecimal?
  read_default := rfl
  read_write h := Value.readOptionalAmount_ofDecimal?
    (Value.ensures_readOptionalAmount Amount.keeps_isAmount trivial _ h)

/-- The tiers of a rule. -/
def tiers (source : Source) (k : TierKind) : RecordField where
  Meaning := List Tier
  key := "tiers"
  default := []
  read := Value.readItems .notSequence (Tier.ofValue source k)
  write ts := .list (ts.map (Tier.toValue k))
  read_default := rfl
  read_write := Value.readItems_map fun _ t ht => Tier.ofValue_toValue source k
    (Tier.ensures_ofValue Amount.keeps_isAmount source k trivial t ht)

/-- The thresholds of a rule. -/
def thresholds (source : Source) : RecordField where
  Meaning := List Threshold
  key := "thresholds"
  default := []
  read := Value.readItems .notSequence (Threshold.ofValue source)
  write ts := .list (ts.map Threshold.toValue)
  read_default := rfl
  read_write := Value.readItems_map fun _ t ht => Threshold.ofValue_toValue source
    (Threshold.ensures_ofValue Amount.keeps_isAmount source trivial t ht)

end RecordField

/-! ## Rules -/

namespace Rule

variable {source : Source} {kind : RuleKind} {fs gs changes : Fields} {key : String} {r r' : Rule}

/-- The fields of the rules of a kind. -/
def recordFields (source : Source) (k : RuleKind) : List RecordField :=
  .label :: .kind k ::
    match k with
    | .base => [.amount "amount", .flag "is_draw"]
    | .flatRate => [.scope, .amount "amount_per_unit"]
    | .unitTiers => [.scope, .tiers source .unit, .flag "retroactive"]
    | .grossShare =>
      [.amount "front_percent", .amount "back_percent", .cap "front_cap", .cap "back_cap"]
    | .grossTiers => [.scope, .tiers source .gross, .flag "retroactive", .basis]
    | .volumeBonus => [.scope, .thresholds source]
    | .addOn =>
      [.scope, .amount "accessory_percent", .amount "spiff_percent", .amount "trade_spiff_percent"]
    | .guarantee => [.amount "amount_per_unit"]

@[simp] theorem found_label : RecordField.label.found fs = readLabel fs := rfl

@[simp] theorem found_kind : (RecordField.kind kind).found fs = readKind kind fs := rfl

@[simp] theorem found_scope : RecordField.scope.found fs = readScope fs := rfl

@[simp] theorem found_basis :
    RecordField.basis.found fs =
      fs.optional "gross_basis" .total (Value.readWord GrossBasis.words) := rfl

@[simp] theorem found_flag (key : String) : (RecordField.flag key).found fs = readFlag fs key := rfl

@[simp] theorem found_amount (key : String) :
    (RecordField.amount key).found fs = readAmount fs key := rfl

@[simp] theorem found_cap (key : String) : (RecordField.cap key).found fs = readCap fs key := rfl

@[simp] theorem found_tiers (k : TierKind) :
    (RecordField.tiers source k).found fs = readTiers source k fs := rfl

@[simp] theorem found_thresholds :
    (RecordField.thresholds source).found fs = readThresholds source fs := rfl

/-- A rule is written down field by field. -/
theorem names_toFields (source : Source) (r : Rule) :
    r.toFields.names = (recordFields source r.kind).map RecordField.key := by
  obtain ⟨label, terms⟩ := r
  cases terms <;> rfl

/-- Of a rule that was read each field is written down as it was read. -/
theorem found_of_ofFields (h : ofFields source kind fs = .accepted r) :
    r.kind = kind ∧ ∀ f ∈ recordFields source kind, ∃ a, f.found fs = .accepted a ∧
      r.toFields.get? f.key = some (f.write a) := by
  -- an accepted record is one of accepted fields, and their values stand in the rule
  cases kind with
  | base =>
    simp only [ofFields, Reading.seq_eq_accepted_iff, Reading.map_eq_accepted_iff] at h
    obtain ⟨_, _, ⟨_, _, ⟨_, _, ⟨_, hlabel, rfl⟩, hkind, rfl⟩, hamount, rfl⟩, hflag, rfl⟩ := h
    simp only [recordFields, List.forall_mem_cons]
    exact ⟨rfl, ⟨_, hlabel, rfl⟩, ⟨_, hkind, rfl⟩,
      ⟨_, hamount, rfl⟩, ⟨_, hflag, rfl⟩, List.forall_mem_nil _⟩
  | flatRate =>
    simp only [ofFields, Reading.seq_eq_accepted_iff, Reading.map_eq_accepted_iff] at h
    obtain ⟨_, _, ⟨_, _, ⟨_, _, ⟨_, hlabel, rfl⟩, hscope, rfl⟩, hkind, rfl⟩, hamount, rfl⟩ := h
    simp only [recordFields, List.forall_mem_cons]
    exact ⟨rfl, ⟨_, hlabel, rfl⟩, ⟨_, hkind, rfl⟩,
      ⟨_, hscope, rfl⟩, ⟨_, hamount, rfl⟩, List.forall_mem_nil _⟩
  | unitTiers =>
    simp only [ofFields, Reading.seq_eq_accepted_iff, Reading.map_eq_accepted_iff] at h
    obtain ⟨_, _, ⟨_, _, ⟨_, _, ⟨_, _, ⟨_, hlabel, rfl⟩, hscope, rfl⟩, hkind, rfl⟩, htiers, rfl⟩,
      hflag, rfl⟩ := h
    simp only [recordFields, List.forall_mem_cons]
    exact ⟨rfl, ⟨_, hlabel, rfl⟩, ⟨_, hkind, rfl⟩,
      ⟨_, hscope, rfl⟩, ⟨_, htiers, rfl⟩, ⟨_, hflag, rfl⟩, List.forall_mem_nil _⟩
  | grossShare =>
    simp only [ofFields, Reading.seq_eq_accepted_iff, Reading.map_eq_accepted_iff] at h
    obtain ⟨_, _, ⟨_, _, ⟨_, _, ⟨_, _, ⟨_, _, ⟨_, hlabel, rfl⟩, hkind, rfl⟩, hfront, rfl⟩, hback,
      rfl⟩, hfrontCap, rfl⟩, hbackCap, rfl⟩ := h
    simp only [recordFields, List.forall_mem_cons]
    exact ⟨rfl, ⟨_, hlabel, rfl⟩, ⟨_, hkind, rfl⟩,
      ⟨_, hfront, rfl⟩, ⟨_, hback, rfl⟩, ⟨_, hfrontCap, rfl⟩,
      ⟨_, hbackCap, rfl⟩, List.forall_mem_nil _⟩
  | grossTiers =>
    simp only [ofFields, Reading.seq_eq_accepted_iff, Reading.map_eq_accepted_iff] at h
    obtain ⟨_, _, ⟨_, _, ⟨_, _, ⟨_, _, ⟨_, _, ⟨_, hlabel, rfl⟩, hscope, rfl⟩, hkind, rfl⟩, htiers,
      rfl⟩, hflag, rfl⟩, hbasis, rfl⟩ := h
    simp only [recordFields, List.forall_mem_cons]
    exact ⟨rfl, ⟨_, hlabel, rfl⟩, ⟨_, hkind, rfl⟩,
      ⟨_, hscope, rfl⟩, ⟨_, htiers, rfl⟩, ⟨_, hflag, rfl⟩,
      ⟨_, hbasis, rfl⟩, List.forall_mem_nil _⟩
  | volumeBonus =>
    simp only [ofFields, Reading.seq_eq_accepted_iff, Reading.map_eq_accepted_iff] at h
    obtain ⟨_, _, ⟨_, _, ⟨_, _, ⟨_, hlabel, rfl⟩, hscope, rfl⟩, hkind, rfl⟩, hthresholds, rfl⟩ := h
    simp only [recordFields, List.forall_mem_cons]
    exact ⟨rfl, ⟨_, hlabel, rfl⟩, ⟨_, hkind, rfl⟩,
      ⟨_, hscope, rfl⟩, ⟨_, hthresholds, rfl⟩, List.forall_mem_nil _⟩
  | addOn =>
    simp only [ofFields, Reading.seq_eq_accepted_iff, Reading.map_eq_accepted_iff] at h
    obtain ⟨_, _, ⟨_, _, ⟨_, _, ⟨_, _, ⟨_, _, ⟨_, hlabel, rfl⟩, hscope, rfl⟩, hkind, rfl⟩,
      haccessory, rfl⟩, hspiff, rfl⟩, htrade, rfl⟩ := h
    simp only [recordFields, List.forall_mem_cons]
    exact ⟨rfl, ⟨_, hlabel, rfl⟩, ⟨_, hkind, rfl⟩,
      ⟨_, hscope, rfl⟩, ⟨_, haccessory, rfl⟩, ⟨_, hspiff, rfl⟩,
      ⟨_, htrade, rfl⟩, List.forall_mem_nil _⟩
  | guarantee =>
    simp only [ofFields, Reading.seq_eq_accepted_iff, Reading.map_eq_accepted_iff] at h
    obtain ⟨_, _, ⟨_, _, ⟨_, hlabel, rfl⟩, hkind, rfl⟩, hamount, rfl⟩ := h
    simp only [recordFields, List.forall_mem_cons]
    exact ⟨rfl, ⟨_, hlabel, rfl⟩, ⟨_, hkind, rfl⟩,
      ⟨_, hamount, rfl⟩, List.forall_mem_nil _⟩

/-- Fields spell a rule exactly if each of them can be read. -/
theorem exists_ofFields_iff :
    (∃ r, ofFields source kind fs = .accepted r) ↔
      ∀ f ∈ recordFields source kind, ∃ a, f.found fs = .accepted a := by
  cases kind <;>
    simp only [ofFields, Reading.exists_seq_iff, Reading.exists_map_iff, recordFields,
      List.forall_mem_cons, found_label, found_kind, found_scope, found_basis, found_flag,
      found_amount, found_cap, found_tiers, found_thresholds, and_assoc]
  all_goals tauto

/-- What a rule is read as, and whether it can be read, is a matter of what its fields are read
as. -/
theorem ofFields_congr (h : ∀ f ∈ recordFields source kind, f.found gs = f.found fs) :
    ofFields source kind gs = ofFields source kind fs := by
  cases kind <;>
    simp only [recordFields, List.forall_mem_cons, found_label, found_kind, found_scope,
      found_basis, found_flag, found_amount, found_cap, found_tiers, found_thresholds] at h <;>
    simp only [ofFields, h]

/-- A rule that was read is read again from its fields. -/
theorem ofFields_toFields (h : ofFields source kind fs = .accepted r) :
    ofFields source kind r.toFields = .accepted r := by
  obtain ⟨-, hfound⟩ := found_of_ofFields h
  rw [← h]
  refine ofFields_congr fun f hf => ?_
  obtain ⟨a, ha, hwritten⟩ := hfound f hf
  rw [ha, f.found_written ha hwritten]

/-- Fields put over those of a rule that was read are read as if they had been put over what the
rule was read from. -/
theorem ofFields_overlay (h : ofFields source kind fs = .accepted r) (changes : Fields) :
    ofFields source kind (r.toFields.overlay changes) =
      ofFields source kind (fs.overlay changes) := by
  obtain ⟨-, hfound⟩ := found_of_ofFields h
  refine ofFields_congr fun f hf => ?_
  -- a field that is put over is the same in both, any other one is found as it was
  by_cases hkey : f.key ∈ changes.names
  · exact f.found_congr (Fields.get?_overlay_of_mem hkey)
  · obtain ⟨a, ha, hwritten⟩ := hfound f hf
    have hkept : f.found (fs.overlay changes) = f.found fs :=
      f.found_congr (Fields.get?_overlay_of_not_mem hkey)
    rw [hkept, ha]
    exact f.found_written ha ((Fields.get?_overlay_of_not_mem hkey).trans hwritten)

/-- Fields with which others spell a rule spell one alone. -/
theorem exists_ofFields_of_overlay (hnodup : changes.names.Nodup)
    (h : ofFields source kind (fs.overlay changes) = .accepted r) :
    ∃ told, ofFields source kind changes = .accepted told := by
  rw [exists_ofFields_iff]
  intro f hf
  by_cases hkey : f.key ∈ changes.names
  · have hput : f.found (fs.overlay changes) = f.found changes :=
      f.found_congr (Fields.get?_overlay_of_nodup hnodup hkey)
    rw [← hput]
    exact exists_ofFields_iff.1 ⟨r, h⟩ f hf
  · exact ⟨_, f.found_of_not_mem hkey⟩

/-- Fields that spell a rule alone spell one put over those of a rule that was read. -/
theorem exists_ofFields_overlay (hnodup : changes.names.Nodup)
    (h : ofFields source kind fs = .accepted r) {told : Rule}
    (htold : ofFields source kind changes = .accepted told) :
    ∃ r', ofFields source kind (r.toFields.overlay changes) = .accepted r' := by
  rw [exists_ofFields_iff]
  intro f hf
  by_cases hkey : f.key ∈ changes.names
  · rw [f.found_congr (Fields.get?_overlay_of_nodup hnodup hkey)]
    exact exists_ofFields_iff.1 ⟨told, htold⟩ f hf
  · have hkept : f.found (r.toFields.overlay changes) = f.found r.toFields :=
      f.found_congr (Fields.get?_overlay_of_not_mem hkey)
    rw [hkept]
    exact exists_ofFields_iff.1 ⟨r, ofFields_toFields h⟩ f hf

/-- A field in which two rules were read from the same is the same in both. -/
theorem get?_toFields_congr (h : ofFields source kind fs = .accepted r)
    (h' : ofFields source kind gs = .accepted r') (hkey : gs.get? key = fs.get? key) :
    r'.toFields.get? key = r.toFields.get? key := by
  obtain ⟨hkind, hfound⟩ := found_of_ofFields h
  obtain ⟨hkind', hfound'⟩ := found_of_ofFields h'
  by_cases hmem : key ∈ (recordFields source kind).map RecordField.key
  · obtain ⟨f, hf, rfl⟩ := List.mem_map.1 hmem
    obtain ⟨a, ha, hwritten⟩ := hfound f hf
    obtain ⟨a', ha', hwritten'⟩ := hfound' f hf
    rw [f.found_congr hkey, ha] at ha'
    rw [hwritten, hwritten', Reading.accepted.inj ha']
  · have hnone : key ∉ r.toFields.names := by rwa [names_toFields source, hkind]
    have hnone' : key ∉ r'.toFields.names := by rwa [names_toFields source, hkind']
    rw [Fields.get?_of_not_mem hnone, Fields.get?_of_not_mem hnone']

/-- The fields of a rule that was read tell all of it. -/
theorem eq_of_get?_toFields (h : ofFields source kind fs = .accepted r)
    (h' : ofFields source kind gs = .accepted r')
    (hget : ∀ key, r'.toFields.get? key = r.toFields.get? key) : r' = r := by
  have hsame : ofFields source kind r'.toFields = ofFields source kind r.toFields :=
    ofFields_congr fun f _ => f.found_congr (hget f.key)
  rw [ofFields_toFields h, ofFields_toFields h'] at hsame
  exact Reading.accepted.inj hsame

/-- Fields put over others one after the other are read as if they had been put over them at
once. -/
theorem ofFields_overlay_overlay (h : changes.names.Nodup) (more : Fields) :
    ofFields source kind ((fs.overlay changes).overlay more) =
      ofFields source kind (fs.overlay (changes.overlay more)) :=
  ofFields_congr fun f _ => f.found_congr (Fields.get?_overlay_overlay h).symm

end Rule

end DealerPay
