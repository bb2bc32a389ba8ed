import DealerPay.Proofs.Rereading

/-!
# Edits of a rule

An edit of a rule of a draft changes the fields that it names and nothing else, and edits one after
the other are one edit.

* `Rule.IsMade` says how rules get into a draft: read as part of a plan, standard, or edited.
* `Draft.edit_eq_spell`: an edit reads the rule from its fields with the changes put over them.
* `Draft.IsRevised` is what an edit leaves: the other rules, the kind, and each field that it does
  not name as they were, and of the fields that it names what the changes alone spell.
* `Draft.edit_edit`: an edit of what an edit has left is the edit of both.
* `Draft.edit_revises` puts these together.
-/

namespace DealerPay

/-! ## Rules of drafts -/

namespace Rule

/-- Whether a rule can get into a draft. -/
inductive IsMade : Rule → Prop
  /-- As a rule of a plan that is read. -/
  | read {v : Value} {rules : List Rule} {r : Rule} (h : readAll v = .ok rules) (hr : r ∈ rules) :
    IsMade r
  /-- As the rule that a kind starts out with. -/
  | standard (kind : RuleKind) : IsMade (Rule.standard kind)
  /-- By an edit. -/
  | edited {r r' : Rule} {changes : Fields} (hr : IsMade r)
    (h : Draft.changed r changes = .ok r') : IsMade r'

/-- The rule of a kind that fields spell, with what is said where they spell none. -/
def spell (kind : RuleKind) (fs : Fields) : Except RulesError Rule :=
  match (ofFields .direct kind fs).within (.field kind.text) with
  | .accepted r => .ok r
  | .refused first _ => .error (.refused (.ofUnreadable (first.within (.item 0))))
  | .halted s => .error (.signal s)

variable {kind : RuleKind} {fs : Fields} {r : Rule}

/-- Fields that name a kind are read as a rule of this kind. -/
theorem readRule_eq_spell (h : fs.get? kindKey = some (.text kind.text)) :
    Draft.readRule (.object fs) = spell kind fs := by
  have hvalue : ofValue .direct (.object fs) =
      (ofFields .direct kind fs).within (.field kind.text) := by
    unfold ofValue
    simp only [h, kind.named?_text]
  unfold Draft.readRule spell
  cases hwithin : (ofFields .direct kind fs).within (.field kind.text) <;>
    simp only [hvalue, hwithin]

/-- A rule is spelled exactly if the fields are read as it. -/
theorem spell_eq_ok_iff : spell kind fs = .ok r ↔ ofFields .direct kind fs = .accepted r := by
  have hread : ofFields .direct kind fs = .accepted r ↔
      (ofFields .direct kind fs).within (.field kind.text) = .accepted r :=
    Reading.within_eq_accepted_iff.symm
  unfold spell
  rw [hread]
  cases (ofFields .direct kind fs).within (.field kind.text) with
  | accepted r' => simp
  | refused first rest => simp
  | halted s => simp

/-- What a value spells is read from fields, directly. -/
theorem exists_ofFields_of_readRule {v : Value} (h : Draft.readRule v = .ok r) :
    ∃ kind fs, ofFields .direct kind fs = .accepted r := by
  unfold Draft.readRule at h
  split at h
  · next hread =>
    cases h
    obtain ⟨kind, fs, -, hfs⟩ := exists_ofFields_of_ofValue hread
    exact ⟨kind, fs, hfs⟩
  · cases h
  · cases h

/-- However a rule got into a draft, fields of its kind are read as it. -/
theorem IsMade.exists_ofFields (h : r.IsMade) : ∃ fs, ofFields .direct r.kind fs = .accepted r := by
  suffices hread : ∃ kind fs, ofFields .direct kind fs = .accepted r by
    obtain ⟨kind, fs, hfs⟩ := hread
    exact ⟨fs, (found_of_ofFields hfs).1 ▸ hfs⟩
  cases h with
  | @read v rules _ hall hr =>
    unfold readAll at hall
    split at hall
    · exact forall_mem_readList (Q := fun r => ∃ kind fs, ofFields .direct kind fs = .accepted r)
        (fun v _ r hv => by
          obtain ⟨kind, fs, -, hfs⟩ := exists_ofFields_of_ofValue hv
          exact ⟨kind, fs, hfs⟩) hall r hr
    · cases hall
  | standard kind =>
    refine ⟨kind, (Rule.standard kind).toFields, Reading.result?_eq_some_iff.1 ?_⟩
    cases kind <;> decide +kernel
  | edited _ hchanged => exact exists_ofFields_of_readRule hchanged

end Rule

namespace Draft

/-! ## What an edit does -/

variable {d d₁ d₂ : Draft} {i : Fin d.rules.length} {changes more : Fields}

/-- An edit that leaves the kind alone reads the rule from its fields with the changes put over
them. -/
theorem edit_eq_spell (hkind : Rule.kindKey ∉ changes.names) :
    d.edit (i : Nat) changes =
      ((Rule.spell (d.rules.get i).kind ((d.rules.get i).toFields.overlay changes)).map
        fun r => (⟨d.rules.set i r⟩ : Draft)).mapError .unread := by
  have hindex : d.index (i : Nat) = .ok i := by
    unfold index index?
    rw [dif_pos ⟨Int.natCast_nonneg _, i.isLt⟩]
    rfl
  have hread : changed (d.rules.get i) changes =
      Rule.spell (d.rules.get i).kind ((d.rules.get i).toFields.overlay changes) :=
    Rule.readRule_eq_spell (Fields.get?_overlay_of_not_mem hkind)
  unfold edit
  rw [hindex]
  show (changed (d.rules.get i) changes).mapError DraftError.unread >>= _ = _
  rw [hread]
  cases Rule.spell (d.rules.get i).kind ((d.rules.get i).toFields.overlay changes) <;> rfl

/-- An edit goes through exactly if the fields with the changes put over them are read as a rule,
which then stands in the place of the old one. -/
theorem edit_eq_ok_iff (hkind : Rule.kindKey ∉ changes.names) :
    d.edit (i : Nat) changes = .ok d₁ ↔
      ∃ r, Rule.ofFields .direct (d.rules.get i).kind
          ((d.rules.get i).toFields.overlay changes) = .accepted r ∧ d₁ = ⟨d.rules.set i r⟩ := by
  rw [edit_eq_spell hkind]
  simp only [← Rule.spell_eq_ok_iff]
  cases Rule.spell (d.rules.get i).kind ((d.rules.get i).toFields.overlay changes) with
  | error e =>
    constructor
    · intro h
      cases h
    · rintro ⟨r, hr, -⟩
      cases hr
  | ok r =>
    constructor
    · intro h
      cases h
      exact ⟨r, rfl, rfl⟩
    · rintro ⟨r', hr', rfl⟩
      cases hr'
      rfl

/-- Edits that put the same in each field of a rule are the same. -/
theorem edit_congr (hkind : Rule.kindKey ∉ changes.names) (hmore : Rule.kindKey ∉ more.names)
    (h : ∀ key ∈ (d.rules.get i).toFields.names,
      ((d.rules.get i).toFields.overlay changes).get? key =
        ((d.rules.get i).toFields.overlay more).get? key) :
    d.edit (i : Nat) changes = d.edit (i : Nat) more := by
  have hread : Rule.ofFields .direct (d.rules.get i).kind
      ((d.rules.get i).toFields.overlay changes) =
        Rule.ofFields .direct (d.rules.get i).kind ((d.rules.get i).toFields.overlay more) := by
    refine Rule.ofFields_congr fun f hf => f.found_congr (h f.key ?_)
    rw [Rule.names_toFields .direct]
    exact List.mem_map_of_mem hf
  rw [edit_eq_spell hkind, edit_eq_spell hmore]
  unfold Rule.spell
  rw [hread]

/-- An edit without changes leaves the draft as it is. -/
theorem edit_nil (hmade : (d.rules.get i).IsMade) : d.edit (i : Nat) [] = .ok d := by
  obtain ⟨fs, hfs⟩ := hmade.exists_ofFields
  have hset : d.rules.set i (d.rules.get i) = d.rules := List.set_getElem_self i.isLt
  exact (edit_eq_ok_iff List.not_mem_nil).2
    ⟨d.rules.get i, Rule.ofFields_toFields hfs, congrArg Draft.mk hset.symm⟩

/-- Changes of fields that rules of the kind do not have are left out. -/
theorem edit_filter (hkind : Rule.kindKey ∉ changes.names) :
    d.edit (i : Nat)
        (changes.filter fun c => decide (c.1 ∈ (d.rules.get i).toFields.names)) =
      d.edit (i : Nat) changes := by
  refine edit_congr (fun hmem => hkind ?_) hkind fun key hkey =>
    Fields.get?_overlay_filter (fun k => decide (k ∈ _)) (decide_eq_true hkey)
  obtain ⟨c, hc, heq⟩ := List.mem_map.1 hmem
  exact heq ▸ List.mem_map_of_mem (List.mem_of_mem_filter hc)

/-- An edit goes through exactly if the changes alone spell a rule. -/
theorem exists_edit_iff (hmade : (d.rules.get i).IsMade) (hkind : Rule.kindKey ∉ changes.names)
    (hnodup : changes.names.Nodup) :
    (∃ d₁, d.edit (i : Nat) changes = .ok d₁) ↔
      ∃ told, Rule.spell (d.rules.get i).kind changes = .ok told := by
  obtain ⟨fs, hfs⟩ := hmade.exists_ofFields
  simp only [edit_eq_ok_iff hkind, Rule.spell_eq_ok_iff]
  constructor
  · rintro ⟨_, r, hr, -⟩
    exact Rule.exists_ofFields_of_overlay hnodup hr
  · rintro ⟨told, htold⟩
    obtain ⟨r, hr⟩ := Rule.exists_ofFields_overlay hnodup hfs htold
    exact ⟨_, r, hr, rfl⟩

/-- An edit of what an edit has left is the edit of both, the later changes over the earlier. What
is said where it is refused is the same. -/
theorem edit_edit (hkind : Rule.kindKey ∉ changes.names) (hmore : Rule.kindKey ∉ more.names)
    (hnodup : changes.names.Nodup)
    (h : d.edit (i : Nat) changes = .ok d₁) :
    d₁.edit (i : Nat) more = d.edit (i : Nat) (changes.overlay more) := by
  obtain ⟨r, hr, rfl⟩ := (edit_eq_ok_iff hkind).1 h
  have hboth : Rule.kindKey ∉ (changes.overlay more).names := fun hmem =>
    (Fields.mem_names_overlay.1 hmem).elim hkind hmore
  have hi : (i : Nat) < (d.rules.set i r).length := by
    rw [List.length_set]
    exact i.isLt
  have hget : (d.rules.set i r).get ⟨i, hi⟩ = r := by simp
  have hspell : Rule.spell r.kind (r.toFields.overlay more) =
      Rule.spell (d.rules.get i).kind
        ((d.rules.get i).toFields.overlay (changes.overlay more)) := by
    obtain ⟨hk, -⟩ := Rule.found_of_ofFields hr
    unfold Rule.spell
    rw [hk, Rule.ofFields_overlay hr, Rule.ofFields_overlay_overlay hnodup]
  rw [edit_eq_spell (d := ⟨d.rules.set i r⟩) (i := ⟨i, hi⟩) hmore, edit_eq_spell hboth, ← hspell]
  show ((Rule.spell ((d.rules.set i r).get ⟨i, hi⟩).kind _).map _).mapError _ = _
  rw [hget]
  simp only [List.set_set]

/-- What an edit leaves of a draft. -/
structure IsRevised (d : Draft) (i : Fin d.rules.length) (changes : Fields) (d₁ : Draft) :
    Prop where
  /-- As many rules. -/
  length : d₁.length = d.length
  /-- The other rules as they were. -/
  others : ∀ j : Nat, j ≠ i → d₁.rules[j]? = d.rules[j]?
  /-- A rule of the same kind, with the fields that are not named as they were, and with those that
  are named as in the rule that the changes alone spell. -/
  rule : ∃ r told, d₁.rules[(i : Nat)]? = some r ∧
    Rule.spell (d.rules.get i).kind changes = .ok told ∧
    r.kind = (d.rules.get i).kind ∧
    (∀ key ∉ changes.names, r.toFields.get? key = (d.rules.get i).toFields.get? key) ∧
    ∀ key ∈ changes.names, r.toFields.get? key = told.toFields.get? key

/-- An edit changes what it names and nothing else. -/
theorem isRevised_of_edit (hmade : (d.rules.get i).IsMade) (hkind : Rule.kindKey ∉ changes.names)
    (hnodup : changes.names.Nodup) (h : d.edit (i : Nat) changes = .ok d₁) :
    d.IsRevised i changes d₁ := by
  obtain ⟨fs, hfs⟩ := hmade.exists_ofFields
  obtain ⟨r, hr, rfl⟩ := (edit_eq_ok_iff hkind).1 h
  obtain ⟨told, htold⟩ := Rule.exists_ofFields_of_overlay hnodup hr
  refine ⟨List.length_set, fun j hj => List.getElem?_set_ne (Ne.symm hj), r, told,
    List.getElem?_set_self i.isLt, Rule.spell_eq_ok_iff.2 htold, (Rule.found_of_ofFields hr).1,
    fun key hkey => ?_, fun key hkey => ?_⟩
  · exact Rule.get?_toFields_congr (Rule.ofFields_toFields hfs) hr
      (Fields.get?_overlay_of_not_mem hkey)
  · exact Rule.get?_toFields_congr htold hr (Fields.get?_overlay_of_nodup hnodup hkey)

/-- What an edit leaves is told in full. -/
theorem IsRevised.unique (h₁ : d.IsRevised i changes d₁) (h₂ : d.IsRevised i changes d₂)
    (hmade₁ : ∀ r ∈ d₁.rules, r.IsMade) (hmade₂ : ∀ r ∈ d₂.rules, r.IsMade) : d₁ = d₂ := by
  obtain ⟨r₁, told, hr₁, htold, hk₁, hkept₁, hnamed₁⟩ := h₁.rule
  obtain ⟨r₂, told', hr₂, htold', hk₂, hkept₂, hnamed₂⟩ := h₂.rule
  obtain rfl : told = told' := Except.ok.inj (htold.symm.trans htold')
  obtain ⟨fs₁, hfs₁⟩ := (hmade₁ r₁ (List.mem_of_getElem? hr₁)).exists_ofFields
  obtain ⟨fs₂, hfs₂⟩ := (hmade₂ r₂ (List.mem_of_getElem? hr₂)).exists_ofFields
  have hrule : r₁ = r₂ := by
    refine Rule.eq_of_get?_toFields hfs₂ (hk₂.trans hk₁.symm ▸ hfs₁) fun key => ?_
    by_cases hkey : key ∈ changes.names
    · rw [hnamed₁ key hkey, hnamed₂ key hkey]
    · rw [hkept₁ key hkey, hkept₂ key hkey]
  have hrules : d₁.rules = d₂.rules := by
    refine List.ext_getElem? fun j => ?_
    by_cases hj : j = i
    · rw [hj, hr₁, hr₂, hrule]
    · rw [h₁.others j hj, h₂.others j hj]
  cases d₁
  cases d₂
  exact congrArg Draft.mk hrules

/-- Edits of different fields that go through one after the other go through the other way round,
and leave the same. -/
theorem edit_comm_of_disjoint (hmade : (d.rules.get i).IsMade)
    (hkind : Rule.kindKey ∉ changes.names) (hmore : Rule.kindKey ∉ more.names)
    (hnodup : changes.names.Nodup) (hnodup' : more.names.Nodup)
    (hdisjoint : changes.names.Disjoint more.names) (h : d.edit (i : Nat) changes = .ok d₁)
    (h' : d₁.edit (i : Nat) more = .ok d₂) :
    ∃ d₁', d.edit (i : Nat) more = .ok d₁' ∧ d₁'.edit (i : Nat) changes = .ok d₂ := by
  have hboth : Rule.kindKey ∉ (changes.overlay more).names := fun hmem =>
    (Fields.mem_names_overlay.1 hmem).elim hkind hmore
  have hboth' : Rule.kindKey ∉ (more.overlay changes).names := fun hmem =>
    (Fields.mem_names_overlay.1 hmem).elim hmore hkind
  have hagree : d.edit (i : Nat) (more.overlay changes) =
      d.edit (i : Nat) (changes.overlay more) :=
    edit_congr hboth' hboth fun key _ => by
      rw [Fields.get?_overlay_overlay hnodup', Fields.get?_overlay_overlay hnodup,
        Fields.get?_overlay_comm hdisjoint]
  rw [edit_edit hkind hmore hnodup h] at h'
  -- the later edit goes through by itself, since its changes alone spell a rule
  obtain ⟨r, hr, -⟩ := (edit_eq_ok_iff hboth).1 h'
  rw [← Rule.ofFields_overlay_overlay hnodup] at hr
  obtain ⟨told, htold⟩ := Rule.exists_ofFields_of_overlay hnodup' hr
  obtain ⟨d₁', hd₁'⟩ :=
    (exists_edit_iff hmade hmore hnodup').2 ⟨told, Rule.spell_eq_ok_iff.2 htold⟩
  refine ⟨d₁', hd₁', ?_⟩
  rw [edit_edit hmore hkind hnodup' hd₁', hagree, h']

/-- An edit of a draft that does not touch the kind changes what it is told and nothing else, and
edits compose. Without changes it leaves the draft as it is; changes of fields that the rule does
not have are left out; it goes through exactly if the changes alone spell a rule; and it then
leaves every other rule and every field that it does not name. A second edit of the rule is,
refusals included, the edit of the first draft by both, the later changes over the earlier, so that
edits of different fields can be made in either order. -/
theorem edit_revises (hmade : ∀ r ∈ d.rules, r.IsMade) (i : Fin d.rules.length)
    (hkind : Rule.kindKey ∉ changes.names) (hmore : Rule.kindKey ∉ more.names)
    (hnodup : changes.names.Nodup) (hnodup' : more.names.Nodup) :
    d.edit (i : Nat) [] = .ok d ∧
    d.edit (i : Nat)
        (changes.filter fun c => decide (c.1 ∈ (d.rules.get i).toFields.names)) =
      d.edit (i : Nat) changes ∧
    ((∃ d₁, d.edit (i : Nat) changes = .ok d₁) ↔
      ∃ told, Rule.spell (d.rules.get i).kind changes = .ok told) ∧
    (∀ d₁, d.edit (i : Nat) changes = .ok d₁ → d.IsRevised i changes d₁ ∧
      d₁.edit (i : Nat) more = d.edit (i : Nat) (changes.overlay more)) ∧
    (changes.names.Disjoint more.names → ∀ d₂,
      (d.edit (i : Nat) changes >>= fun d₁ => d₁.edit (i : Nat) more) = .ok d₂ ↔
        (d.edit (i : Nat) more >>= fun d₁ => d₁.edit (i : Nat) changes) = .ok d₂) := by
  have hmadeAt : (d.rules.get i).IsMade := hmade _ (List.get_mem d.rules i)
  refine ⟨edit_nil hmadeAt, edit_filter hkind, exists_edit_iff hmadeAt hkind hnodup,
    fun d₁ h => ⟨isRevised_of_edit hmadeAt hkind hnodup h, edit_edit hkind hmore hnodup h⟩,
    fun hdisjoint d₂ => ⟨fun h => ?_, fun h => ?_⟩⟩
  · obtain ⟨d₁, h, h'⟩ := bind_eq_ok.1 h
    exact bind_eq_ok.2
      (edit_comm_of_disjoint hmadeAt hkind hmore hnodup hnodup' hdisjoint h h')
  · obtain ⟨d₁, h, h'⟩ := bind_eq_ok.1 h
    exact bind_eq_ok.2
      (edit_comm_of_disjoint hmadeAt hmore hkind hnodup' hnodup hdisjoint.symm h h')

/-- The rule of each kind that a plan starts out with. -/
def standard : Draft := ⟨RuleKind.all.map Rule.standard⟩

/-- The standard draft where the tier that is reached counts for all units. -/
def retroactive : Draft :=
  ⟨standard.rules.set 2 ⟨"", .unitTiers .all [⟨.ofNat 1, some (.ofNat 8), .ofNat 100⟩] true⟩⟩

/-- The tiers of the standard rules are made retroactive, with a colour that no rule has, and then
named and kept to new vehicles; or the other way round. -/
theorem edit_revises_standard :
    ∃ changes more : Fields,
      changes = [("retroactive", .text "yes"), ("colour", .text "red")] ∧
      more = [("label", .text "Ladder"), ("scope", .text "New")] ∧
      (∀ r ∈ standard.rules, r.IsMade) ∧
      Rule.kindKey ∉ changes.names ∧ Rule.kindKey ∉ more.names ∧
      changes.names.Nodup ∧ more.names.Nodup ∧ changes.names.Disjoint more.names ∧
      standard.edit 2 changes = .ok retroactive ∧
      standard.IsRevised ⟨2, by decide⟩ changes retroactive ∧
      ∃ d₂, retroactive.edit 2 more = .ok d₂ ∧
        standard.edit 2 (changes.overlay more) = .ok d₂ ∧
        (standard.edit 2 more >>= fun d₁ => d₁.edit 2 changes) = .ok d₂ := by
  have hmade : ∀ r ∈ standard.rules, r.IsMade := by
    intro r hr
    obtain ⟨kind, -, rfl⟩ := List.mem_map.1 hr
    exact .standard kind
  have hkind : Rule.kindKey ∉
      Fields.names [("retroactive", .text "yes"), ("colour", .text "red")] := by decide
  have hkind' : Rule.kindKey ∉
      Fields.names [("label", .text "Ladder"), ("scope", .text "New")] := by decide
  have hnodup : Fields.names [("retroactive", .text "yes"), ("colour", .text "red")] |>.Nodup := by
    decide
  have hnodup' : Fields.names [("label", .text "Ladder"), ("scope", .text "New")] |>.Nodup := by
    decide
  obtain ⟨-, -, -, hfirst, hcomm⟩ :=
    edit_revises hmade ⟨2, by decide⟩ hkind hkind' hnodup hnodup'
  have hretroactive : standard.edit 2 [("retroactive", .text "yes"), ("colour", .text "red")] =
      .ok retroactive := eq_ok_of_toOption (by decide +kernel)
  obtain ⟨hrevised, hcompose⟩ := hfirst retroactive hretroactive
  have hmore : retroactive.edit 2 [("label", .text "Ladder"), ("scope", .text "New")] = .ok
      ⟨standard.rules.set 2
        ⟨"Ladder", .unitTiers (.only .new) [⟨.ofNat 1, some (.ofNat 8), .ofNat 100⟩] true⟩⟩ :=
    eq_ok_of_toOption (by decide +kernel)
  have hdisjoint : List.Disjoint ["retroactive", "colour"] ["label", "scope"] := by simp
  exact ⟨_, _, rfl, rfl, hmade, hkind, hkind', hnodup, hnodup', hdisjoint, hretroactive,
    hrevised, _, hmore, hcompose ▸ hmore,
    (hcomm hdisjoint _).1 (bind_eq_ok.2 ⟨_, hretroactive, hmore⟩)⟩

end Draft

end DealerPay
