import Mathlib
import SchemaEvolution.Proofs.EmptyDiff
import SchemaEvolution.Proofs.Mild
import SchemaEvolution.Proofs.Plain
import SchemaEvolution.Proofs.Visits
import SchemaEvolution.Proofs.WholeUnits

/-! # Additions keep values valid

Between two plain documents a release that is an addition at most keeps every value valid. At one
level the changes are mild and the schemas below keep what they admit, and from that each field of
the new schema admits what the old schema does.
-/

namespace SchemaEvolution

/-- The family of keywords that constrain values of the kind. -/
def JsonKind.family? : JsonKind → Option Family
  | .null | .boolean => none
  | .number => some .numeric
  | .string => some .string
  | .array => some .array
  | .object => some .object

/-- What is valid against the document of the first schema is so against that of the second. -/
def Node.Keeps (old new : Node) : Prop :=
  ∀ value, old.source.validates value = true → new.source.validates value = true

namespace InstanceType

theorem family?_of_describes {type : InstanceType} {value : Json}
    (h : type.describes value = true) : type.family? = value.kind.family? := by
  cases type <;> cases value <;> first | rfl | cases h

end InstanceType

namespace Keyword

theorem family?_of_measure? {keyword : Keyword} {value : Json} {size : Nat}
    (h : keyword.measure? value = some size) : keyword.family? = value.kind.family? := by
  cases keyword <;> cases value <;> first | rfl | cases h

theorem isScalar_of_count {keyword : Keyword} (count : keyword ∈ counts) : keyword.IsScalar := by
  rw [isScalar_iff]
  exact (show ∀ keyword ∈ counts, keyword ∉ compound by decide) keyword count

theorem admitsSize_of_le {keyword : Keyword} {size m n : Nat} {boundedOld : Number.IsWord m}
    {boundedNew : Number.IsWord n} (upper : keyword.bound? = some .upper → m ≤ n)
    (lower : keyword.bound? = some .lower → n ≤ m)
    (h : keyword.admitsSize size (.number (.integer m boundedOld)) = true) :
    keyword.admitsSize size (.number (.integer n boundedNew)) = true := by
  unfold admitsSize at h ⊢
  rcases side : keyword.bound? with _ | (_ | _)
  · rfl
  · simp only [side, decide_eq_true_eq, Nat.cast_le] at h ⊢
    exact h.trans (upper side)
  · simp only [side, decide_eq_true_eq, Nat.cast_le] at h ⊢
    exact (lower side).trans h

end Keyword

namespace Diff

variable {engine : RuleEngine} {old new : Node} {value : Json}

section Values

variable {R : Node → Node → Prop} {keyword : Keyword}
  (mild : Settled engine.Mild R (findings old new))

include mild

theorem value_of_mild (scalar : keyword.IsScalar) (recognized : keyword.isRecognized = true)
    (constrains : keyword.isMetadata = false) (considered : Considers old new keyword)
    {after : Json} (found : new.valueOf keyword = some after) :
    ∃ before, old.valueOf keyword = some before ∧
      (before.equivalent after = true ∨ engine.Mild (.modified [] keyword before after)) := by
  have told (differs : Differs (old.valueOf keyword) (new.valueOf keyword)) :
      engine.Mild (.turned [] keyword (old.valueOf keyword) (new.valueOf keyword)) :=
    mild _ ((change_mem_findings scalar).mpr ⟨considered, mem_ofValues.mpr ⟨differs, rfl⟩⟩)
  rw [found] at told
  cases before : old.valueOf keyword with
  | none =>
      rw [before] at told
      exact absurd (told trivial) (RuleEngine.not_mild_added recognized constrains)
  | some a =>
      rw [before] at told
      refine ⟨a, rfl, ?_⟩
      cases same : a.equivalent after with
      | true => exact .inl rfl
      | false => exact .inr (told same)

theorem types_of_mild : new.types = none ∨ old.types = new.types := by
  cases after : new.types with
  | none => exact .inl rfl
  | some types =>
      have found : new.valueOf .type = some (Facets.typesToJson types) :=
        congrArg (Option.map Facets.typesToJson) after
      obtain ⟨before, held, same | moved⟩ :=
        value_of_mild mild (.inl (by decide)) rfl rfl (by simp [Considers, Keyword.family?]) found
      · obtain ⟨others, before, rfl⟩ := Option.map_eq_some_iff.mp held
        rw [typesToJson_equivalent] at same
        exact .inr (before.trans (congrArg some same))
      · exact absurd moved RuleEngine.not_mild_type

theorem count_of_mild (count : keyword ∈ Keyword.counts)
    (ho : ∀ limit, old.valueOf keyword = some limit → limit.IsCount)
    (hn : ∀ limit, new.valueOf keyword = some limit → limit.IsCount)
    (considered : Considers old new keyword) {limit : Json}
    (found : new.valueOf keyword = some limit) :
    ∃ before, old.valueOf keyword = some before ∧ ∀ size,
      keyword.admitsSize size before = true → keyword.admitsSize size limit = true := by
  obtain ⟨before, held, moved⟩ := value_of_mild mild (Keyword.isScalar_of_count count)
    (Keyword.isRecognized_of_count count) (Keyword.isMetadata_of_count count) considered found
  obtain ⟨m, _, rfl, smallOld⟩ := ho before held
  obtain ⟨n, _, rfl, smallNew⟩ := hn limit found
  refine ⟨_, held, fun size => Keyword.admitsSize_of_le ?_ ?_⟩
  · intro side
    rcases moved with same | moved
    · rw [Json.equivalent, beq_iff_eq, Number.signedUnits_eq_iff smallOld smallNew] at same
      exact same.le
    · have increased := RuleEngine.recedes_of_mild side moved
      rw [Bound.Recedes, Number.signedUnits_lt_iff smallOld smallNew] at increased
      exact increased.le
  · intro side
    rcases moved with same | moved
    · rw [Json.equivalent, beq_iff_eq, Number.signedUnits_eq_iff smallOld smallNew] at same
      exact same.ge
    · have decreased := RuleEngine.recedes_of_mild side moved
      rw [Bound.Recedes, Number.signedUnits_lt_iff smallNew smallOld] at decreased
      exact decreased.le

/-- A family that one of the old types is of is compared, so that none of its keywords goes
unseen. -/
theorem compared_of_types {kind : Family} (typed : ∀ types, old.types = some types →
    ∃ type ∈ types, type.family? = some kind) : Compared old new kind where
  sameTypes := by
    intro before after ho hn
    rcases types_of_mild mild with absent | same
    · cases absent.symm.trans hn
    · exact Option.some_inj.mp (ho.symm.trans (same.trans hn))
  constrained := by
    refine .inl ?_
    unfold Facets.constrains
    split
    · rfl
    · rename_i types found
      obtain ⟨type, listed, family⟩ := typed types found
      simp only [Bool.or_eq_true, List.any_eq_true, beq_iff_eq]
      exact .inr ⟨type, listed, family⟩

variable (admits : old.AdmitsAlone value)

include admits

theorem compared_of_admits {kind : Family} (same : value.kind.family? = some kind) :
    Compared old new kind := by
  refine compared_of_types mild fun types found => ?_
  obtain ⟨type, listed, described⟩ := admits.types types found
  exact ⟨type, listed, (InstanceType.family?_of_describes described).trans same⟩

theorem considers_of_admits (same : keyword.family? = value.kind.family?) :
    Considers old new keyword := by
  intro kind _ family
  exact compared_of_admits mild admits (same.symm.trans family)

theorem types_kept (types : List InstanceType) (found : new.types = some types) :
    ∃ type ∈ types, type.describes value = true := by
  rcases types_of_mild mild with absent | same
  · cases absent.symm.trans found
  · exact admits.types types (same.trans found)

theorem enumeration_kept (options : List Json) (found : new.enumeration = some options) :
    ∃ option ∈ options, option.equivalent value = true := by
  have told : ∀ change ∈ enumeration [] old.enumeration new.enumeration, engine.Mild change := by
    intro change member
    apply settled_told.mp (settled_append.mp mild).1
    simp [shared, member]
  rw [found] at told
  cases before : old.enumeration with
  | none =>
      rw [before] at told
      exact absurd (told _ (List.mem_singleton.mpr rfl)) (RuleEngine.not_mild_added rfl rfl)
  | some former =>
      rw [before] at told
      obtain ⟨option, listed, same⟩ := admits.enumeration former before
      by_cases kept : option ∈ optionsMissing former options
      · have removed := told _ (List.mem_append_right _ (List.mem_map_of_mem kept))
        exact absurd removed RuleEngine.not_mild_option
      · simp only [optionsMissing, List.mem_filter, listed, true_and, Bool.not_eq_true',
          Bool.not_eq_false, List.any_eq_true] at kept
        obtain ⟨other, listed, equal⟩ := kept
        exact ⟨other, listed, Json.equivalent_trans equal same⟩

theorem counts_kept (count : keyword ∈ Keyword.counts)
    (ho : ∀ limit, old.valueOf keyword = some limit → limit.IsCount)
    (hn : ∀ limit, new.valueOf keyword = some limit → limit.IsCount) (limit : Json) (size : Nat)
    (found : new.valueOf keyword = some limit) (measured : keyword.measure? value = some size) :
    keyword.admitsSize size limit = true := by
  obtain ⟨before, held, kept⟩ := count_of_mild mild count ho hn
    (considers_of_admits mild admits (Keyword.family?_of_measure? measured)) found
  exact kept size (admits.counts keyword count before size held measured)

theorem uniqueItems_kept (found : new.uniqueItems = true) : value.hasUniqueElements = true := by
  cases value with
  | array elements =>
      have told : new.valueOf .uniqueItems = some (.bool true) :=
        congrArg (fun flag => some (Json.bool flag)) found
      obtain ⟨before, held, moved⟩ := value_of_mild mild (.inl (by decide)) rfl rfl
        (considers_of_admits mild admits rfl) told
      cases held
      rcases moved with same | moved
      · exact admits.uniqueItems (by simpa [Json.equivalent, Json.same] using same)
      · exact absurd moved (RuleEngine.not_mild_flag (.inr rfl))
  | _ => rfl

theorem admitsAlone_of_mild
    (ho : ∀ keyword ∈ Keyword.counts, ∀ limit, old.valueOf keyword = some limit → limit.IsCount)
    (hn : ∀ keyword ∈ Keyword.counts, ∀ limit, new.valueOf keyword = some limit → limit.IsCount) :
    new.AdmitsAlone value where
  types := types_kept mild admits
  enumeration := enumeration_kept mild admits
  counts := fun keyword count =>
    counts_kept mild admits count (ho keyword count) (hn keyword count)
  uniqueItems := uniqueItems_kept mild admits

end Values

section Places

variable {place nested : Path} {keyword : Keyword} {x y : SubSchema}

theorem eq_false_of_openness? {schema : Json} {level : Nat} (h : openness? schema = some level)
    (closed : level ≤ 0) : schema = .bool false := by
  unfold openness? at h
  split at h <;> cases h <;> first | rfl | omega

theorem eq_true_of_openness? {schema : Json} {level : Nat} (h : openness? schema = some level)
    (full : 2 ≤ level) : schema = .bool true := by
  unfold openness? at h
  split at h <;> cases h <;> first | rfl | omega

theorem validates_of_modified {a b : Json}
    (listed : keyword ∈ Keyword.places)
    (mild : engine.Mild (.modified place keyword a b))
    (boolean : a.bool?.isSome = true ∨ b.bool?.isSome = true) (valid : a.validates value = true) :
    b.validates value = true := by
  obtain ⟨before, after, ho, hn, opened⟩ := RuleEngine.openness_le_of_mild listed mild
  rcases boolean with isBool | isBool
  · cases a with
    | bool allowed =>
        rw [Json.validates] at valid
        subst valid
        cases ho
        rw [eq_true_of_openness? hn opened, Json.validates]
    | _ => cases isBool
  · cases b with
    | bool allowed =>
        cases allowed with
        | true => rw [Json.validates]
        | false =>
            cases hn
            rwa [eq_false_of_openness? ho opened] at valid
    | _ => cases isBool

theorem validates_of_slot (listed : keyword ∈ Keyword.places)
    (mild : Settled engine.Mild Node.Keeps (slotFindings place nested keyword x y))
    (valid : x.toJson.validates value = true) : y.toJson.validates value = true := by
  rcases x with a | a <;> rcases y with b | b <;> simp only [slotFindings] at mild
  · split at mild
    · rename_i same
      exact same ▸ valid
    · exact validates_of_modified listed (settled_cons.mp mild).1 (.inl rfl) valid
  · exact validates_of_modified listed (settled_cons.mp mild).1 (.inl rfl) valid
  · exact validates_of_modified listed (settled_cons.mp mild).1 (.inr rfl) valid
  · exact (settled_cons.mp mild).1 value valid

end Places

section Levels

theorem family?_of_mem_elements {e : Json} (h : e ∈ value.elements) :
    value.kind.family? = some .array := by
  cases value <;> first | rfl | simp [Json.elements, Json.elements?] at h

variable (mild : Settled engine.Mild Node.Keeps (findings old new))

include mild

theorem elements_of_mild (compared : Compared old new .array) :
    Settled engine.Mild Node.Keeps (elementFindings old new) := by
  obtain ⟨sameTypes, applied⟩ := compared_iff.mp compared
  rw [findings, if_neg sameTypes] at mild
  simp only [familyFindings, settled_append, if_pos applied] at mild
  exact mild.2.1.1.2

theorem members_of_mild (compared : Compared old new .object) :
    Settled engine.Mild Node.Keeps (memberFindings old new) := by
  obtain ⟨sameTypes, applied⟩ := compared_iff.mp compared
  rw [findings, if_neg sameTypes] at mild
  simp only [familyFindings, settled_append, if_pos applied] at mild
  exact mild.2.2

/-- One schema for further elements, unless it lets all pass, was one before too, and lets pass what
that did. -/
theorem items_of_mild (compared : Compared old new .array)
    (single : ∀ slots, old.items ≠ some (.tuple slots)) {sub : SubSchema}
    (found : new.effectiveItems = some (.single sub)) :
    ∃ former, old.items = some (.single former) ∧
      ∀ value, former.toJson.validates value = true → sub.toJson.validates value = true := by
  have told := elements_of_mild mild compared
  simp only [elementFindings, settled_append, found] at told
  replace told := told.1.1
  cases before : old.effectiveItems with
  | none =>
      rw [before] at told
      exact absurd (settled_cons.mp told).1 (RuleEngine.not_mild_added rfl rfl)
  | some items =>
      rw [before] at told
      obtain ⟨same, _⟩ := effective_eq_some_iff.mp before
      cases items with
      | tuple slots => exact absurd same (single slots)
      | single former => exact ⟨former, same, fun _ => validates_of_slot (by decide) told⟩

theorem items_kept (ho : old.Plain) (admits : old.Admits value) (sub : SubSchema)
    (found : new.items = some (.single sub)) (e : Json) (listed : e ∈ value.elements) :
    sub.toJson.validates e = true := by
  by_cases full : sub = .flag true
  · rw [full, SubSchema.toJson, Json.validates]
  have after : new.effectiveItems = some (.single sub) :=
    effective_eq_some_iff.mpr ⟨found, fun same => full (Items.single.inj same)⟩
  obtain ⟨former, before, kept⟩ := items_of_mild mild
    (compared_of_admits mild admits.toAdmitsAlone (family?_of_mem_elements listed)) ho.items after
  exact kept e (admits.items former before e listed)

end Levels

section Members

variable {name : String} (told : Settled engine.Mild Node.Keeps (memberFindings old new))

theorem extraProperties_eq_notAllowed_iff {node : Node} :
    node.extraProperties = .notAllowed ↔ node.additionalProperties = .flag false := by
  unfold Node.extraProperties
  split <;> simp [*]

include told

/-- A property of the new side was one of the old side, or it is optional and came where no other
one was allowed. -/
theorem property_of_mild {sub : SubSchema} (found : NameTable.get? name new.properties = some sub) :
    (∃ former, NameTable.get? name old.properties = some former ∧
      ∀ value, former.toJson.validates value = true → sub.toJson.validates value = true) ∨
    NameTable.has name old.properties = false ∧ name ∉ new.required ∧
      old.additionalProperties = .flag false := by
  simp only [memberFindings, settled_append, settled_flatMap] at told
  have here := told.1.1.1 (name, sub) (NameTable.mem_of_get? found)
  unfold propertyFindings at here
  cases before : NameTable.get? name old.properties with
  | some former =>
      rw [before] at here
      refine .inl ⟨former, rfl, ?_⟩
      intro value valid
      exact validates_of_slot (by decide) here valid
  | none =>
      rw [before] at here
      obtain ⟨optional, closed⟩ := RuleEngine.context_of_mild_added (settled_cons.mp here).1
      refine .inr ⟨?_, ?_, extraProperties_eq_notAllowed_iff.mp closed⟩
      · rw [NameTable.has, before]
        rfl
      · simpa using optional

/-- A property goes only where the new side lets other ones pass. -/
theorem open_of_removed (ho : NameTable.has name old.properties = true)
    (hn : NameTable.has name new.properties = false) :
    new.additionalProperties ≠ .flag false := by
  simp only [memberFindings, settled_append, settled_told, List.forall_mem_append] at told
  obtain ⟨former, found⟩ := Option.isSome_iff_exists.mp ho
  have removed : engine.Mild (.propertyRemoved ([] ++ [.property name]) former.toJson
      { required := old.required.contains name
        additionalProperties := new.extraProperties }) := by
    refine told.1.1.2.1 _ (List.mem_map.mpr ⟨(name, former), ?_, rfl⟩)
    exact List.mem_filter.mpr ⟨NameTable.mem_of_get? found, by simp [hn]⟩
  intro closed
  apply RuleEngine.context_of_mild_removed removed
  exact extraProperties_eq_notAllowed_iff.mpr closed

theorem required_of_mild (property : NameTable.has name new.properties = true)
    (needed : name ∈ new.required) : name ∈ old.required := by
  by_contra optional
  cases before : NameTable.has name old.properties with
  | false =>
      obtain ⟨sub, found⟩ := Option.isSome_iff_exists.mp property
      rcases property_of_mild told found with ⟨former, held, _⟩ | ⟨_, optional, _⟩
      · simp [NameTable.has, held] at before
      · exact optional needed
  | true =>
      simp only [memberFindings, settled_append, settled_told, List.forall_mem_append] at told
      have flip : engine.Mild (.modified ([] ++ [.property name]) .required (.bool false)
          (.bool true)) := by
        refine told.1.1.2.2 _ (List.mem_map.mpr ⟨name, ?_, ?_⟩)
        · simp [mem_requiredFlips, optional, needed, before, property]
        · simp [needed]
      exact RuleEngine.not_mild_flag (.inl rfl) flip

theorem dependency_of_mild {pair : String × String}
    (listed : pair ∈ dependentPairs new.dependentRequired) :
    pair ∈ dependentPairs old.dependentRequired := by
  by_contra absent
  simp only [memberFindings, settled_append, settled_told] at told
  have added : engine.Mild (.memberAdded [] .dependentRequired
      (.object [(pair.1, .string pair.2)])) := by
    refine told.2 _ (List.mem_append_left _ (List.mem_map.mpr ⟨pair, ?_, rfl⟩))
    simp [listed, absent]
  exact RuleEngine.not_mild_memberAdded (by decide) added

theorem additionalProperties_of_mild
    (valid : old.additionalProperties.toJson.validates value = true) :
    new.additionalProperties.toJson.validates value = true := by
  simp only [memberFindings, settled_append] at told
  exact validates_of_slot (by decide) told.1.2 valid

end Members

section Objects

theorem mem_members_of_member? {name : String} {inner : Json}
    (h : value.member? name = some inner) :
    (name, inner) ∈ value.members := by
  cases value with
  | object members => exact NameTable.mem_of_get? h
  | _ => cases h

theorem family?_of_mem_members {member : String × Json} (h : member ∈ value.members) :
    value.kind.family? = some .object := by
  cases value <;> first | rfl | simp [Json.members, Json.members?] at h

variable (told : Settled engine.Mild Node.Keeps (memberFindings old new))
  (admits : old.Admits value)

include told admits

theorem properties_kept {name : String} {sub : SubSchema}
    (found : NameTable.get? name new.properties = some sub) {inner : Json}
    (present : value.member? name = some inner) : sub.toJson.validates inner = true := by
  rcases property_of_mild told found with ⟨former, held, kept⟩ | ⟨absent, _, closed⟩
  · exact kept inner (admits.properties name former held inner present)
  · -- The old side lets no such member pass, so that the value does not have one.
    rcases admits.additionalProperties _ (mem_members_of_member? present) with listed | valid
    · cases absent.symm.trans listed
    · rw [closed, SubSchema.toJson, Json.validates] at valid
      cases valid

theorem additionalProperties_kept (plain : new.Plain) {member : String × Json}
    (listed : member ∈ value.members) : NameTable.has member.1 new.properties = true ∨
      new.additionalProperties.toJson.validates member.2 = true := by
  rcases admits.additionalProperties member listed with before | valid
  · cases after : NameTable.has member.1 new.properties with
    | true => exact .inl rfl
    | false =>
        obtain ⟨allowed, same⟩ := plain.additionalProperties
        cases allowed with
        | true => exact .inr (by rw [same, SubSchema.toJson, Json.validates])
        | false => exact absurd same (open_of_removed told before after)
  · exact .inr (additionalProperties_of_mild told valid)

end Objects

/-- One level: where every change is mild and the schemas below keep what they admit, so does the
schema. -/
theorem admits_of_mild (mild : Settled engine.Mild Node.Keeps (findings old new)) (ho : old.Plain)
    (hn : new.Plain) (properties : ∀ name ∈ new.required, NameTable.has name new.properties = true)
    (admits : old.Admits value) : new.Admits value := by
  have alone := admits.toAdmitsAlone
  have told (isObject : value.kind.family? = some .object) :
      Settled engine.Mild Node.Keeps (memberFindings old new) :=
    members_of_mild mild (compared_of_admits mild alone isObject)
  exact {
    toAdmitsAlone := admitsAlone_of_mild mild alone ho.counts hn.counts
    items := items_kept mild ho admits
    properties := fun name sub found inner present => properties_kept
      (told (family?_of_mem_members (mem_members_of_member? present))) admits found present
    required := by
      intro isObject name needed
      have told := told (by cases value <;> first | rfl | cases isObject)
      exact admits.required isObject name
        (required_of_mild told (properties name needed) needed)
    additionalProperties := fun member listed =>
      additionalProperties_kept (told (family?_of_mem_members listed)) admits hn listed
    dependentRequired := by
      intro pair listed present
      obtain ⟨inner, found⟩ := Option.isSome_iff_exists.mp present
      have told := told (family?_of_mem_members (mem_members_of_member? found))
      exact admits.dependentRequired pair (dependency_of_mild told listed) present }

/-- Where every change is mild, the new schema keeps what the old one admits, all the way down. -/
theorem keeps_of_mild (ho : old.Accepted) (hn : new.Accepted)
    (po : old.source.Everywhere Json.IsPlain) (pn : new.source.Everywhere Json.IsPlain)
    (listed : new.source.Everywhere Json.ListsRequired)
    (mild : ∀ change ∈ old.diff new, engine.Mild change) : old.Keeps new := by
  induction old, new using joint_induction with
  | step old new ih =>
      obtain ⟨before, readOld⟩ := Node.ReadFrom.of_accepted ho
      obtain ⟨after, readNew⟩ := Node.ReadFrom.of_accepted hn
      have below : Settled engine.Mild Node.Keeps (findings old new) := by
        intro finding found
        have fits := (forall_diff_iff RuleEngine.mild_under).mp mild finding found
        cases finding with
        | change told => exact fits
        | descent steps a b =>
            obtain ⟨ha, hb⟩ := (descends_of_mem_findings found).below
            exact ih steps a b found (ho.below ha) (hn.below hb) (ho.everywhere_below ha po)
              (hn.everywhere_below hb pn) (hn.everywhere_below hb listed) fits
      rw [readOld.source] at po
      rw [readNew.source] at pn listed
      have plainOld := po before (.here _)
      have plainNew := pn after (.here _)
      intro value valid
      rw [readOld.source, readOld.validates_iff_admits_of_plain plainOld] at valid
      rw [readNew.source, readNew.validates_iff_admits_of_plain plainNew]
      exact admits_of_mild below (readOld.plain plainOld) (readNew.plain plainNew)
        (readNew.required_listed (listed after (.here _))) valid

end Diff

/-- Between plain documents, of which the new one lists what it requires, a release that is an
addition at most keeps every value valid, whatever the version. -/
theorem validates_of_compare {engine : RuleEngine} {old new : Json} {current : Version}
    {release : Release} (ho : old.Distinct) (hn : new.Distinct) (po : old.Everywhere Json.IsPlain)
    (pn : new.Everywhere Json.IsPlain) (listed : new.Everywhere Json.ListsRequired)
    (compared : Release.compare engine old new current = .ok release)
    (mild : release.severity = .none ∨ release.severity = .addition) (value : Json)
    (valid : old.validates value = true) : new.validates value = true := by
  obtain ⟨before, after, decodedOld, decodedNew, mild⟩ := Release.mild_of_compare compared mild
  have acceptedOld := Node.accepted_of_decode ho decodedOld
  have acceptedNew := Node.accepted_of_decode hn decodedNew
  have sourceOld := Node.source_of_decode decodedOld
  have sourceNew := Node.source_of_decode decodedNew
  subst sourceOld sourceNew
  exact Diff.keeps_of_mild acceptedOld acceptedNew po pn listed mild value valid

def person (limit : UInt64) (others : List (String × Json)) : Json :=
  .object
    [("properties",
        .object (("name", .object [("maxLength", .number (.ofCount limit))]) :: others)),
      ("required", .array [.string "name"]),
      ("additionalProperties", .bool false)]

theorem everywhere_person {P : List (String × Json) → Prop} {limit : UInt64}
    {others : List (String × Json)} (flags : ∀ entry ∈ others, entry.2 = .bool true)
    (here : ∀ members, person limit others = .object members → P members)
    (name : P [("maxLength", .number (.ofCount limit))]) : (person limit others).Everywhere P := by
  have none : ∀ inner ∈ ([] : List Json), inner.Everywhere P := List.forall_mem_nil _
  refine Json.everywhere_object_iff.mpr ⟨here _ rfl, List.forall_mem_cons.mpr ⟨?properties,
    List.forall_mem_cons.mpr ⟨none, List.forall_mem_cons.mpr ⟨?additional, List.forall_mem_nil _⟩⟩⟩⟩
  case properties =>
    refine List.forall_mem_cons.mpr ⟨?_, fun inner listed => ?_⟩
    · exact Json.everywhere_object_iff.mpr
        ⟨name, List.forall_mem_cons.mpr ⟨none, List.forall_mem_nil _⟩⟩
    · obtain ⟨entry, member, rfl⟩ := List.mem_map.mp listed
      rw [flags entry member]
      exact Json.everywhere_bool _
  case additional => exact List.forall_mem_cons.mpr ⟨Json.everywhere_bool _, none⟩

/-- A name may be longer and an age may be told: whoever was valid stays so. -/
theorem validates_of_compare_person :
    ∃ release, Release.compare { patterns := fun _ _ => none } (person 3 [])
        (person 5 [("age", .bool true)]) ⟨1, 0, 0⟩ = .ok release ∧
      release.severity = .addition ∧
      (person 5 [("age", .bool true)]).validates (.object [("name", .string "Ada")]) = true := by
  have outcome : ((Release.compare { patterns := fun _ _ => none } (person 3 [])
      (person 5 [("age", .bool true)]) ⟨1, 0, 0⟩).toOption.any fun release =>
        release.severity == .addition) = true := by
    decide +kernel
  cases compared : Release.compare { patterns := fun _ _ => none } (person 3 [])
      (person 5 [("age", .bool true)]) ⟨1, 0, 0⟩ with
  | error _ =>
      rw [compared] at outcome
      cases outcome
  | ok release =>
      rw [compared] at outcome
      have severity := beq_iff_eq.mp outcome
      refine ⟨release, rfl, severity, ?_⟩
      refine validates_of_compare ?_ ?_ ?old ?new ?listed compared (.inr severity) _ ?valid
      case old => exact everywhere_person (by simp) (by rintro _ ⟨⟩; decide) (by decide)
      case new | listed =>
        exact everywhere_person (by simp) (by rintro _ ⟨⟩; decide) (by decide)
      case valid => decide +kernel
      all_goals decide

end SchemaEvolution
