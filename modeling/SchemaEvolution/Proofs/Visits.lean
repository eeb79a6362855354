import Mathlib
import SchemaEvolution.Proofs.Regions

/-! # Changes of keywords with one value

A keyword that is compared as one value is told exactly where the walk comes to two schemas, and
compares the keyword there, and finds two values that are not equivalent, or one on one side only.
-/

namespace SchemaEvolution

namespace Keyword

/-- The keyword is compared as one value: it describes, or it is the type, the format or a scalar of
some family, or it is not recognized. -/
def IsScalar (keyword : Keyword) : Prop :=
  keyword ∈ metadata ++ [.type, .format] ++ numericScalars ++ stringScalars ++ arrayScalars ++
      objectScalars ∨
    ∃ name, keyword = .other name

/-- The keywords that hold several things at once. -/
def compound : List Keyword :=
  [.enum, .items, .prefixItems, .contains, .properties, .required, .additionalProperties,
    .dependentRequired]

theorem isScalar_iff (keyword : Keyword) : keyword.IsScalar ↔ keyword ∉ compound := by
  cases keyword <;>
    simp [IsScalar, compound, metadata, numericScalars, stringScalars, arrayScalars, objectScalars]

end Keyword

namespace Change

/-- A keyword whose value turned into another, where either may be missing. -/
def turned (path : Path) (keyword : Keyword) (old new : Option Json) : Change where
  path := path
  kind :=
    match old, new with
    | none, _ => .added
    | some _, none => .removed
    | some _, some _ => .modified
  keyword := keyword
  oldValue := old
  newValue := new

@[simp] theorem keyword_under (steps : Path) (change : Change) :
    (change.under steps).keyword = change.keyword := rfl

@[simp] theorem under_turned (steps path : Path) (keyword : Keyword) (old new : Option Json) :
    (turned path keyword old new).under steps = turned (steps ++ path) keyword old new := rfl

end Change

namespace Diff

/-- One side alone has a value, or both have values that are not equivalent. -/
def Differs : Option Json → Option Json → Prop
  | none, none => False
  | some a, some b => a.equivalent b = false
  | _, _ => True

theorem mem_ofValues {change : Change} {path : Path} {keyword : Keyword} {old new : Option Json} :
    change ∈ ofValues path keyword old new ↔
      Differs old new ∧ change = .turned path keyword old new := by
  cases old with
  | none => cases new <;> simp [ofValues, Differs, Change.turned, Change.added]
  | some a =>
      cases new with
      | none => simp [ofValues, Differs, Change.turned, Change.removed]
      | some b =>
          cases same : a.equivalent b <;>
            simp [ofValues, Differs, Change.turned, Change.modified, same]

section OneLevel

variable {old new : Node} {change : Change}

theorem change_mem_told {changes : List Change} :
    .change change ∈ told changes ↔ change ∈ changes := by
  simp [told]

theorem mem_scalar {path : Path} {old new : Facets} (keyword : Keyword) :
    change ∈ scalar path old new keyword ↔
      change.keyword = keyword ∧ change ∈ scalar path old new change.keyword := by
  constructor
  · intro member
    obtain ⟨_, rfl⟩ := mem_ofValues.mp member
    exact ⟨rfl, member⟩
  · rintro ⟨same, member⟩
    exact same ▸ member

theorem mem_scalars {path : Path} {old new : Facets} {keywords : List Keyword} :
    change ∈ scalars path old new keywords ↔
      change.keyword ∈ keywords ∧ change ∈ scalar path old new change.keyword := by
  simp only [scalars, List.mem_flatMap]
  constructor
  · rintro ⟨keyword, listed, member⟩
    obtain ⟨same, member⟩ := (mem_scalar keyword).mp member
    exact ⟨same ▸ listed, member⟩
  · rintro ⟨listed, member⟩
    exact ⟨_, listed, member⟩

theorem mem_extensions {path : Path} {old new : Facets} :
    change ∈ extensions path old new ↔
      (∃ name, change.keyword = .other name) ∧ change ∈ scalar path old new change.keyword := by
  rw [extensions, mem_scalars]
  apply and_congr_left
  intro member
  constructor
  · intro listed
    obtain ⟨name, _, same⟩ := List.mem_map.mp listed
    exact ⟨name, same.symm⟩
  · rintro ⟨name, same⟩
    refine List.mem_map.mpr ⟨name, ?_, same.symm⟩
    rw [NameSet.mem_ofList, List.mem_append]
    by_contra absent
    obtain ⟨before, after⟩ := not_or.mp absent
    rw [same, scalar, Facets.valueOf, Facets.valueOf, NameTable.get?_eq_none_iff.mpr before,
      NameTable.get?_eq_none_iff.mpr after] at member
    cases member

theorem spot_of_mem_enumeration {path : Path} {old new : Option (List Json)}
    (member : change ∈ enumeration path old new) : change.spot = (path, .enum) := by
  cases old <;> cases new <;> simp only [enumeration, List.mem_append, List.mem_map] at member
  · cases member
  · cases List.mem_singleton.mp member; rfl
  · cases List.mem_singleton.mp member; rfl
  · rcases member with ⟨_, _, rfl⟩ | ⟨_, _, rfl⟩ <;> rfl

theorem keyword_of_mem_enumeration {path : Path} {old new : Option (List Json)}
    (member : change ∈ enumeration path old new) : change.keyword = .enum :=
  congrArg Prod.snd (spot_of_mem_enumeration member)

theorem keyword_of_mem_slotFindings {place nested : Path} {keyword : Keyword} {a b : SubSchema}
    (member : .change change ∈ slotFindings place nested keyword a b) :
    change.keyword = keyword := by
  rcases a with p | a <;> rcases b with q | b <;> simp only [slotFindings] at member
  · split at member
    · cases member
    · cases List.mem_singleton.mp member; rfl
  · cases List.mem_singleton.mp member; rfl
  · cases List.mem_singleton.mp member; rfl
  · cases List.mem_singleton.mp member

theorem keyword_of_mem_positionFindings {base : Path} {keyword : Keyword} {index : Nat}
    {as bs : List SubSchema}
    (member : .change change ∈ positionFindings base keyword index as bs) :
    change.keyword = keyword := by
  induction bs generalizing as index with
  | nil =>
      rw [positionFindings, change_mem_told] at member
      induction as generalizing index with
      | nil => cases member
      | cons a as ih =>
          rcases List.mem_cons.mp member with rfl | member
          · rfl
          · exact ih member
  | cons b bs ih =>
      cases as with
      | nil =>
          rcases List.mem_cons.mp member with same | member
          · cases same; rfl
          · exact ih member
      | cons a as =>
          rcases List.mem_append.mp member with member | member
          · exact keyword_of_mem_slotFindings member
          · exact ih member

theorem keyword_of_mem_optionFindings {α : Type} {keyword : Keyword} {toJson : α → Json}
    {both : α → α → List Finding} {a b : Option α}
    (inner : ∀ a b, .change change ∈ both a b → change.keyword = keyword)
    (member : .change change ∈ optionFindings keyword toJson both a b) :
    change.keyword = keyword := by
  cases a <;> cases b <;> simp only [optionFindings] at member
  · cases member
  · cases List.mem_singleton.mp member; rfl
  · cases List.mem_singleton.mp member; rfl
  · exact inner _ _ member

theorem keyword_of_mem_itemsFindings {a b : Items}
    (member : .change change ∈ itemsFindings a b) : change.keyword = .items := by
  rcases a with a | as <;> rcases b with b | bs <;> simp only [itemsFindings] at member
  · exact keyword_of_mem_slotFindings member
  · cases List.mem_singleton.mp member; rfl
  · cases List.mem_singleton.mp member; rfl
  · exact keyword_of_mem_positionFindings member

theorem keyword_of_mem_elementFindings (member : .change change ∈ elementFindings old new) :
    change.keyword ∈ [Keyword.items, .prefixItems, .contains] := by
  simp only [elementFindings, List.mem_append] at member
  rcases member with (member | member) | member
  · simp [keyword_of_mem_optionFindings (fun _ _ => keyword_of_mem_itemsFindings) member]
  · simp [keyword_of_mem_optionFindings (fun _ _ => keyword_of_mem_positionFindings) member]
  · simp [keyword_of_mem_optionFindings (fun _ _ => keyword_of_mem_slotFindings) member]

theorem keyword_of_mem_propertyFindings {entry : String × SubSchema}
    (member : .change change ∈ propertyFindings old new entry) : change.keyword = .properties := by
  unfold propertyFindings at member
  split at member
  · exact keyword_of_mem_slotFindings member
  · cases List.mem_singleton.mp member; rfl

theorem keyword_of_mem_memberFindings (member : .change change ∈ memberFindings old new) :
    change.keyword ∈
      [Keyword.properties, .required, .additionalProperties, .dependentRequired] := by
  simp only [memberFindings, List.mem_append, List.mem_flatMap, change_mem_told] at member
  rcases member with ((⟨entry, _, member⟩ | member | member) | member) | member
  · simp [keyword_of_mem_propertyFindings member]
  · obtain ⟨_, _, rfl⟩ := List.mem_map.mp member
    exact List.mem_cons_self
  · obtain ⟨_, _, rfl⟩ := List.mem_map.mp member
    simp [Change.modified]
  · simp [keyword_of_mem_slotFindings member]
  · simp only [dependentRequired, List.mem_append, List.mem_map] at member
    rcases member with ⟨_, _, rfl⟩ | ⟨_, _, rfl⟩ <;>
      simp [Change.memberAdded, Change.memberRemoved, Change.added, Change.removed]

theorem mem_family {path : Path} {old new : Facets} {kind : Family} {keywords : List Keyword} :
    change ∈ family path old new kind keywords ↔
      applies old new kind = true ∧ change.keyword ∈ keywords ∧
        change ∈ scalar path old new change.keyword := by
  unfold family
  split <;> simp [*, mem_scalars]

theorem mem_shared {path : Path} {old new : Facets} (scalar : change.keyword.IsScalar) :
    change ∈ shared path old new ↔
      (change.keyword ∈ Keyword.metadata ++ [.type, .format] ∨
        ∃ name, change.keyword = .other name) ∧
        change ∈ Diff.scalar path old new change.keyword := by
  have options : change ∉ enumeration path old.enumeration new.enumeration := fun member => by
    rw [Keyword.isScalar_iff, keyword_of_mem_enumeration member] at scalar
    exact scalar List.mem_cons_self
  simp only [shared, List.mem_append, mem_scalars, mem_extensions, options, or_false,
    List.mem_cons, List.not_mem_nil]
  rw [mem_scalar .type, mem_scalar .format]
  tauto

/-- The walk compares a keyword at two schemas: one of a family of constraints if it compares the
family, any other one always. -/
def Considers (old new : Node) (keyword : Keyword) : Prop :=
  ∀ kind ∈ [Family.numeric, .string, .array, .object], keyword.family? = some kind →
    Compared old new kind

/-- Of the findings at two schemas, those of a scalar keyword are its one change, if any. -/
theorem change_mem_findings (scalar : change.keyword.IsScalar) :
    .change change ∈ findings old new ↔
      Considers old new change.keyword ∧
        change ∈ Diff.scalar [] old.toFacets new.toFacets change.keyword := by
  have compound : change.keyword ∉ Keyword.compound := (Keyword.isScalar_iff _).mp scalar
  have elements : .change change ∉ elementFindings old new := fun member =>
    compound ((show [Keyword.items, .prefixItems, .contains] ⊆ Keyword.compound by decide)
      (keyword_of_mem_elementFindings member))
  have members : .change change ∉ memberFindings old new := fun member =>
    compound ((show [Keyword.properties, .required, .additionalProperties, .dependentRequired] ⊆
      Keyword.compound by decide) (keyword_of_mem_memberFindings member))
  simp only [findings, familyFindings, List.mem_append, List.mem_ite_nil_left,
    List.mem_ite_nil_right, change_mem_told, mem_shared scalar, mem_family, elements, members,
    Considers, compared_iff, and_false, or_false]
  generalize (change ∈ Diff.scalar [] old.toFacets new.toFacets change.keyword) = told
  generalize change.keyword = keyword at compound ⊢
  cases keyword <;>
    simp [Keyword.compound, Keyword.family?, Keyword.metadata, Keyword.numericScalars,
      Keyword.stringScalars, Keyword.arrayScalars, Keyword.objectScalars, and_assoc] at compound ⊢

end OneLevel

theorem flatMap_eq_of_once {α β : Type} {f : α → List β} {list : List α} {a : α}
    (once : list.Pairwise fun b c => b = a → c ≠ a) (member : a ∈ list)
    (others : ∀ b ∈ list, b ≠ a → f b = []) : list.flatMap f = f a := by
  obtain ⟨before, after, rfl⟩ := List.append_of_mem member
  obtain ⟨_, later, earlier⟩ := List.pairwise_append.mp once
  have first : before.flatMap f = [] := by
    refine List.flatMap_eq_nil_iff.mpr fun b listed => others b (List.mem_append_left _ listed) ?_
    rintro rfl
    exact earlier b listed b List.mem_cons_self rfl rfl
  have last : after.flatMap f = [] := by
    refine List.flatMap_eq_nil_iff.mpr fun b listed => others b ?_ ?_
    · exact List.mem_append_right _ (List.mem_cons_of_mem _ listed)
    · exact (List.pairwise_cons.mp later).1 b listed rfl
  rw [List.flatMap_append, List.flatMap_cons, first, last, List.nil_append, List.append_nil]

theorem flatMap_findings_of_descent {old new a b : Node} {steps : Path} {β : Type}
    {f : Finding → List β} (ho : (NameTable.names old.properties).Nodup)
    (hn : (NameTable.names new.properties).Nodup)
    (found : .descent steps a b ∈ findings old new)
    (others : ∀ finding ∈ findings old new, finding ≠ .descent steps a b → f finding = []) :
    (findings old new).flatMap f = f (.descent steps a b) := by
  refine flatMap_eq_of_once ?_ found others
  refine (List.pairwise_filterMap.mp (separate_findings ho hn).nodup).imp ?_
  rintro first second apart rfl rfl
  exact apart _ rfl _ rfl rfl

/-- The walk over two schemas comes to two schemas further down, by the same path on both sides. -/
inductive Visits : Node → Node → Path → Node → Node → Prop where
  | here (old new : Node) : Visits old new [] old new
  | further {old new a b x y : Node} {steps path : Path} (step : Descends old new steps a b)
      (rest : Visits a b path x y) : Visits old new (steps ++ path) x y

section Walk

variable {old new x y : Node} {path : Path} {change told : Change}

theorem Visits.once {steps : Path} (step : Descends old new steps x y) :
    Visits old new steps x y := by
  simpa using Visits.further step (.here x y)

theorem Visits.accepted (visits : Visits old new path x y) (ho : old.Accepted)
    (hn : new.Accepted) : x.Accepted ∧ y.Accepted := by
  induction visits with
  | here => exact ⟨ho, hn⟩
  | further step rest ih => exact ih (ho.below step.below.1) (hn.below step.below.2)

theorem told_mem_diff (found : .change change ∈ findings old new) : change ∈ old.diff new := by
  rw [diff_eq_findings]
  exact List.mem_flatMap.mpr ⟨_, found, List.mem_singleton.mpr rfl⟩

/-- What is told at two schemas that the walk comes to is a change. -/
theorem Visits.under_mem_diff (visits : Visits old new path x y) (accepted : old.Accepted)
    (found : .change told ∈ findings x y) : told.under path ∈ old.diff new := by
  induction visits with
  | here => exact told_mem_diff found
  | further step rest ih =>
      rw [diff_eq_findings]
      have listed := mem_findings_of_descends accepted.properties_ordered.nodup step
      have below := ih (accepted.below step.below.1) found
      exact List.mem_flatMap.mpr ⟨_, listed, List.mem_map.mpr ⟨_, below, Change.under_under ..⟩⟩

/-- Every change is told at two schemas that the walk comes to. -/
theorem told_of_mem_diff (member : change ∈ old.diff new) :
    ∃ path x y told, Visits old new path x y ∧ .change told ∈ findings x y ∧
      change = told.under path := by
  induction old, new using joint_induction generalizing change with
  | step old new ih =>
      rw [diff_eq_findings] at member
      obtain ⟨finding, found, member⟩ := List.mem_flatMap.mp member
      cases finding with
      | change told =>
          cases List.mem_singleton.mp member
          exact ⟨[], old, new, change, .here old new, found, rfl⟩
      | descent steps a b =>
          obtain ⟨inner, below, rfl⟩ := List.mem_map.mp member
          obtain ⟨path, x, y, told, visits, here, rfl⟩ := ih steps a b found below
          refine ⟨steps ++ path, x, y, told, ?_, here, Change.under_under steps path told⟩
          exact .further (descends_of_mem_findings found) visits

theorem turned_mem_diff (visits : Visits old new path x y) (accepted : old.Accepted)
    {keyword : Keyword} (scalar : keyword.IsScalar) (considered : Considers x y keyword)
    (differs : Differs (x.valueOf keyword) (y.valueOf keyword)) :
    .turned path keyword (x.valueOf keyword) (y.valueOf keyword) ∈ old.diff new := by
  have told : .change (.turned [] keyword (x.valueOf keyword) (y.valueOf keyword)) ∈
      findings x y :=
    (change_mem_findings scalar).mpr ⟨considered, mem_ofValues.mpr ⟨differs, rfl⟩⟩
  simpa using visits.under_mem_diff accepted told

theorem visits_of_mem_diff (member : change ∈ old.diff new) (scalar : change.keyword.IsScalar) :
    ∃ x y, Visits old new change.path x y ∧ Considers x y change.keyword ∧
      Differs (x.valueOf change.keyword) (y.valueOf change.keyword) ∧
      change = .turned change.path change.keyword (x.valueOf change.keyword)
        (y.valueOf change.keyword) := by
  obtain ⟨path, x, y, told, visits, found, rfl⟩ := told_of_mem_diff member
  obtain ⟨considered, found⟩ := (@change_mem_findings x y told scalar).mp found
  obtain ⟨differs, same⟩ := mem_ofValues.mp found
  have root : told.path = [] := congrArg Change.path same
  have place : (told.under path).path = path := by simp [Change.under, root]
  rw [place]
  refine ⟨x, y, visits, considered, differs, ?_⟩
  exact (congrArg (Change.under path) same).trans (by simp)

theorem visits_iff :
    Visits old new path x y ↔ path = [] ∧ x = old ∧ y = new ∨
      ∃ steps rest a b, path = steps ++ rest ∧ Descends old new steps a b ∧ Visits a b rest x y := by
  constructor
  · rintro (_ | ⟨step, rest⟩)
    · exact .inl ⟨rfl, rfl, rfl⟩
    · exact .inr ⟨_, _, _, _, rfl, step, rest⟩
  · rintro (⟨rfl, rfl, rfl⟩ | ⟨_, _, _, _, rfl, step, rest⟩)
    · exact .here _ _
    · exact .further step rest

/-- From one schema, a path decides its first steps and where they lead. -/
theorem leads_unique {node child child' : Node} {keyword keyword' : Keyword}
    {steps steps' rest rest' : Path} (distinct : (NameTable.names node.properties).Nodup)
    (leads : node.Leads keyword steps child) (leads' : node.Leads keyword' steps' child')
    (same : steps ++ rest = steps' ++ rest') : child = child' ∧ rest = rest' := by
  cases leads with
  | property listed =>
      cases leads' with
      | property listed' =>
          obtain ⟨rfl, rfl⟩ : _ = _ ∧ rest = rest' := by simpa using same
          rw [← NameTable.get?_eq_some_iff distinct] at listed listed'
          simpa [listed] using listed'
      | _ => simp at same
  | _ => cases leads' <;> simp_all

theorem leads_ne_nil {node child : Node} {keyword : Keyword} {steps : Path}
    (leads : node.Leads keyword steps child) : steps ≠ [] := by
  cases leads <;> simp

/-- A path decides the two schemas that the walk comes to by it. -/
theorem Visits.unique {x' y' : Node} (ho : old.Accepted) (hn : new.Accepted)
    (visits : Visits old new path x y) (visits' : Visits old new path x' y') :
    x = x' ∧ y = y' := by
  induction visits with
  | here old new =>
      rcases visits_iff.mp visits' with ⟨_, rfl, rfl⟩ | ⟨steps, rest, a, b, same, step, _⟩
      · exact ⟨rfl, rfl⟩
      · obtain ⟨_, _, _, _, leads, _⟩ := step
        exact absurd (List.append_eq_nil_iff.mp same.symm).1 (leads_ne_nil leads)
  | further step rest ih =>
      have inner := step.below
      obtain ⟨_, _, _, _, ha, hb⟩ := step
      rcases visits_iff.mp visits' with ⟨same, _, _⟩ | ⟨steps, rest', a, b, same, step', visits'⟩
      · exact absurd (List.append_eq_nil_iff.mp same).1 (leads_ne_nil ha)
      · obtain ⟨_, _, _, _, ha', hb'⟩ := step'
        obtain ⟨rfl, rfl⟩ := leads_unique ho.properties_ordered.nodup ha ha' same
        obtain ⟨rfl, _⟩ := leads_unique hn.properties_ordered.nodup hb hb' same
        exact ih (ho.below inner.1) (hn.below inner.2) visits'

end Walk

/-- A change of a whole keyword is the only one of its keyword at its path. -/
theorem filter_spot_eq_singleton {old new : Node} {change : Change} (ho : old.Accepted)
    (hn : new.Accepted) (member : change ∈ old.diff new) (whole : change.IsWhole) :
    ((old.diff new).filter fun other =>
      other.IsWhole ∧ other.path = change.path ∧ other.keyword = change.keyword) = [change] := by
  have distinct := nodup_spots ho hn
  rw [← List.perm_singleton, List.perm_ext_iff_of_nodup]
  · intro other
    simp only [List.mem_filter, List.mem_singleton, decide_eq_true_eq]
    constructor
    · rintro ⟨listed, also, path, keyword⟩
      exact List.inj_on_of_nodup_map distinct (by simp [*]) (by simp [*]) (Prod.ext path keyword)
    · rintro rfl
      exact ⟨member, whole, rfl, rfl⟩
  · refine (distinct.of_map _).sublist (List.monotone_filter_right _ fun other told => ?_)
    exact decide_eq_true (of_decide_eq_true told).1
  · exact List.nodup_singleton _

end Diff

/-- The changes of a keyword with one value, for any two documents that denote schemas. A path has
one exactly if the walk comes there to two schemas where it compares the keyword and where the
keyword's values differ, and then it has this one alone. The path decides the two schemas. -/
theorem diff_scalar {a b : Json} {old new : Node} (ha : a.Distinct) (hb : b.Distinct)
    (ho : Node.decode a = .ok old) (hn : Node.decode b = .ok new) (path : Path)
    {keyword : Keyword} (scalar : keyword.IsScalar) :
    (∀ x y x' y', Diff.Visits old new path x y → Diff.Visits old new path x' y' →
      x = x' ∧ y = y') ∧
    ((∃ change ∈ old.diff new,
        change.IsWhole ∧ change.path = path ∧ change.keyword = keyword) ↔
      ∃ x y, Diff.Visits old new path x y ∧ Diff.Considers x y keyword ∧
        Diff.Differs (x.valueOf keyword) (y.valueOf keyword)) ∧
    ∀ x y, Diff.Visits old new path x y → Diff.Considers x y keyword →
      Diff.Differs (x.valueOf keyword) (y.valueOf keyword) →
      ((old.diff new).filter fun change =>
        change.IsWhole ∧ change.path = path ∧ change.keyword = keyword) =
          [.turned path keyword (x.valueOf keyword) (y.valueOf keyword)] := by
  have ho := Node.accepted_of_decode ha ho
  have hn := Node.accepted_of_decode hb hn
  refine ⟨fun _ _ _ _ => Diff.Visits.unique ho hn, ⟨?_, ?_⟩, ?_⟩
  · rintro ⟨change, member, _, rfl, rfl⟩
    obtain ⟨x, y, visits, considered, differs, _⟩ := Diff.visits_of_mem_diff member scalar
    exact ⟨x, y, visits, considered, differs⟩
  · rintro ⟨x, y, visits, considered, differs⟩
    exact ⟨_, Diff.turned_mem_diff visits ho scalar considered differs, rfl, rfl, rfl⟩
  · intro x y visits considered differs
    exact Diff.filter_spot_eq_singleton ho hn
      (Diff.turned_mem_diff visits ho scalar considered differs) rfl

def limitedName (limit : UInt64) : Json :=
  .object [("properties", .object [("name", .object [("maxLength", .number (.ofCount limit))])])]

/-- A limit below the root is raised, and told there alone. -/
theorem diff_scalar_limit :
    ∃ old new, Node.decode (limitedName 3) = .ok old ∧ Node.decode (limitedName 5) = .ok new ∧
      ((old.diff new).filter fun change =>
        change.IsWhole ∧ change.path = [.property "name"] ∧ change.keyword = .maxLength) =
          [.modified [.property "name"] .maxLength (.number (.ofCount 3))
            (.number (.ofCount 5))] := by
  refine ⟨_, _, rfl, rfl, ?_⟩
  obtain ⟨_, _, alone⟩ := diff_scalar (a := limitedName 3) (b := limitedName 5) (by decide)
    (by decide) rfl rfl [.property "name"] (.inl (show Keyword.maxLength ∈ _ by decide))
  refine alone _ _ (.once ⟨.properties, .object, rfl, ⟨?_, .inl rfl⟩,
    .property List.mem_cons_self, .property List.mem_cons_self⟩) ?_ ?_
  · rintro _ _ ⟨⟩
  · rintro _ _ ⟨⟩
    refine ⟨?_, .inl rfl⟩
    rintro _ _ ⟨⟩
  · show Json.equivalent (.number (.ofCount 3)) (.number (.ofCount 5)) = false
    decide +kernel

end SchemaEvolution
