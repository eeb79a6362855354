import Mathlib
import SchemaEvolution.Proofs.EmptyDiff
import SchemaEvolution.Proofs.Verdicts

/-! # Schemas that no comparison can tell apart

Two comparisons end in the same verdict where, level by level, the old schemas say the same in every
family of keywords that the walk compares, and so do the new ones. Two schemas are twins if every
keyword says the same in both, whatever types they declare; a relation under which schemas are twins,
and the schemas below them in the relation again, is kept by both sides of a comparison at once.
-/

namespace SchemaEvolution

/-- Every keyword says the same in the two schemas, where schemas further down are in the
relation. -/
structure Node.Twin (R : Node → Node → Prop) (a b : Node) : Prop
    extends a.ElementsLike R b, a.MembersLike R b where
  types : a.types = b.types
  enumeration : Option.Rel Facets.SameOptions a.enumeration b.enumeration
  values : ∀ keyword, Json.Agree (a.valueOf keyword) (b.valueOf keyword)

namespace Node.Twin

variable {R : Node → Node → Prop} {a b : Node} (h : a.Twin R b)

include h

theorem format : a.format = b.format := by
  have format : Json.Agree (a.format.map .string) (b.format.map .string) := h.values .format
  generalize a.format = before, b.format = after at format
  cases before <;> cases after <;> cases format
  case none.none => rfl
  case some.some same => simpa [Json.equivalent, Json.same] using same

theorem alikeShared : a.toFacets.AlikeShared b.toFacets where
  types := by
    rw [h.types]
    exact optionRel_refl fun _ _ _ => Iff.rfl
  enumeration := h.enumeration
  format := h.format
  metadata keyword _ := h.values keyword
  extensions name := h.values (.other name)

theorem likeIn (kind : Family) : a.LikeIn R b kind := by
  cases kind with
  | core | metadata => trivial
  | numeric | string => exact fun keyword _ => h.values keyword
  | array => exact ⟨fun keyword _ => h.values keyword, h.toElementsLike⟩
  | object => exact ⟨fun keyword _ => h.values keyword, h.toMembersLike⟩

/-- Twins say the same as far as their types let a keyword constrain anything. -/
theorem like : a.Like R b where
  shared := h.alikeShared
  numeric _ keyword _ := h.values keyword
  string _ keyword _ := h.values keyword
  array _ keyword _ := h.values keyword
  items _ := h.items
  prefixItems _ := h.prefixItems
  contains _ := h.contains
  object _ keyword _ := h.values keyword
  properties _ := h.properties
  required _ := h.required
  additionalProperties _ := h.additionalProperties
  dependentRequired _ := h.dependentRequired

end Node.Twin

/-- The schemas that the relation holds between are accepted twins. -/
structure Node.Twins (R : Node → Node → Prop) : Prop where
  left : ∀ {a b}, R a b → a.Accepted
  right : ∀ {a b}, R a b → b.Accepted
  twin : ∀ {a b}, R a b → a.Twin R b

theorem Json.equivalent_congr {a a' b b' : Json} (ha : a.Distinct) (ha' : a'.Distinct)
    (hb : b.Distinct) (hb' : b'.Distinct) (old : a.equivalent a' = true)
    (new : b.equivalent b' = true) : a.equivalent b = a'.equivalent b' := by
  refine Bool.eq_iff_iff.mpr ⟨fun h => ?_, fun h => ?_⟩
  · exact equivalent_trans (equivalent_trans (equivalent_symm ha ha' old) h) new
  · exact equivalent_trans (equivalent_trans old h) (equivalent_symm hb hb' new)

/-- The rules cannot tell what the walk repeats of places that hold accepted schemas. -/
theorem Node.echoed_akin {R : Node → Node → Prop}
    (accepted : ∀ {a b}, R a b → a.Accepted ∧ b.Accepted) :
    Node.Echoed (fun _ => Json.Akin) R where
  schema _ like := by
    cases like with
    | flag allowed => exact .bool allowed
    | schema inner =>
        obtain ⟨members, read⟩ := Node.ReadFrom.of_accepted (accepted inner).1
        obtain ⟨members', read'⟩ := Node.ReadFrom.of_accepted (accepted inner).2
        rw [SubSchema.toJson, SubSchema.toJson, read.source, read'.source]
        exact .object _ _
  tuple _ _ := .array _ _
  position _ _ _ := .object _ _

/-- The two facets are regular and have the same value for the keyword. -/
structure Facets.AgreesOn (a b : Facets) (keyword : Keyword) : Prop where
  left : a.Regular
  right : b.Regular
  value : Json.Agree (a.valueOf keyword) (b.valueOf keyword)

/-- The keyword is compared as one value, whatever the types are. -/
def Keyword.IsShared (keyword : Keyword) : Prop :=
  keyword.family? ∈ [none, some .core, some .metadata]

instance (keyword : Keyword) : Decidable keyword.IsShared :=
  inferInstanceAs (Decidable (_ ∈ _))

theorem Facets.AlikeShared.agreesOn {a b : Facets} (h : a.AlikeShared b) (ha : a.Regular)
    (hb : b.Regular) {keyword : Keyword} (shared : keyword.IsShared) : a.AgreesOn b keyword where
  left := ha
  right := hb
  value := by
    cases keyword
    case type =>
      have types : a.valueOf .type = b.valueOf .type := by
        rw [valueOf, valueOf, (Diff.types_eq_iff ha hb).mpr h.types]
      rw [types]
      exact agree_refl fun _ => hb.valueOf
    case format =>
      have format : a.valueOf .format = b.valueOf .format := by
        rw [valueOf, valueOf, h.format]
      rw [format]
      exact agree_refl fun _ => hb.valueOf
    case enum => exact .none
    case other name => exact h.extensions name
    case title | description | default | deprecated | readOnly | writeOnly | examples | id
        | comment => exact h.metadata _ (by decide)
    all_goals exact absurd shared (by decide)

namespace Diff

section Scalars

variable {a a' b b' : Facets} {path : Path}

theorem akin_scalar {keyword : Keyword} (old : a.AgreesOn a' keyword)
    (new : b.AgreesOn b' keyword) :
    List.Forall₂ Change.Akin (scalar path a b keyword) (scalar path a' b' keyword) := by
  obtain ⟨ha, ha', old⟩ := old
  obtain ⟨hb, hb', new⟩ := new
  have da : ∀ v, a.valueOf keyword = some v → v.Distinct := fun _ => ha.valueOf
  have da' : ∀ v, a'.valueOf keyword = some v → v.Distinct := fun _ => ha'.valueOf
  have db : ∀ v, b.valueOf keyword = some v → v.Distinct := fun _ => hb.valueOf
  have db' : ∀ v, b'.valueOf keyword = some v → v.Distinct := fun _ => hb'.valueOf
  unfold scalar
  generalize a.valueOf keyword = u, a'.valueOf keyword = u', b.valueOf keyword = v,
    b'.valueOf keyword = v' at *
  cases old with
  | none =>
      cases new with
      | none => exact .nil
      | some new => exact .cons (Change.matched_added (Json.akin_of_equivalent new)) .nil
  | some old =>
      cases new with
      | none => exact .cons (Change.matched_removed (Json.akin_of_equivalent old)) .nil
      | some new =>
          have same := Json.equivalent_congr (da _ rfl) (da' _ rfl) (db _ rfl) (db' _ rfl) old new
          simp only [ofValues, same]
          split
          · exact .nil
          · exact .cons (Change.matched_modified (Json.akin_of_equivalent old)
              (Json.akin_of_equivalent new)) .nil

theorem akin_scalars {keywords : List Keyword}
    (old : ∀ keyword ∈ keywords, a.AgreesOn a' keyword)
    (new : ∀ keyword ∈ keywords, b.AgreesOn b' keyword) :
    List.Forall₂ Change.Akin (scalars path a b keywords) (scalars path a' b' keywords) := by
  induction keywords with
  | nil => exact .nil
  | cons keyword rest ih =>
      obtain ⟨first, others⟩ := List.forall_mem_cons.mp old
      obtain ⟨first', others'⟩ := List.forall_mem_cons.mp new
      exact List.rel_append (akin_scalar first first') (ih others others')

theorem akin_extensions (old : ∀ name, a.AgreesOn a' (.other name))
    (new : ∀ name, b.AgreesOn b' (.other name)) :
    List.Forall₂ Change.Akin (extensions path a b) (extensions path a' b') := by
  have listed {s t : Facets} (same : ∀ name, s.AgreesOn t (.other name)) (name : String) :
      name ∈ NameTable.names s.extensions ↔ name ∈ NameTable.names t.extensions := by
    have both := optionRel_isSome (same name).value
    rw [← NameTable.has_iff, ← NameTable.has_iff]
    exact Bool.eq_iff_iff.mp both
  have names : NameSet.ofList (NameTable.names a.extensions ++ NameTable.names b.extensions) =
      NameSet.ofList (NameTable.names a'.extensions ++ NameTable.names b'.extensions) := by
    refine (NameSet.ordered_ofList _).ext (NameSet.ordered_ofList _) fun name => ?_
    simp only [NameSet.mem_ofList, List.mem_append, listed old, listed new]
  rw [extensions, extensions, names]
  refine akin_scalars (fun keyword member => ?_) (fun keyword member => ?_) <;>
    obtain ⟨name, _, rfl⟩ := List.mem_map.mp member
  · exact old name
  · exact new name

end Scalars

section Verdicts

variable {R S : Node → Node → Prop} (engine : RuleEngine)

/-- The verdict on what the walk finds. -/
def verdictOf (findings : List Finding) : Except UnclassifiedError Severity :=
  engine.verdict (findings.flatMap Finding.changes)

/-- Two lists of findings end in one verdict if every two walks that start in them at one place
do. -/
def EndAlike (R S : Node → Node → Prop) (left right : List Finding) : Prop :=
  (∀ steps a b a' b', .descent steps a b ∈ left → .descent steps a' b' ∈ right → R a a' → S b b' →
      engine.verdict (a.diff b) = engine.verdict (a'.diff b')) →
    verdictOf engine left = verdictOf engine right

variable {engine} {left left' right right' : List Finding}

theorem verdictOf_append : verdictOf engine (left ++ right) = (do
    let first ← verdictOf engine left
    let others ← verdictOf engine right
    return first.max others) := by
  rw [verdictOf, List.flatMap_append, RuleEngine.verdict_append]
  rfl

theorem verdictOf_told {changes : List Change} :
    verdictOf engine (told changes) = engine.verdict changes := by
  have whole : (told changes).flatMap Finding.changes = changes := by
    simp [told, List.flatMap_map, Finding.changes]
  rw [verdictOf, whole]

theorem EndAlike.append (first : EndAlike engine R S left left')
    (others : EndAlike engine R S right right') :
    EndAlike engine R S (left ++ right) (left' ++ right') := by
  intro walks
  rw [verdictOf_append, verdictOf_append,
    first fun steps a b a' b' member member' => walks steps a b a' b'
      (List.mem_append_left _ member) (List.mem_append_left _ member'),
    others fun steps a b a' b' member member' => walks steps a b a' b'
      (List.mem_append_right _ member) (List.mem_append_right _ member')]

theorem endAlike_of_paired (h : Paired (fun _ => Json.Akin) R S left right) :
    EndAlike engine R S left right := by
  induction h with
  | nil => exact fun _ => rfl
  | @cons finding other rest rest' head _ ih =>
      change EndAlike engine R S ([finding] ++ rest) ([other] ++ rest')
      refine EndAlike.append (fun walks => ?_) ih
      cases head with
      | change akin => exact engine.verdict_akin (.cons akin .nil)
      | @descent steps a b a' b' old new =>
          have same := walks steps a b a' b' (List.mem_singleton.mpr rfl)
            (List.mem_singleton.mpr rfl) old new
          simp only [verdictOf, Finding.changes, List.flatMap_singleton,
            RuleEngine.verdict_under, same]

theorem endAlike_told {changes others : List Change}
    (h : engine.verdict changes = engine.verdict others) :
    EndAlike engine R S (told changes) (told others) := by
  intro _
  rw [verdictOf_told, verdictOf_told, h]

theorem endAlike_ite {condition : Bool} (h : condition = true → EndAlike engine R S left right) :
    EndAlike engine R S (if condition then left else []) (if condition then right else []) := by
  cases condition with
  | false => exact fun _ => rfl
  | true => exact h rfl

theorem optionsMissing_eq_nil_congr {before before' after after' : List Json}
    (hb : Facets.SameOptions before before') (ha : Facets.SameOptions after after') :
    optionsMissing before after = [] ↔ optionsMissing before' after' = [] := by
  rw [optionsMissing_eq_nil, optionsMissing_eq_nil]
  constructor
  · intro h
    exact Facets.covers_trans (Facets.covers_trans hb.2 h) ha.1
  · intro h
    exact Facets.covers_trans (Facets.covers_trans hb.1 h) ha.2

theorem verdict_enumeration {path : Path} {before before' after after' : Option (List Json)}
    (hb : Option.Rel Facets.SameOptions before before')
    (ha : Option.Rel Facets.SameOptions after after') :
    engine.verdict (enumeration path before after) =
      engine.verdict (enumeration path before' after') := by
  cases hb with
  | none =>
      cases ha with
      | none => rfl
      | some => exact engine.verdict_akin (.cons (Change.matched_added (.array _ _)) .nil)
  | some hb =>
      cases ha with
      | none => exact engine.verdict_akin (.cons (Change.matched_removed (.array _ _)) .nil)
      | some ha =>
          have came (value : Json) : engine.classify (.memberAdded path .enum value) =
              engine.classify (.memberAdded path .enum .null) := rfl
          have went (value : Json) : engine.classify (.memberRemoved path .enum value) =
              engine.classify (.memberRemoved path .enum .null) := rfl
          simp only [enumeration, RuleEngine.verdict_append, engine.verdict_map_const came,
            engine.verdict_map_const went, optionsMissing_eq_nil_congr ha hb,
            optionsMissing_eq_nil_congr hb ha]

theorem verdict_dependentRequired {path : Path} {before before' after after' :
    List (String × NameSet)}
    (hb : ∀ pair, pair ∈ dependentPairs before ↔ pair ∈ dependentPairs before')
    (ha : ∀ pair, pair ∈ dependentPairs after ↔ pair ∈ dependentPairs after') :
    engine.verdict (dependentRequired path before after) =
      engine.verdict (dependentRequired path before' after') := by
  have came (pair : String × String) : engine.classify (.memberAdded path .dependentRequired
      (.object [(pair.1, .string pair.2)])) =
      engine.classify (.memberAdded path .dependentRequired .null) := rfl
  have went (pair : String × String) : engine.classify (.memberRemoved path .dependentRequired
      (.object [(pair.1, .string pair.2)])) =
      engine.classify (.memberRemoved path .dependentRequired .null) := rfl
  simp only [dependentRequired, RuleEngine.verdict_append, engine.verdict_map_const came,
    engine.verdict_map_const went, List.filter_eq_nil_iff, List.contains_iff_mem, hb, ha,
    Bool.not_eq_true, Bool.not_eq_false']

/-- Two comparisons of accepted schemas, where the old schemas say the same in all that is compared
whatever the types are and in every family of keywords that is compared, and so do the new ones. -/
structure Abreast (R S : Node → Node → Prop) (x x' y y' : Node) : Prop where
  accepted : (x.Accepted ∧ x'.Accepted) ∧ y.Accepted ∧ y'.Accepted
  old : x.toFacets.AlikeShared x'.toFacets
  new : y.toFacets.AlikeShared y'.toFacets
  families : ∀ kind, Compared x y kind → x.LikeIn R x' kind ∧ y.LikeIn S y' kind

variable {x x' y y' : Node} (h : Abreast R S x x' y y')

include h

theorem Abreast.applies (kind : Family) :
    applies x.toFacets y.toFacets kind = applies x'.toFacets y'.toFacets kind := by
  rw [Diff.applies, Diff.applies, Facets.constrains_congr h.old, Facets.constrains_congr h.new]

theorem Abreast.typeChanged :
    typeChanged x.toFacets y.toFacets = typeChanged x'.toFacets y'.toFacets := by
  obtain ⟨⟨hx, hx'⟩, hy, hy'⟩ := h.accepted
  have old := (types_eq_iff hx.regular hx'.regular).mpr h.old.types
  have new := (types_eq_iff hy.regular hy'.regular).mpr h.new.types
  rw [Diff.typeChanged, Diff.typeChanged, old, new]

theorem verdict_shared {path : Path} : engine.verdict (shared path x.toFacets y.toFacets) =
    engine.verdict (shared path x'.toFacets y'.toFacets) := by
  obtain ⟨⟨hx, hx'⟩, hy, hy'⟩ := h.accepted
  have old {keyword : Keyword} (shared : keyword.IsShared) :=
    h.old.agreesOn hx.regular hx'.regular shared
  have new {keyword : Keyword} (shared : keyword.IsShared) :=
    h.new.agreesOn hy.regular hy'.regular shared
  have one (keyword : Keyword) (shared : keyword.IsShared) :
      engine.verdict (scalar path x.toFacets y.toFacets keyword) =
        engine.verdict (scalar path x'.toFacets y'.toFacets keyword) :=
    engine.verdict_akin (akin_scalar (old shared) (new shared))
  have metadata : engine.verdict (scalars path x.toFacets y.toFacets Keyword.metadata) =
      engine.verdict (scalars path x'.toFacets y'.toFacets Keyword.metadata) := by
    have each : ∀ keyword ∈ Keyword.metadata, keyword.IsShared := by decide
    exact engine.verdict_akin (akin_scalars (fun keyword listed => old (each keyword listed))
      fun keyword listed => new (each keyword listed))
  have extensions : engine.verdict (extensions path x.toFacets y.toFacets) =
      engine.verdict (extensions path x'.toFacets y'.toFacets) := by
    have each (name : String) : (Keyword.other name).IsShared := List.mem_cons_self
    exact engine.verdict_akin (akin_extensions (fun name => old (each name))
      fun name => new (each name))
  simp only [shared, RuleEngine.verdict_append, metadata, extensions,
    one .type (by decide), one .format (by decide),
    verdict_enumeration h.old.enumeration h.new.enumeration]

variable (before : ∀ {a b}, R a b → a.Accepted ∧ b.Accepted)
  (after : ∀ {a b}, S a b → a.Accepted ∧ b.Accepted)

include before after

theorem endAlike_members (old : x.MembersLike R x') (new : y.MembersLike S y') :
    EndAlike engine R S (memberFindings x y) (memberFindings x' y') := by
  obtain ⟨⟨hx, hx'⟩, hy, hy'⟩ := h.accepted
  have paired := paired_members (Node.echoed_akin before) (Node.echoed_akin after) old new hx hx'
    hy hy' fun _ => Json.Akin.refl
  exact (endAlike_of_paired paired).append <| endAlike_told <|
    verdict_dependentRequired old.dependentRequired new.dependentRequired

theorem endAlike_families (same : ¬Diff.typeChanged x.toFacets y.toFacets = true) :
    EndAlike engine R S (familyFindings x y) (familyFindings x' y') := by
  obtain ⟨⟨hx, hx'⟩, hy, hy'⟩ := h.accepted
  have compared (kind : Family) (applied : Diff.applies x.toFacets y.toFacets kind = true) :=
    h.families kind (compared_iff.mpr ⟨same, applied⟩)
  have scalars (kind : Family) (keywords : List Keyword)
      (each : Diff.applies x.toFacets y.toFacets kind = true →
        (∀ keyword ∈ keywords, Json.Agree (x.valueOf keyword) (x'.valueOf keyword)) ∧
        ∀ keyword ∈ keywords, Json.Agree (y.valueOf keyword) (y'.valueOf keyword)) :
      List.Forall₂ Change.Akin (family [] x.toFacets y.toFacets kind keywords)
        (family [] x'.toFacets y'.toFacets kind keywords) := by
    rw [family, family, ← h.applies]
    split
    · rename_i applied
      obtain ⟨old, new⟩ := each applied
      exact akin_scalars (fun keyword listed => ⟨hx.regular, hx'.regular, old keyword listed⟩)
        fun keyword listed => ⟨hy.regular, hy'.regular, new keyword listed⟩
    · exact .nil
  unfold familyFindings
  rw [← h.applies, ← h.applies]
  refine (((EndAlike.append ?_ ?_).append ?_).append ?_)
  · refine endAlike_of_paired (paired_told (List.rel_append (List.rel_append ?_ ?_) ?_))
    · exact scalars .numeric _ (compared .numeric)
    · exact scalars .string _ (compared .string)
    · exact scalars .array _ fun applied => (compared .array applied).imp And.left And.left
  · refine endAlike_ite fun applied => endAlike_of_paired ?_
    obtain ⟨old, new⟩ := compared .array applied
    exact paired_elements (Node.echoed_akin before) (Node.echoed_akin after) old.2 new.2
  · refine endAlike_of_paired (paired_told ?_)
    exact scalars .object _ fun applied => (compared .object applied).imp And.left And.left
  · refine endAlike_ite fun applied => ?_
    obtain ⟨old, new⟩ := compared .object applied
    exact endAlike_members h before after old.2 new.2

/-- One level of two comparisons abreast ends in one verdict if the levels below do. -/
theorem endAlike_findings : EndAlike engine R S (findings x y) (findings x' y') := by
  unfold findings
  rw [← h.typeChanged]
  refine (endAlike_told (verdict_shared h)).append ?_
  split
  · exact fun _ => rfl
  · rename_i same
    exact endAlike_families h before after same

end Verdicts

section Abreast

variable {engine : RuleEngine} {R S : Node → Node → Prop}
  (before : ∀ {a b}, R a b → a.Accepted ∧ b.Accepted)
  (after : ∀ {a b}, S a b → a.Accepted ∧ b.Accepted)

include before after

/-- Two comparisons end in one verdict if something holds between them that puts them abreast, and
holds again between all walks that start in them at one place. -/
theorem verdict_diff_of_abreast {P : Node → Node → Node → Node → Prop}
    (level : ∀ {x x' y y'}, P x x' y y' → Abreast R S x x' y y')
    (further : ∀ {x x' y y' a a' b b' steps}, P x x' y y' → Descends x y steps a b →
      Descends x' y' steps a' b' → R a a' → S b b' → P a a' b b')
    {x x' y y' : Node} (holds : P x x' y y') :
    engine.verdict (x.diff y) = engine.verdict (x'.diff y') := by
  induction x, y using joint_induction generalizing x' y' with
  | step x y ih =>
      rw [diff_eq_findings, diff_eq_findings]
      refine endAlike_findings (level holds) before after ?_
      intro steps a b a' b' member member' old new
      have inner := further holds (descends_of_mem_findings member)
        (descends_of_mem_findings member') old new
      exact ih steps a b member inner

end Abreast

section Twins

variable {R : Node → Node → Prop} (twins : Node.Twins R) {x x' y y' : Node} (old : R x x')

include twins old

/-- Comparisons of twins end in one verdict. -/
theorem verdict_diff_twins {engine : RuleEngine} (new : R y y') :
    engine.verdict (x.diff y) = engine.verdict (x'.diff y') := by
  have accepted {a b : Node} (related : R a b) : a.Accepted ∧ b.Accepted :=
    ⟨twins.left related, twins.right related⟩
  refine verdict_diff_of_abreast (P := fun x x' y y' => R x x' ∧ R y y') accepted accepted ?_
    (fun _ _ _ old new => ⟨old, new⟩) ⟨old, new⟩
  rintro x x' y y' ⟨old, new⟩
  exact
    { accepted := ⟨accepted old, accepted new⟩
      old := (twins.twin old).alikeShared
      new := (twins.twin new).alikeShared
      families := fun kind _ => ⟨(twins.twin old).likeIn kind, (twins.twin new).likeIn kind⟩ }

/-- There is no difference between twins. -/
theorem diff_eq_nil_of_twins : x.diff x' = [] := by
  induction x using Node.rec_strong generalizing x' with
  | step x ih =>
      rw [diff_eq_nil_iff_silent, silent_findings (twins.left old) (twins.right old)]
      exact (twins.twin old).like.imp fun a b below _ inner => ih a below inner

end Twins

end Diff

end SchemaEvolution
