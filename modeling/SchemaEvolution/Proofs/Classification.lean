import Mathlib
import SchemaEvolution.Proofs.Mild
import SchemaEvolution.Proofs.Shapes

/-! # Every change has a rule

The tables of rules have a row for every change of the walk but those of keywords that nobody
declared, and no row makes a change no change at all. So a release fails to classify exactly where a
keyword came, went or changed of which the rules know nothing, and tells the first one.
-/

namespace SchemaEvolution

namespace KeywordRule

theorem severity_ne_none {category : RuleCategory} {direction : Direction} {severity : Severity}
    (h : severity? category direction = some severity) : severity ≠ .none := by
  obtain ⟨row, found, rfl⟩ := Option.map_eq_some_iff.mp h
  have rated : ∀ row ∈ table, row.severity ≠ .none := by decide
  exact rated row (List.mem_of_find?_eq_some found)

/-- The table has the row. -/
def Lists (row : RuleCategory × Direction) : Prop := (severity? row.1 row.2).isSome = true

instance (row : RuleCategory × Direction) : Decidable (Lists row) :=
  inferInstanceAs (Decidable (_ = _))

end KeywordRule

namespace PropertyRule

theorem severity_ne_none {kind : ChangeKind} {required : Bool} {extra : ExtraProperties}
    {severity : Severity} (h : severity? kind required extra = some severity) :
    severity ≠ .none := by
  obtain ⟨row, found, rfl⟩ := Option.map_eq_some_iff.mp h
  have rated : ∀ row ∈ table, row.severity ≠ .none := by decide
  exact rated row (List.mem_of_find?_eq_some found)

theorem severity?_isSome {kind : ChangeKind} (turned : kind ≠ .modified) (required : Bool)
    (extra : ExtraProperties) : (severity? kind required extra).isSome = true := by
  cases kind with
  | modified => exact absurd rfl turned
  | added | removed => cases required <;> cases extra <;> rfl

end PropertyRule

namespace RuleEngine

open KeywordRule (Lists)

variable {engine : RuleEngine}

/-- The keyword is recognized, or declared to describe only. -/
def Knows (engine : RuleEngine) : Keyword → Prop
  | .other name => name ∈ engine.annotations
  | _ => True

instance (engine : RuleEngine) (keyword : Keyword) : Decidable (engine.Knows keyword) := by
  unfold Knows
  split <;> infer_instance

theorem severity_ne_none {change : Change} {severity : Severity}
    (h : engine.classify change = .ok severity) : severity ≠ .none := by
  rw [classify_eq_ok_iff, severity?] at h
  cases context : change.property with
  | some surroundings =>
      rw [context] at h
      exact PropertyRule.severity_ne_none h
  | none =>
      rw [context] at h
      obtain ⟨row, _, rated⟩ := Option.bind_eq_some_iff.mp h
      exact KeywordRule.severity_ne_none rated

theorem classify_eq_error_iff {change : Change} {cause : UnclassifiedError} :
    engine.classify change = .error cause ↔
      engine.severity? change = none ∧ cause = ⟨change.keyword, change.path⟩ := by
  cases rated : engine.severity? change with
  | some severity =>
      rw [classify_eq_ok_iff.mpr rated]
      simp
  | none =>
      have failed : engine.classify change = .error ⟨change.keyword, change.path⟩ := by
        cases outcome : engine.classify change with
        | ok severity =>
            rw [classify_eq_ok_iff, rated] at outcome
            cases outcome
        | error other =>
            unfold classify at outcome
            dsimp only at outcome
            split at outcome <;> cases outcome
            rfl
      rw [failed]
      simp [eq_comm]

section Rows

/-! Every row that a change falls under is in the table. -/

theorem lists_ofKind_metadata (kind : ChangeKind) : Lists (.metadata, .ofKind kind) := by
  cases kind <;> decide

theorem lists_tightenedIf {category : RuleCategory}
    (listed : category ∈ [RuleCategory.required, .uniqueItems, .exclusiveFlag, .openness])
    (tighter : Bool) : Lists (category, .tightenedIf tighter) := by
  simp only [List.mem_cons, List.not_mem_nil, or_false] at listed
  rcases listed with rfl | rfl | rfl | rfl <;> cases tighter <;> decide

theorem lists_ofPatterns (relation : Option Restrictiveness) :
    Lists (.pattern, .ofPatterns relation) := by
  rcases relation with _ | (_ | _ | _) <;> decide

theorem lists_ofLimits (bound : Bound) (old new : Json) :
    Lists (bound.category, .ofLimits old new) := by
  have moved : ∀ direction ∈ [Direction.increased, .decreased, .changed],
      Lists (bound.category, direction) := by
    cases bound <;> decide
  apply moved
  unfold Direction.ofLimits
  split
  · split_ifs <;> simp
  · simp

theorem lists_ofDivisors (old new : Json) : Lists (.multipleOf, .ofDivisors old new) := by
  have moved : ∀ direction ∈ [Direction.multiple, .commonFactor, .noCommonFactor],
      Lists (.multipleOf, direction) := by
    decide
  apply moved
  unfold Direction.ofDivisors Divisibility.direction
  split
  · split_ifs
    · simp
    · simp
    · split
      · split_ifs <;> simp
      · simp
  · simp

theorem lists_bound (bound : Bound) (old new : Json) : Lists (bound.rule old new) := by
  unfold Bound.rule
  split
  · exact lists_tightenedIf (by decide) _
  · exact lists_ofLimits bound old new

theorem lists_member {keyword : Keyword} (holds : keyword ∈ Keyword.memberwise)
    {kind : ChangeKind} (turned : kind ≠ .modified) :
    ∃ row, memberRule? keyword kind = some row ∧ Lists row := by
  simp only [Keyword.memberwise, List.mem_cons, List.not_mem_nil, or_false] at holds
  rcases holds with rfl | rfl | rfl | rfl <;> cases kind <;>
    first | exact absurd rfl turned | exact ⟨_, rfl, by decide⟩

theorem lists_openness {a b : SubSchema} (ha : a.Accepted) (hb : b.Accepted) :
    ∃ row, opennessRule? a.toJson b.toJson = some row ∧ Lists row := by
  rw [opennessRule?, SubSchema.openness?_toJson ha, SubSchema.openness?_toJson hb]
  exact ⟨_, rfl, lists_tightenedIf (by decide) _⟩

theorem lists_value {keyword : Keyword} {old new : Json} {before after : Facets}
    (former : before.valueOf keyword = some old) (latter : after.valueOf keyword = some new)
    (recognized : keyword.isRecognized = true) (constrains : keyword.isMetadata = false) :
    ∃ row, engine.modifiedRule? keyword old new = some row ∧ Lists row := by
  cases keyword
  case enum | items | prefixItems | contains | properties | required | additionalProperties
      | dependentRequired => cases former
  case other => cases recognized
  case title | description | default | deprecated | readOnly | writeOnly | examples | id
      | comment => cases constrains
  case type | format => exact ⟨_, rfl, by decide⟩
  case uniqueItems => exact ⟨_, rfl, lists_tightenedIf (by decide) _⟩
  case multipleOf => exact ⟨_, rfl, lists_ofDivisors old new⟩
  case pattern =>
    obtain ⟨p, _, rfl⟩ := Option.map_eq_some_iff.mp former
    obtain ⟨q, _, rfl⟩ := Option.map_eq_some_iff.mp latter
    exact ⟨_, rfl, lists_ofPatterns (engine.patterns p q)⟩
  all_goals exact ⟨_, rfl, lists_bound _ old new⟩

theorem lists_modified {keyword : Keyword} {old new : Json} (turns : keyword.Turns old new)
    (recognized : keyword.isRecognized = true) (constrains : keyword.isMetadata = false) :
    ∃ row, engine.modifiedRule? keyword old new = some row ∧ Lists row := by
  cases turns with
  | value former latter differs => exact lists_value former latter recognized constrains
  | demand now => exact ⟨_, rfl, lists_tightenedIf (by decide) _⟩
  | spread ha =>
      refine ⟨(.itemsForm, .changed), ?_, by decide⟩
      simp only [modifiedRule?, SubSchema.elements?_toJson ha]
      rfl
  | merged hb =>
      refine ⟨(.itemsForm, .changed), ?_, by decide⟩
      simp only [modifiedRule?, SubSchema.elements?_toJson hb]
      rfl
  | place holds ha hb apart =>
      have moved := lists_openness ha hb
      simp only [Keyword.places, List.mem_cons, List.not_mem_nil, or_false] at holds
      rcases holds with rfl | rfl | rfl | rfl | rfl
      · simpa only [modifiedRule?, SubSchema.elements?_toJson ha, SubSchema.elements?_toJson hb,
          bne_self_eq_false, Bool.false_eq_true, if_false] using moved
      all_goals exact moved

end Rows

theorem severity?_of_rule {change : Change} (plain : change.property = none)
    (h : ∃ row, engine.rule? change = some row ∧ Lists row) :
    (engine.severity? change).isSome = true := by
  obtain ⟨row, found, listed⟩ := h
  rw [severity?, plain, found]
  exact listed

theorem rule?_other {change : Change} {name : String} (named : change.keyword = .other name) :
    engine.rule? change =
      if name ∈ engine.annotations then some (.metadata, .ofKind change.kind) else none := by
  rw [rule?, named]
  simp

theorem rule?_metadata {change : Change} (describes : change.keyword.isMetadata = true) :
    engine.rule? change = some (.metadata, .ofKind change.kind) := by
  unfold rule?
  split
  · rename_i other named
    rw [named] at describes
    cases describes
  · rw [if_pos describes]

theorem rule?_of_constrains {change : Change} (recognized : change.keyword.isRecognized = true)
    (constrains : change.keyword.isMetadata = false) :
    engine.rule? change =
      match change.scope, change.kind with
      | .member, kind => memberRule? change.keyword kind
      | .keyword, .modified => do
        engine.modifiedRule? change.keyword (← change.oldValue) (← change.newValue)
      | .keyword, kind => some (.validation, .ofKind kind) := by
  unfold rule?
  split
  · rename_i other named
    rw [named] at recognized
    cases recognized
  · refine (if_neg (by simp [constrains])).trans ?_
    cases change.scope <;> cases change.kind <;> rfl

theorem severity?_isSome_iff {change : Change} (shape : change.Shape) :
    (engine.severity? change).isSome = true ↔ engine.Knows change.keyword := by
  cases recognized : change.keyword.isRecognized with
  | false =>
      obtain ⟨name, named⟩ : ∃ name, change.keyword = .other name := by
        cases named : change.keyword with
        | other name => exact ⟨name, rfl⟩
        | _ => simp [named, Keyword.isRecognized] at recognized
      have plain : change.property = none := by
        cases shape <;> first | rfl | cases named
      rw [severity?, plain, named]
      dsimp only
      rw [rule?_other named, Knows]
      split_ifs with declared
      · exact iff_of_true (lists_ofKind_metadata change.kind) declared
      · exact iff_of_false (by simp) declared
  | true =>
      have known : engine.Knows change.keyword := by
        cases named : change.keyword with
        | other name => simp [named, Keyword.isRecognized] at recognized
        | _ => trivial
      refine iff_of_true ?_ known
      cases describes : change.keyword.isMetadata with
      | true =>
          cases shape
          case propertyAdded | propertyRemoved => cases describes
          all_goals exact severity?_of_rule rfl ⟨_, rule?_metadata describes, lists_ofKind_metadata _⟩
      | false =>
          have rule : engine.rule? change = _ := rule?_of_constrains recognized describes
          cases shape with
          | added => exact severity?_of_rule rfl ⟨(.validation, .added), rule, by decide⟩
          | removed => exact severity?_of_rule rfl ⟨(.validation, .removed), rule, by decide⟩
          | modified path turns =>
              apply severity?_of_rule rfl
              rw [rule]
              exact lists_modified turns recognized describes
          | memberAdded path holds value | memberRemoved path holds value =>
              apply severity?_of_rule rfl
              rw [rule]
              exact lists_member holds ChangeKind.noConfusion
          | propertyAdded | propertyRemoved =>
              exact PropertyRule.severity?_isSome ChangeKind.noConfusion _ _

/-- What becomes of a change of one of the shapes: a severity that is one, or the error that names
its keyword and its path. -/
theorem classify_of_shape {change : Change} (shape : change.Shape) :
    (engine.Knows change.keyword → ∃ severity ∈ [Severity.addition, .revision, .model],
      engine.classify change = .ok severity) ∧
    (¬engine.Knows change.keyword →
      engine.classify change = .error ⟨change.keyword, change.path⟩) := by
  rw [← severity?_isSome_iff shape]
  constructor
  · intro known
    obtain ⟨severity, rated⟩ := Option.isSome_iff_exists.mp known
    have ok := classify_eq_ok_iff.mpr rated
    refine ⟨severity, ?_, ok⟩
    have proper := severity_ne_none ok
    cases severity <;> first | exact absurd rfl proper | decide
  · intro unknown
    exact classify_eq_error_iff.mpr ⟨Option.not_isSome_iff_eq_none.mp unknown, rfl⟩

end RuleEngine

section FirstError

variable {ε α β : Type} {step : α → Except ε β}

theorem mapM_eq_error_iff {list : List α} {e : ε} :
    list.mapM step = .error e ↔ ∃ before x after, list = before ++ x :: after ∧
      (∀ y ∈ before, ∃ b, step y = .ok b) ∧ step x = .error e := by
  induction list with
  | nil => simp [pure, Except.pure]
  | cons first rest ih =>
      rw [List.mapM_cons]
      cases here : step first with
      | error e' =>
          simp only [bind, Except.bind, Except.error.injEq]
          constructor
          · rintro rfl
            exact ⟨[], first, rest, rfl, List.forall_mem_nil _, here⟩
          · rintro ⟨_ | ⟨y, before⟩, x, after, same, earlier, failed⟩
            · cases same
              exact Except.error.inj (here.symm.trans failed)
            · cases same
              obtain ⟨b, ok⟩ := earlier _ List.mem_cons_self
              cases here.symm.trans ok
      | ok b =>
          have later : (do let others ← rest.mapM step; pure (b :: others)) = .error e ↔
              rest.mapM step = .error e := by
            cases rest.mapM step <;> simp [bind, Except.bind, pure, Except.pure]
          refine later.trans (ih.trans ?_)
          constructor
          · rintro ⟨before, x, after, rfl, earlier, failed⟩
            exact ⟨first :: before, x, after, rfl, List.forall_mem_cons.mpr ⟨⟨b, here⟩, earlier⟩,
              failed⟩
          · rintro ⟨_ | ⟨y, before⟩, x, after, same, earlier, failed⟩
            · cases same
              cases here.symm.trans failed
            · cases same
              exact ⟨before, x, after, rfl, (List.forall_mem_cons.mp earlier).2, failed⟩

end FirstError

namespace Release

variable {engine : RuleEngine} {old new : Json} {before after : Node} {version : Version}

theorem compare_of_decode (ho : Node.decode old = .ok before) (hn : Node.decode new = .ok after) :
    compare engine old new version = (do
      let changes ← (engine.classifyAll (before.diff after)).mapError .unclassified
      let next ← nextVersion version (Severity.reduce (changes.map (·.severity)))
      return { previous := version, next
               severity := Severity.reduce (changes.map (·.severity)), changes }) := by
  rw [compare, decodeSide, decodeSide, ho, hn]
  rfl

theorem nextVersion_ne_unclassified {severity : Severity} {cause : UnclassifiedError} :
    nextVersion version severity ≠ .error (.unclassified cause) := by
  unfold nextVersion
  split <;> simp

theorem compare_eq_unclassified_iff (ho : Node.decode old = .ok before)
    (hn : Node.decode new = .ok after) {cause : UnclassifiedError} :
    compare engine old new version = .error (.unclassified cause) ↔
      engine.classifyAll (before.diff after) = .error cause := by
  rw [compare_of_decode ho hn]
  cases engine.classifyAll (before.diff after) with
  | error e => simp [Except.mapError, bind, Except.bind]
  | ok changes =>
      have numbered : nextVersion version (Severity.reduce (changes.map (·.severity))) ≠
          .error (.unclassified cause) := nextVersion_ne_unclassified
      simp only [Except.mapError, bind, Except.bind, reduceCtorEq, iff_false]
      split
      · rename_i e failed
        rw [failed] at numbered
        simpa using numbered
      · simp [pure, Except.pure]

end Release

namespace RuleEngine

variable {engine : RuleEngine} {changes : List Change}

theorem classifyAll_eq_error_iff {cause : UnclassifiedError} :
    engine.classifyAll changes = .error cause ↔ ∃ before change after,
      changes = before ++ change :: after ∧
        (∀ earlier ∈ before, ∃ severity, engine.classify earlier = .ok severity) ∧
        engine.classify change = .error cause := by
  rw [classifyAll, mapM_eq_error_iff]
  refine exists_congr fun before => exists_congr fun change => exists_congr fun after => ?_
  refine and_congr_right fun _ => and_congr (forall₂_congr fun earlier _ => ?_) ?_
  · cases engine.classify earlier <;> simp [bind, Except.bind, pure, Except.pure]
  · cases engine.classify change <;> simp [bind, Except.bind, pure, Except.pure]

/-- The first change of a keyword that is not known ends the classification. -/
theorem classifyAll_eq_error_iff_unknown (shapes : ∀ change ∈ changes, change.Shape)
    {cause : UnclassifiedError} :
    engine.classifyAll changes = .error cause ↔ ∃ before change after,
      changes = before ++ change :: after ∧ (∀ earlier ∈ before, engine.Knows earlier.keyword) ∧
        ¬engine.Knows change.keyword ∧ cause = ⟨change.keyword, change.path⟩ := by
  rw [classifyAll_eq_error_iff]
  refine exists_congr fun before => exists_congr fun change => exists_congr fun after => ?_
  refine and_congr_right fun split => ?_
  have shape (other : Change) (listed : other ∈ before ++ change :: after) : other.Shape :=
    shapes other (split ▸ listed)
  refine and_congr (forall₂_congr fun earlier listed => ?_) ?_
  · rw [← severity?_isSome_iff (shape earlier (List.mem_append_left _ listed)),
      Option.isSome_iff_exists]
    simp only [classify_eq_ok_iff]
  · rw [classify_eq_error_iff, ← severity?_isSome_iff (shape change (by simp)),
      Option.not_isSome_iff_eq_none]

theorem exists_first_unknown (h : ∃ change ∈ changes, ¬engine.Knows change.keyword) :
    ∃ before change after, changes = before ++ change :: after ∧
      (∀ earlier ∈ before, engine.Knows earlier.keyword) ∧ ¬engine.Knows change.keyword := by
  have some : (changes.find? fun change => !decide (engine.Knows change.keyword)).isSome := by
    simpa [List.find?_isSome] using h
  obtain ⟨first, found⟩ := Option.isSome_iff_exists.mp some
  obtain ⟨unknown, before, after, split, earlier⟩ := List.find?_eq_some_iff_append.mp found
  exact ⟨before, first, after, split, by simpa using earlier, by simpa using unknown⟩

end RuleEngine

/-- Of the changes between two documents that denote schemas, each is classified as an addition, a
revision or a model, but for those of a keyword that is neither recognized nor declared: these are
told by their keyword and path. A release of the two fails to classify exactly if there is such a
change, and tells the first. -/
theorem classify_of_mem_diff {a b : Json} {old new : Node} (ha : a.Distinct) (hb : b.Distinct)
    (ho : Node.decode a = .ok old) (hn : Node.decode b = .ok new) (engine : RuleEngine) :
    (∀ change ∈ old.diff new,
      (engine.Knows change.keyword → ∃ severity ∈ [Severity.addition, .revision, .model],
        engine.classify change = .ok severity) ∧
      (¬engine.Knows change.keyword →
        engine.classify change = .error ⟨change.keyword, change.path⟩)) ∧
    ∀ version,
      ((∃ cause, Release.compare engine a b version = .error (.unclassified cause)) ↔
        ∃ change ∈ old.diff new, ¬engine.Knows change.keyword) ∧
      ∀ cause, Release.compare engine a b version = .error (.unclassified cause) →
        ∃ before change after, old.diff new = before ++ change :: after ∧
          (∀ earlier ∈ before, engine.Knows earlier.keyword) ∧
          ¬engine.Knows change.keyword ∧ cause = ⟨change.keyword, change.path⟩ := by
  have shapes : ∀ change ∈ old.diff new, change.Shape := fun _ member =>
    Diff.shape_of_mem_diff (Node.accepted_of_decode ha ho) (Node.accepted_of_decode hb hn) member
  refine ⟨fun change member => RuleEngine.classify_of_shape (shapes change member), ?_⟩
  intro version
  simp only [Release.compare_eq_unclassified_iff ho hn,
    RuleEngine.classifyAll_eq_error_iff_unknown shapes]
  refine ⟨⟨?_, ?_⟩, fun cause told => told⟩
  · rintro ⟨cause, before, change, after, split, _, unknown, _⟩
    refine ⟨change, ?_, unknown⟩
    rw [split]
    exact List.mem_append_right before List.mem_cons_self
  · intro h
    obtain ⟨before, change, after, split, earlier, unknown⟩ := RuleEngine.exists_first_unknown h
    exact ⟨_, before, change, after, split, earlier, unknown, rfl⟩

/-- A schema comes to tell an order of display, of which the rules know nothing. -/
theorem classify_of_mem_diff_order :
    ∃ cause, Release.compare { patterns := fun _ _ => none } (.object [])
        (.object [("title", .string "Person"), ("x-order", .bool true)]) ⟨1, 0, 0⟩ =
      .error (.unclassified cause) := by
  have plain : (Json.object []).Distinct := by decide
  have ordered : (Json.object [("title", .string "Person"), ("x-order", .bool true)]).Distinct := by
    decide
  have outcome := classify_of_mem_diff plain ordered rfl rfl { patterns := fun _ _ => none }
  apply (outcome.2 ⟨1, 0, 0⟩).1.mpr
  have scalar : (Keyword.other "x-order").IsScalar := .inr ⟨_, rfl⟩
  refine ⟨_, Diff.turned_mem_diff (.here _ _) (Node.accepted_of_decode plain rfl) scalar ?_ trivial,
    by decide⟩
  intro kind _ family
  cases family

end SchemaEvolution
