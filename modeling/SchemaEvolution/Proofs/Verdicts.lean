import Mathlib
import SchemaEvolution.Proofs.Classification
import SchemaEvolution.Proofs.Pairs

/-! # The verdict on a list of changes

Of the changes between two schemas a release keeps the greatest severity, or the first change that
has none. This verdict is all that the next version depends on; it is told piece by piece, and a
change counts in it only by what the rules look at.
-/

namespace SchemaEvolution

namespace Json

/-- The rules cannot tell the two values apart: they look at what booleans, numbers and strings
are, but not inside arrays and objects. -/
inductive Akin : Json → Json → Prop where
  | null : Akin .null .null
  | bool (b : Bool) : Akin (.bool b) (.bool b)
  | number {m n : Number} (units : m.signedUnits = n.signedUnits) : Akin (.number m) (.number n)
  | string (s : String) : Akin (.string s) (.string s)
  | array (as bs : List Json) : Akin (.array as) (.array bs)
  | object (as bs : List (String × Json)) : Akin (.object as) (.object bs)

theorem Akin.refl (a : Json) : Akin a a := by
  cases a with
  | number n => exact .number rfl
  | _ => constructor

theorem akin_of_equivalent {a b : Json} (h : a.equivalent b = true) : Akin a b := by
  cases a <;> cases b <;> simp_all [equivalent, same] <;> constructor
  exact h

end Json

/-- The rules cannot tell the two changes apart, and both are told from one place. -/
abbrev Change.Akin : Change → Change → Prop := Change.Matched fun _ => Json.Akin

namespace RuleEngine

section Rows

variable {old new old' new' : Json}

theorem isTrue_akin (h : Json.Akin old old') : isTrue old = isTrue old' := by
  cases h <;> rfl

theorem string?_akin (h : Json.Akin old old') : old.string? = old'.string? := by
  cases h <;> rfl

theorem elements?_akin (h : Json.Akin old old') :
    old.elements?.isSome = old'.elements?.isSome := by
  cases h <;> rfl

theorem openness?_akin (h : Json.Akin old old') : openness? old = openness? old' := by
  cases h <;> rfl

theorem opennessRule?_akin (ho : Json.Akin old old') (hn : Json.Akin new new') :
    opennessRule? old new = opennessRule? old' new' := by
  rw [opennessRule?, opennessRule?, openness?_akin ho, openness?_akin hn]

theorem ofDivisors_akin (ho : Json.Akin old old') (hn : Json.Akin new new') :
    Direction.ofDivisors old new = Direction.ofDivisors old' new' := by
  cases ho <;> cases hn <;> simp_all [Direction.ofDivisors]

theorem ofLimits_akin (ho : Json.Akin old old') (hn : Json.Akin new new') :
    Direction.ofLimits old new = Direction.ofLimits old' new' := by
  cases ho <;> cases hn <;> simp_all [Direction.ofLimits]

theorem bound_akin (bound : Bound) (ho : Json.Akin old old') (hn : Json.Akin new new') :
    bound.rule old new = bound.rule old' new' := by
  have limits := ofLimits_akin ho hn
  cases ho <;> cases hn <;> first | rfl | exact congrArg (Prod.mk bound.category) limits

theorem modifiedRule?_akin (engine : RuleEngine) (keyword : Keyword) (ho : Json.Akin old old')
    (hn : Json.Akin new new') :
    engine.modifiedRule? keyword old new = engine.modifiedRule? keyword old' new' := by
  unfold modifiedRule?
  simp only [isTrue_akin hn, string?_akin ho, string?_akin hn, elements?_akin ho, elements?_akin hn,
    ofDivisors_akin ho hn, opennessRule?_akin ho hn, bound_akin _ ho hn]

end Rows

variable (engine : RuleEngine)

theorem rule?_akin {change other : Change} (h : change.Akin other) :
    engine.rule? change = engine.rule? other := by
  obtain ⟨_, kind, keyword, scope, old, new⟩ := change
  obtain ⟨_, kind', keyword', scope', old', new'⟩ := other
  obtain ⟨_, ⟨⟩, ⟨⟩, ⟨⟩, ho, hn, _⟩ := h
  have modified : (do engine.modifiedRule? keyword (← old) (← new)) =
      (do engine.modifiedRule? keyword (← old') (← new')) := by
    cases ho with
    | none => rfl
    | some ho =>
        cases hn with
        | none => rfl
        | some hn => exact modifiedRule?_akin engine keyword ho hn
  cases keyword <;> cases kind <;> cases scope <;> first | rfl | exact modified

theorem severity?_akin {change other : Change} (h : change.Akin other) :
    engine.severity? change = engine.severity? other := by
  rw [severity?, severity?, rule?_akin engine h, h.kind, h.property]

end RuleEngine

def UnclassifiedError.under (steps : Path) (error : UnclassifiedError) : UnclassifiedError :=
  { error with path := steps ++ error.path }

namespace RuleEngine

variable (engine : RuleEngine)

theorem classify_eq (change : Change) :
    engine.classify change =
      match engine.severity? change with
      | some severity => .ok severity
      | none => .error ⟨change.keyword, change.path⟩ := by
  unfold classify severity?
  cases change.property <;> rfl

theorem classify_akin {change other : Change} (h : change.Akin other) :
    engine.classify change = engine.classify other := by
  rw [classify_eq, classify_eq, severity?_akin engine h, h.keyword, h.path]

theorem classify_under (steps : Path) (change : Change) :
    engine.classify (change.under steps) = (engine.classify change).mapError (.under steps) := by
  have same : engine.severity? (change.under steps) = engine.severity? change := rfl
  rw [classify_eq, classify_eq, same]
  cases engine.severity? change <;> rfl

/-- The greatest severity among the changes, or the first change that has none. -/
def verdict (changes : List Change) : Except UnclassifiedError Severity :=
  (fun entries => Severity.reduce (entries.map (·.severity))) <$> engine.classifyAll changes

@[simp] theorem verdict_nil : engine.verdict [] = .ok .none := rfl

theorem classifyAll_cons (change : Change) (changes : List Change) :
    engine.classifyAll (change :: changes) = (do
      let severity ← engine.classify change
      let others ← engine.classifyAll changes
      return { change, severity } :: others) := by
  simp only [classifyAll, List.mapM_cons]
  cases engine.classify change <;> rfl

theorem verdict_cons (change : Change) (changes : List Change) :
    engine.verdict (change :: changes) = (do
      let first ← engine.classify change
      let others ← engine.verdict changes
      return first.max others) := by
  rw [verdict, verdict, classifyAll_cons]
  cases engine.classify change with
  | error e => rfl
  | ok first => cases engine.classifyAll changes <;> rfl

/-- The verdict on two lists, one after the other, comes from the verdicts on each. -/
theorem verdict_append (left right : List Change) :
    engine.verdict (left ++ right) = (do
      let first ← engine.verdict left
      let others ← engine.verdict right
      return first.max others) := by
  induction left with
  | nil =>
      have first (severity : Severity) : Severity.none.max severity = severity := by
        cases severity <;> rfl
      rw [List.nil_append, verdict_nil]
      cases engine.verdict right with
      | error e => rfl
      | ok severity => exact congrArg Except.ok (first severity).symm
  | cons change rest ih =>
      have assoc (a b c : Severity) : a.max (b.max c) = (a.max b).max c := by
        cases a <;> cases b <;> cases c <;> rfl
      rw [List.cons_append, verdict_cons, verdict_cons, ih]
      cases engine.classify change with
      | error e => rfl
      | ok first =>
          cases engine.verdict rest with
          | error e => rfl
          | ok second =>
              cases engine.verdict right with
              | error e => rfl
              | ok third => exact congrArg Except.ok (assoc first second third)

theorem verdict_under (steps : Path) (changes : List Change) :
    engine.verdict (changes.map (Change.under steps)) =
      (engine.verdict changes).mapError (.under steps) := by
  induction changes with
  | nil => rfl
  | cons change rest ih =>
      rw [List.map_cons, verdict_cons, verdict_cons, ih, classify_under]
      cases engine.classify change with
      | error e => rfl
      | ok first => cases engine.verdict rest <;> rfl

theorem verdict_akin {changes others : List Change}
    (h : List.Forall₂ Change.Akin changes others) :
    engine.verdict changes = engine.verdict others := by
  induction h with
  | nil => rfl
  | cons head _ ih => rw [verdict_cons, verdict_cons, classify_akin engine head, ih]

theorem verdict_map_const {α : Type} {f : α → Change} {outcome : Except UnclassifiedError Severity}
    (same : ∀ a, engine.classify (f a) = outcome) (list : List α) :
    engine.verdict (list.map f) = if list = [] then .ok .none else outcome := by
  induction list with
  | nil => rfl
  | cons a rest ih =>
      rw [List.map_cons, verdict_cons, same, ih, if_neg (List.cons_ne_nil a rest)]
      cases outcome with
      | error e => rfl
      | ok severity => split <;> cases severity <;> rfl

end RuleEngine

namespace Release

/-- What is left of a release of changes with that verdict. -/
def conclude (version : Version) (verdict : Except UnclassifiedError Severity) :
    Except CompareError (Severity × Version) := do
  let severity ← verdict.mapError .unclassified
  let next ← nextVersion version severity
  return (severity, next)

/-- The severity and the next version of a release depend on the verdict only. -/
theorem compare_conclude {engine : RuleEngine} {old new : Json} {before after : Node}
    (ho : Node.decode old = .ok before) (hn : Node.decode new = .ok after) (version : Version) :
    (fun release => (release.severity, release.next)) <$> compare engine old new version =
      conclude version (engine.verdict (before.diff after)) := by
  rw [compare_of_decode ho hn, conclude, RuleEngine.verdict]
  cases engine.classifyAll (before.diff after) with
  | error e => rfl
  | ok changes =>
      simp only [Except.mapError, Functor.map, Except.map, bind, Except.bind]
      cases nextVersion version (Severity.reduce (changes.map (·.severity))) <;> rfl

end Release

end SchemaEvolution
