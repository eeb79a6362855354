import Mathlib
import SchemaEvolution.Proofs.Nesting
import SchemaEvolution.Proofs.Rounding

/-! # Numbers in a document

Two documents that differ in one number differ for the walk exactly if it tells the two numbers
apart. Where the number is the whole value of a keyword, the walk compares the nearest doubles, and
takes great whole numbers for each other; anywhere inside a value it compares numbers as they are
written, and a whole number never equals a double.
-/

namespace SchemaEvolution

namespace Number

/-- A double has exactly the value of the number. -/
def IsExact (n : Number) : Prop := n.signedUnits = n.units

/-- The number is written as a whole number. -/
def isInteger : Number → Bool
  | .integer .. => true
  | .double _ => false

theorem value_eq_iff {m n : Number} : m.value = n.value ↔ m.units = n.units := by
  simp only [le_antisymm_iff, value_le_iff]

theorem signedUnits_eq_of_value_eq {m n : Number} (same : m.value = n.value) :
    m.signedUnits = n.signedUnits := by
  rw [signedUnits_eq_roundSigned, signedUnits_eq_roundSigned, value_eq_iff.mp same]

theorem isExact_double (x : Binary64) : (double x).IsExact := rfl

theorem isExact_integer {n : Int} (small : n.natAbs < 2 ^ 53) (bounded : IsWord n) :
    (integer n bounded).IsExact := by
  have rounded := Binary64.roundUnits_of_dvd (Binary64.spacing_dvd small)
  change Binary64.unitsOfInt n = n * Binary64.one
  rw [Binary64.unitsOfInt, rounded, Nat.cast_mul]
  split
  case isTrue negative => rw [show (n.natAbs : Int) = -n by omega, neg_mul, neg_neg]
  case isFalse positive => rw [show (n.natAbs : Int) = n by omega]

theorem signedUnits_eq_iff_value_eq {m n : Number} (hm : m.IsExact) (hn : n.IsExact) :
    m.signedUnits = n.signedUnits ↔ m.value = n.value := by
  rw [value_eq_iff, hm, hn]

theorem same_iff_value_eq {m n : Number} :
    m.same n = true ↔ m.isInteger = n.isInteger ∧ m.value = n.value := by
  have positive : (Binary64.one : Int) ≠ 0 := by exact_mod_cast Binary64.one_pos.ne'
  rw [value_eq_iff]
  cases m <;> cases n <;>
    simp only [same, isInteger, units, beq_iff_eq, true_and, reduceCtorEq, false_and]
  exact (mul_left_inj' positive).symm

/-- A whole number written as a double. -/
def asDouble (n : Nat) (fits : Binary64.Representable (n * Binary64.one)) : Number :=
  .double ⟨false, n * Binary64.one, fits⟩

theorem value_asDouble {n : Nat} (fits : Binary64.Representable (n * Binary64.one))
    (bounded : IsWord n) : (integer n bounded).value = (asDouble n fits).value :=
  value_eq_iff.mpr (Int.natCast_mul n Binary64.one).symm

end Number

namespace Json

/-- A list with a hole for an element, or an object with one for the value of a member. -/
inductive Layer where
  | element (before after : List Json)
  | member (before : List (String × Json)) (name : String) (after : List (String × Json))

def Layer.fill : Layer → Json → Json
  | .element before after, inner => .array (before ++ inner :: after)
  | .member before name after, inner => .object (before ++ (name, inner) :: after)

/-- The layers of a value around a hole, from its root inwards. -/
abbrev Trail := List Layer

def Trail.fill : Trail → Json → Json
  | [], inner => inner
  | layer :: rest, inner => layer.fill (Trail.fill rest inner)

section Fill

variable {layer : Layer} {trail : Trail} {a b : Json}

theorem Layer.distinct_of_fill (distinct : (layer.fill a).Distinct) : a.Distinct := by
  cases layer with
  | element before after => exact distinct.elements a (by simp)
  | member before name after => exact distinct.member (m := (name, a)) (by simp)

theorem Layer.same_fill (da : (layer.fill a).Distinct) (db : (layer.fill b).Distinct) :
    (layer.fill a).same (layer.fill b) = a.same b := by
  refine Bool.eq_iff_iff.mpr ?_
  cases layer with
  | element before after =>
      have others : ∀ e ∈ before ++ after, e.same e = true := fun e listed =>
        same_refl (da.elements e (by simp at listed ⊢; tauto))
      simp only [fill, same_array_iff, Json.array.injEq, exists_eq_left']
      refine ⟨fun each => ?_, forall₂_middle (R := fun u v : Json => u.same v = true) others⟩
      have here := List.forall₂_drop before.length each
      simp only [List.drop_left, List.forall₂_cons] at here
      exact here.1
  | member before name after =>
      have held := NameTable.get?_middle da.names
      have held' := NameTable.get?_middle db.names
      simp only [fill, same_object_iff, Json.object.injEq, exists_eq_left']
      constructor
      · rintro ⟨_, covered⟩
        obtain ⟨_, found, equal⟩ := covered (name, a) (by simp)
        cases held'.symm.trans found
        exact equal
      · intro equal
        refine ⟨by simp, fun m listed => ?_⟩
        have own := (NameTable.get?_eq_some_iff da.names).mpr listed
        by_cases here : m.1 = name
        · rw [here] at own ⊢
          cases held.symm.trans own
          exact ⟨b, held', equal⟩
        · rw [NameTable.get?_middle_of_ne here] at own
          exact ⟨m.2, (NameTable.get?_middle_of_ne here).trans own, same_refl (da.member listed)⟩

theorem Trail.same_fill (da : (trail.fill a).Distinct) (db : (trail.fill b).Distinct) :
    (trail.fill a).same (trail.fill b) = a.same b := by
  induction trail with
  | nil => rfl
  | cons layer rest ih =>
      have inner := ih (Layer.distinct_of_fill da) (Layer.distinct_of_fill db)
      exact (Layer.same_fill da db).trans inner

/-- Around a number, values are equivalent if the two numbers are as doubles, where there is nothing
around them, and else if they are as they are written. -/
theorem Trail.equivalent_fill {m n : Number} (dm : (trail.fill (.number m)).Distinct)
    (dn : (trail.fill (.number n)).Distinct) :
    (trail.fill (.number m)).equivalent (trail.fill (.number n)) = true ↔
      if trail = [] then m.signedUnits = n.signedUnits else m.same n = true := by
  cases trail with
  | nil => simp [fill, equivalent]
  | cons layer rest =>
      have noNumber : (Trail.fill (layer :: rest) (.number m)).number? = none := by
        cases layer <;> rfl
      rw [equivalent_eq_same noNumber, same_fill dm dn, if_neg (List.cons_ne_nil _ _)]
      rfl

end Fill

/-- A schema with a hole for a number in the value of a keyword: the members before that one, its
name, what is around the number in its value, and the members after it. -/
structure Literal where
  before : List (String × Json)
  key : String
  trail : Trail
  after : List (String × Json)

namespace Literal

def keyword (place : Literal) : Keyword := Keyword.ofName place.key

def members (place : Literal) (n : Number) : List (String × Json) :=
  place.before ++ (place.key, place.trail.fill (.number n)) :: place.after

/-- The keyword is one of no family of constraints, or no type is declared, or one whose values the
keyword constrains. -/
def isCompared (place : Literal) : Bool :=
  match place.keyword.family? with
  | none | some .core | some .metadata => true
  | some kind =>
    match NameTable.get? "type" (place.before ++ place.after) with
    | none => true
    | some declared => declared.names.any fun name =>
        (InstanceType.ofName? name).bind InstanceType.family? == some kind

end Literal

end Json

namespace Keyword

theorem compared_eq_self {keyword : Keyword} (simple : keyword ∉ Keyword.type :: compound)
    {value : Json} (noFlag : value.bool? = none) : keyword.compared (some value) = some value := by
  cases keyword <;> first | exact absurd (by decide) simple | skip
  all_goals first | rfl | (cases value <;> first | rfl | cases noFlag)

end Keyword

/-- The two values are one schema. -/
def Decode.SameSchema (a b : Json) : Prop := IsSchema a ∧ a = b

namespace Node

variable {place : Json.Literal} {m n : Number} {p q : Node}
  (simple : place.keyword ∉ Keyword.type :: Keyword.compound)
  (left : p.ReadFrom (place.members m)) (right : q.ReadFrom (place.members n))

include simple

include left in
theorem ReadFrom.valueOf_literal :
    p.valueOf place.keyword = some (place.trail.fill (.number m)) := by
  have named : Keyword.ofName place.keyword.name = place.keyword :=
    congrArg Keyword.ofName (Keyword.name_ofName place.key)
  have ne : place.keyword ≠ .type := fun same => simple (same ▸ List.mem_cons_self)
  have held : NameTable.get? place.keyword.name (place.members m) =
      some (place.trail.fill (.number m)) := by
    rw [Json.Literal.keyword, Keyword.name_ofName]
    exact NameTable.get?_middle left.distinct.names
  rw [left.valueOf named ne, held, Keyword.compared_eq_self simple]
  rcases place.trail with _ | ⟨_ | _, rest⟩ <;> rfl

omit simple in
theorem get?_beside_literal (m n : Number) {keyword : Keyword}
    (named : Keyword.ofName keyword.name = keyword) (other : keyword ≠ place.keyword) :
    NameTable.get? keyword.name (place.members m) =
      NameTable.get? keyword.name (place.members n) := by
  have ne : keyword.name ≠ place.key := fun same =>
    other (named.symm.trans (congrArg Keyword.ofName same))
  exact (NameTable.get?_middle_of_ne ne).trans (NameTable.get?_middle_of_ne ne).symm

include left in
theorem respells_beside_literal : ∀ keyword ∈ Keyword.type :: Keyword.compound,
    Option.Rel (keyword.Respells Decode.SameSchema)
      (NameTable.get? keyword.name (place.members m))
      (NameTable.get? keyword.name (place.members n)) := by
  intro keyword held
  have named := Keyword.ofName_name_of_compound held
  rw [← get?_beside_literal m n named fun same => simple (same ▸ held)]
  exact left.respells_self (fun _ schema => ⟨schema, rfl⟩) named

include left right

/-- The walk compares the keyword that holds the number. -/
theorem considers_literal (compared : place.isCompared = true) :
    Diff.Considers p q place.keyword := by
  intro kind listed family
  refine ⟨fun before after hb ha => ?_, .inl (left.constrains_of_declared fun declared found => ?_)⟩
  · have types := types_of_respells left right (respells_beside_literal simple left)
    exact Option.some_inj.mp (hb.symm.trans (types.trans ha))
  · have ne : "type" ≠ place.key := fun same => simple (by
      rw [Json.Literal.keyword, ← same]
      decide)
    rw [Json.Literal.members, NameTable.get?_middle_of_ne ne] at found
    simp only [List.mem_cons, List.not_mem_nil, or_false] at listed
    rcases listed with rfl | rfl | rfl | rfl <;>
      simpa only [Json.Literal.isCompared, family, found] using compared

/-- Where the values around the numbers are equivalent, the two schemas say the same. -/
theorem alike_of_literal
    (same : (place.trail.fill (.number m)).equivalent (place.trail.fill (.number n)) = true) :
    p.Alike q := by
  have twin : p.Twin (Over Decode.SameSchema) q := by
    refine twin_of_compared left right (respells_beside_literal simple left) ?_ ?_ ?_
    · rintro u v ⟨schema, rfl⟩
      exact Json.sameForm_refl schema
    · exact fun allowed => ⟨Decode.isSchema_iff.mpr (.inl ⟨allowed, rfl⟩), rfl⟩
    · intro keyword named held
      have ne : keyword ≠ .type := fun same => held (same ▸ List.mem_cons_self)
      -- Only the keyword with the number has two arguments, and these are equivalent.
      by_cases here : keyword = place.keyword
      · subst here
        rw [← left.valueOf named ne, ← right.valueOf named ne, left.valueOf_literal simple,
          right.valueOf_literal simple]
        exact .some same
      · rw [get?_beside_literal m n named here, ← right.valueOf named ne]
        exact Facets.agree_refl fun _ => right.accepted.regular.valueOf
  -- Schemas further down are spelled alike, so each is the very same on both sides.
  refine alike_iff.mpr (twin.like.imp fun x y _ _ inner => ?_)
  obtain rfl := inner.left.eq_of_source inner.right inner.documents.2
  exact .refl inner.left

variable (place) in
/-- The difference is empty exactly if the values around the numbers are equivalent. -/
theorem diff_literal_eq_nil_iff (compared : place.isCompared = true) :
    p.diff q = [] ↔
      (place.trail.fill (.number m)).equivalent (place.trail.fill (.number n)) = true := by
  refine ⟨fun silent => ?_, fun same => ?_⟩
  · by_contra apart
    have told := Diff.turned_mem_diff (.here p q) left.accepted
      ((Keyword.isScalar_iff _).mpr fun held => simple (List.mem_cons_of_mem _ held))
      (considers_literal simple left right compared)
    rw [left.valueOf_literal simple, right.valueOf_literal simple, silent] at told
    exact absurd (told (Bool.eq_false_iff.mpr apart)) List.not_mem_nil
  · exact (Diff.diff_eq_nil_iff left.accepted right.accepted).mpr
      (alike_of_literal simple left right same)

end Node

namespace Json

theorem Context.distinct_of_fill {context : Context} {inner : List (String × Json)}
    (distinct : (context.fill (.object inner)).Distinct) : (Json.object inner).Distinct := by
  induction context with
  | nil => exact distinct
  | cons outer rest ih => exact ih (outer.distinct_of_members distinct)

/-- The walk compares what the numbers stand for: two that have doubles of their own, if they are
the whole value of a keyword, and inside of a value two whole numbers or two doubles. -/
def Literal.IsFaithful (place : Literal) (m n : Number) : Prop :=
  if place.trail = [] then m.IsExact ∧ n.IsExact else m.isInteger = n.isInteger

end Json

/-- Two documents that differ in one number, at a place that the walk comes to and in a keyword that
it compares there as one value: a bound, a divisor, a count, a description, or a keyword that is not
recognized. Where the number is all of the value, the documents have no difference exactly if the
two numbers have the same double, as they do when they are equal; where it stands inside of the
value, exactly if they are equal and both whole numbers or both doubles. So the difference is empty
exactly if the numbers are equal, wherever the walk compares what they stand for. -/
theorem diff_of_literal {context : Json.Context} {place : Json.Literal}
    (opened : ∀ outer ∈ context, outer.isOpen = true) (compared : place.isCompared = true)
    (simple : place.keyword ∉ Keyword.type :: Keyword.compound) {m n : Number} {x y : Node}
    (dx : (context.fill (.object (place.members m))).Distinct)
    (dy : (context.fill (.object (place.members n))).Distinct)
    (hx : Node.decode (context.fill (.object (place.members m))) = .ok x)
    (hy : Node.decode (context.fill (.object (place.members n))) = .ok y) :
    (place.IsFaithful m n → (x.diff y = [] ↔ m.value = n.value)) ∧
    (place.trail = [] → (x.diff y = [] ↔ m.signedUnits = n.signedUnits) ∧
      (m.value = n.value → x.diff y = [])) ∧
    (place.trail ≠ [] → (x.diff y = [] ↔ m.isInteger = n.isInteger ∧ m.value = n.value)) := by
  obtain ⟨p, q, hp, hq, same⟩ := Json.Context.diff_fill opened dx dy hx hy
  have left : p.ReadFrom (place.members m) := ⟨Json.Context.distinct_of_fill dx, [], hp⟩
  have right : q.ReadFrom (place.members n) := ⟨Json.Context.distinct_of_fill dy, [], hq⟩
  have silent : x.diff y = [] ↔
      if place.trail = [] then m.signedUnits = n.signedUnits else m.same n = true := by
    rw [same, List.map_eq_nil_iff, Node.diff_literal_eq_nil_iff place simple left right compared]
    have dm := left.distinct.member (m := (place.key, place.trail.fill (.number m)))
      (by simp [Json.Literal.members])
    have dn := right.distinct.member (m := (place.key, place.trail.fill (.number n)))
      (by simp [Json.Literal.members])
    exact Json.Trail.equivalent_fill dm dn
  rw [silent, Json.Literal.IsFaithful]
  refine ⟨fun faithful => ?_, fun whole => ?_, fun inside => ?_⟩
  · split at faithful
    case isTrue whole =>
      rw [if_pos whole]
      exact Number.signedUnits_eq_iff_value_eq faithful.1 faithful.2
    case isFalse inside =>
      rw [if_neg inside, Number.same_iff_value_eq]
      exact and_iff_right faithful
  · rw [if_pos whole]
    exact ⟨Iff.rfl, Number.signedUnits_eq_of_value_eq⟩
  · rw [if_neg inside]
    exact Number.same_iff_value_eq

/-- A limit below the root that is written as a double does not differ, and one inside of a default
does. -/
theorem diff_of_literal_age :
    let age : Json.Context :=
      [⟨[("type", .string "object")], .property [] "age" [], [("title", .string "Person")]⟩]
    let limit : Json.Literal := ⟨[("type", .string "integer")], "maximum", [], []⟩
    let choice : Json.Literal := ⟨[], "default", [.element [.null] []], []⟩
    let whole : Number := .integer 120 (by decide)
    let double : Number := .asDouble 120 (by decide +kernel)
    (∃ x y, Node.decode (age.fill (.object (limit.members whole))) = .ok x ∧
      Node.decode (age.fill (.object (limit.members double))) = .ok y ∧ x.diff y = []) ∧
    ∃ x y, Node.decode (age.fill (.object (choice.members whole))) = .ok x ∧
      Node.decode (age.fill (.object (choice.members double))) = .ok y ∧ x.diff y ≠ [] := by
  intro age limit choice whole double
  have opened : ∀ outer ∈ age, outer.isOpen = true := by decide
  have distinct : ∀ place ∈ [limit, choice], ∀ n ∈ [whole, double],
      (age.fill (.object (place.members n))).Distinct := by decide
  have decoded (place) (listed : place ∈ [limit, choice]) (n) (among : n ∈ [whole, double]) :
      ∃ x, Node.decode (age.fill (.object (place.members n))) = .ok x := by
    simp only [List.mem_cons, List.not_mem_nil, or_false] at listed among
    rcases listed with rfl | rfl <;> rcases among with rfl | rfl <;> exact ⟨_, rfl⟩
  constructor
  · obtain ⟨x, hx⟩ := decoded limit (by simp) whole (by simp)
    obtain ⟨y, hy⟩ := decoded limit (by simp) double (by simp)
    obtain ⟨faithful, _, _⟩ := diff_of_literal opened (by decide) (by decide)
      (distinct _ (by simp) _ (by simp)) (distinct _ (by simp) _ (by simp)) hx hy
    have small : whole.IsExact := Number.isExact_integer (by decide) _
    have equal : whole.value = double.value := Number.value_asDouble (n := 120) _ _
    exact ⟨x, y, hx, hy, (faithful ⟨small, Number.isExact_double _⟩).mpr equal⟩
  · obtain ⟨x, hx⟩ := decoded choice (by simp) whole (by simp)
    obtain ⟨y, hy⟩ := decoded choice (by simp) double (by simp)
    obtain ⟨_, _, inside⟩ := diff_of_literal opened (by decide) (by decide)
      (distinct _ (by simp) _ (by simp)) (distinct _ (by simp) _ (by simp)) hx hy
    refine ⟨x, y, hx, hy, fun silent => ?_⟩
    obtain ⟨written, _⟩ := (inside (by simp [choice])).mp silent
    cases written

/-- Inside of a value, a whole number written as a double is told as a change, and limits above
53 bits that differ are not told. -/
theorem literals_not_by_value :
    let one : Number := .integer 1 (by decide)
    let double : Number := .asDouble 1 (by decide +kernel)
    let low : Number := .integer 9007199254740992 (by decide)
    let high : Number := .integer 9007199254740993 (by decide)
    (∃ x y, Node.decode (.object [("default", .array [.number one])]) = .ok x ∧
      Node.decode (.object [("default", .array [.number double])]) = .ok y ∧
      one.value = double.value ∧ x.diff y ≠ []) ∧
    ∃ x y, Node.decode (.object [("maximum", .number low)]) = .ok x ∧
      Node.decode (.object [("maximum", .number high)]) = .ok y ∧
      low.value ≠ high.value ∧ x.diff y = [] := by
  intro one double low high
  have apart : (Json.array [.number one]).equivalent (.array [.number double]) = false := rfl
  have merged : (Json.number low).equivalent (.number high) = true := by decide +kernel
  constructor
  · refine ⟨_, _, rfl, rfl, Number.value_asDouble (n := 1) _ _, fun silent => ?_⟩
    have same := (Node.diff_literal_eq_nil_iff ⟨[], "default", [.element [] []], []⟩
      (by decide) ⟨by decide, [], rfl⟩ ⟨by decide, [], rfl⟩ (by decide)).mp silent
    exact Bool.false_ne_true (apart.symm.trans same)
  · refine ⟨_, _, rfl, rfl, fun equal => ?_, ?_⟩
    · exact absurd (Number.value_eq_iff.mp equal) (by decide +kernel)
    · exact (Node.diff_literal_eq_nil_iff ⟨[], "maximum", [], []⟩
        (by decide) ⟨by decide, [], rfl⟩ ⟨by decide, [], rfl⟩ (by decide)).mpr merged

end SchemaEvolution
