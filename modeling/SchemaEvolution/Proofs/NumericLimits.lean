import Mathlib
import SchemaEvolution.Pattern.BestEffort
import SchemaEvolution.Proofs.Compatibility
import SchemaEvolution.Proofs.Rounding
import SchemaEvolution.Proofs.Values

/-! # Additions keep numbers accepted

What the types and the numeric keywords of a document ask of a number, in exact arithmetic, and what
a release that is an addition at most leaves of it.

The table takes a new divisor that is a multiple of the old one for a looser one, and limits are
compared in double precision. So numbers stay accepted where a divisor on both sides is the same and
limits are the same wherever their doubles are; elsewhere they need not.
-/

namespace SchemaEvolution

/-- Whether the type describes the number. -/
def InstanceType.includes : InstanceType → ℚ → Bool
  | .number, _ => true
  | .integer, x => x.isInt
  | _, _ => false

/-- The number is a whole multiple of the divisor. -/
def Number.Divides (divisor : Number) (x : ℚ) : Prop := ∃ factor : ℤ, x = factor * divisor.value

theorem Number.divides_iff {divisor : Number} {x : ℚ} :
    divisor.Divides x ↔ if divisor.value = 0 then x = 0 else (x / divisor.value).isInt = true := by
  unfold Divides
  split_ifs with zero
  · simp [zero]
  · rw [Rat.isInt, beq_iff_eq]
    constructor
    · rintro ⟨factor, rfl⟩
      rw [mul_div_cancel_right₀ _ zero]
      exact Rat.den_intCast factor
    · intro whole
      refine ⟨(x / divisor.value).num, ?_⟩
      rw [Rat.coe_int_num_of_den_eq_one whole, div_mul_cancel₀ _ zero]

instance (divisor : Number) (x : ℚ) : Decidable (divisor.Divides x) :=
  decidable_of_iff _ Number.divides_iff.symm

namespace Bound

/-- The keyword for a limit that may be reached. -/
def inclusive : Bound → Keyword
  | .upper => .maximum
  | .lower => .minimum

/-- The keyword for a limit that may not be reached, or for the flag that forbids to reach the
other limit. -/
def exclusive : Bound → Keyword
  | .upper => .exclusiveMaximum
  | .lower => .exclusiveMinimum

/-- Whether a number is on the right side of a limit, or at it unless that is forbidden. -/
def admits (strict : Bool) (limit x : ℚ) : Bound → Bool
  | .upper => if strict then x < limit else x ≤ limit
  | .lower => if strict then limit < x else limit ≤ x

section Admits

variable {bound : Bound} {strict also : Bool} {limit inner x : ℚ}

theorem admits_of_le (h : also = true → strict = true) (held : bound.admits strict limit x = true) :
    bound.admits also limit x = true := by
  cases bound <;> cases strict <;> cases also <;> simp_all [admits, le_of_lt]

theorem admits_trans (outer : bound.admits false limit inner = true)
    (held : bound.admits strict inner x = true) : bound.admits strict limit x = true := by
  cases bound <;> cases strict <;> simp only [admits, Bool.false_eq_true, if_true, if_false,
    decide_eq_true_eq] at outer held ⊢
  · exact held.trans outer
  · exact held.trans_le outer
  · exact outer.trans held
  · exact outer.trans_lt held

theorem admits_self : bound.admits false limit limit = true := by
  cases bound <;> simp [admits]

theorem admits_of_recedes {m n : Number} (recedes : bound.Recedes m n) :
    bound.admits false n.value m.value = true := by
  cases bound
  all_goals exact decide_eq_true (Number.value_lt_of_signedUnits_lt recedes).le

end Admits

end Bound

def Bound.isStrict (siblings : List (String × Json)) (bound : Bound) : Bool :=
  match NameTable.get? bound.exclusive.name siblings with
  | some (.bool strict) => strict
  | _ => false

/-- Whether a number meets a keyword for types or numbers. Any other keyword lets it pass. -/
def Keyword.accepts (siblings : List (String × Json)) (x : ℚ) : Keyword → Json → Bool
  | .type, argument => argument.names.any fun name => (InstanceType.ofName? name).any (·.includes x)
  | .maximum, .number limit => Bound.upper.admits (Bound.upper.isStrict siblings) limit.value x
  | .minimum, .number limit => Bound.lower.admits (Bound.lower.isStrict siblings) limit.value x
  | .exclusiveMaximum, .number limit => Bound.upper.admits true limit.value x
  | .exclusiveMinimum, .number limit => Bound.lower.admits true limit.value x
  | .multipleOf, .number divisor => decide (divisor.Divides x)
  | _, _ => true

def Json.accepts : Json → ℚ → Bool
  | .object members, x =>
    members.all fun member => (Keyword.ofName member.1).accepts members x member.2
  | _, _ => false

theorem Json.accepts_iff {members : List (String × Json)}
    (distinct : (NameTable.names members).Nodup) {x : ℚ} :
    (Json.object members).accepts x = true ↔
      ∀ keyword : Keyword, Keyword.ofName keyword.name = keyword → ∀ argument,
        NameTable.get? keyword.name members = some argument →
          keyword.accepts members x argument = true := by
  rw [accepts, List.all_eq_true]
  constructor
  · intro h keyword named argument found
    have here := h _ (NameTable.mem_of_get? found)
    rwa [named] at here
  · rintro h ⟨key, argument⟩ listed
    have name := Keyword.name_ofName key
    refine h (Keyword.ofName key) (congrArg Keyword.ofName name) argument ?_
    rw [name]
    exact (NameTable.get?_eq_some_iff distinct).mpr listed

namespace Keyword

theorem argument_of_numeric {keyword : Keyword} (numeric : keyword ∈ numericScalars)
    {argument : Option Json} {value : Json} (h : keyword.compared argument = some value) :
    argument = some value := by
  simp only [numericScalars, List.mem_cons, List.not_mem_nil, or_false] at numeric
  rcases numeric with rfl | rfl | rfl | rfl | rfl
  case inr.inl | inr.inr.inr.inl =>
    unfold compared at h
    split at h <;> simp_all
  all_goals exact h

theorem numeric_of_side {bound : Bound} {keyword : Keyword}
    (side : keyword = bound.inclusive ∨ keyword = bound.exclusive) :
    keyword ∈ numericScalars ∧ keyword.bound? = some bound := by
  rcases side with rfl | rfl <;> cases bound <;> decide

end Keyword

namespace Diff

variable {engine : RuleEngine} {old new : Node} {before after : List (String × Json)}
  {R : Node → Node → Prop} (readOld : old.ReadFrom before) (readNew : new.ReadFrom after)
  (mild : Settled engine.Mild R (findings old new))

section Keywords

variable (compared : Compared old new .numeric)

include readOld readNew mild compared

/-- A numeric keyword was there before, and its argument is the same or moved mildly. -/
theorem numeric_of_mild {keyword : Keyword} (numeric : keyword ∈ Keyword.numericScalars)
    {argument : Json} (found : NameTable.get? keyword.name after = some argument)
    (told : keyword.compared (some argument) = some argument) :
    ∃ former, NameTable.get? keyword.name before = some former ∧
      (former.equivalent argument = true ∨ engine.Mild (.modified [] keyword former argument)) := by
  obtain ⟨scalar, recognized, constrains, ne, family⟩ :
      keyword ∉ Keyword.compound ∧ keyword.isRecognized = true ∧ keyword.isMetadata = false ∧
        keyword ≠ .type ∧ keyword.family? = some .numeric :=
    (show ∀ keyword ∈ Keyword.numericScalars, keyword ∉ Keyword.compound ∧
      keyword.isRecognized = true ∧ keyword.isMetadata = false ∧ keyword ≠ .type ∧
        keyword.family? = some .numeric by decide) keyword numeric
  have named := Keyword.ofName_name recognized
  have considered : Considers old new keyword := by
    intro kind _ same
    cases family.symm.trans same
    exact compared
  have value : new.valueOf keyword = some argument := by
    rw [readNew.valueOf named ne, found, told]
  obtain ⟨former, held, moved⟩ := value_of_mild mild ((Keyword.isScalar_iff keyword).mpr scalar)
    recognized constrains considered value
  rw [readOld.valueOf named ne] at held
  exact ⟨former, Keyword.argument_of_numeric numeric held, moved⟩

theorem limit_of_mild {bound : Bound} {keyword : Keyword}
    (side : keyword = bound.inclusive ∨ keyword = bound.exclusive) {n : Number}
    (found : NameTable.get? keyword.name after = some (.number n))
    (exact : ∀ m, NameTable.get? keyword.name before = some (.number m) →
      m.signedUnits = n.signedUnits → m.value = n.value) :
    ∃ m, NameTable.get? keyword.name before = some (.number m) ∧
      bound.admits false n.value m.value = true := by
  obtain ⟨numeric, bounds⟩ := Keyword.numeric_of_side side
  have told : keyword.compared (some (.number n)) = some (.number n) := by
    rcases side with rfl | rfl <;> cases bound <;> rfl
  obtain ⟨former, held, same | moved⟩ := numeric_of_mild readOld readNew mild compared numeric found
    told
  · cases former with
    | number m =>
        refine ⟨m, held, ?_⟩
        rw [exact m held (by simpa [Json.equivalent] using same)]
        exact Bound.admits_self
    | _ => simp [Json.equivalent, Json.same] at same
  · obtain ⟨m, _, rfl, ⟨⟩, recedes⟩ | ⟨⟨⟩⟩ := RuleEngine.bound_of_mild bounds moved
    exact ⟨m, held, Bound.admits_of_recedes recedes⟩

/-- A limit that may not be reached could not be reached before. -/
theorem isStrict_of_mild {bound : Bound} (strict : bound.isStrict after = true) :
    bound.isStrict before = true := by
  have found : NameTable.get? bound.exclusive.name after = some (.bool true) := by
    unfold Bound.isStrict at strict
    split at strict
    · rename_i found
      rw [found, strict]
    · cases strict
  obtain ⟨numeric, bounds⟩ := Keyword.numeric_of_side (.inr rfl : bound.exclusive = _ ∨ _)
  have told : bound.exclusive.compared (some (.bool true)) = some (.bool true) := by
    cases bound <;> rfl
  obtain ⟨former, held, same | moved⟩ := numeric_of_mild readOld readNew mild compared numeric found
    told
  · cases former with
    | bool flag =>
        rw [Bound.isStrict, held]
        simpa [Json.equivalent, Json.same] using same
    | _ => simp [Json.equivalent, Json.same] at same
  · obtain ⟨_, _, _, ⟨⟩, _⟩ | ⟨⟨⟩⟩ := RuleEngine.bound_of_mild bounds moved

end Keywords

include readOld readNew mild

/-- One level: a number that meets the old keywords meets the new ones. -/
theorem accepts_of_mild
    (exact : ∀ keyword ∈ Keyword.numericScalars, ∀ m n,
      NameTable.get? keyword.name before = some (.number m) →
      NameTable.get? keyword.name after = some (.number n) →
        m.signedUnits = n.signedUnits ∨ keyword = .multipleOf → m.value = n.value)
    {x : ℚ} (accepted : (Json.object before).accepts x = true) :
    (Json.object after).accepts x = true := by
  rw [Json.accepts_iff readOld.distinct.names] at accepted
  rw [Json.accepts_iff readNew.distinct.names]
  have typed : ∀ types, old.types = some types → ∃ type ∈ types, type.includes x = true :=
    (readOld.any_types_iff (·.includes x)).mp (accepted .type rfl)
  have compared : Compared old new .numeric := by
    refine compared_of_types mild fun types found => ?_
    obtain ⟨type, listed, included⟩ := typed types found
    exact ⟨type, listed, by cases type <;> first | rfl | cases included⟩
  -- A limit on either side of either kind.
  have limited {bound : Bound} {keyword : Keyword}
      (side : keyword = bound.inclusive ∨ keyword = bound.exclusive) {n : Number}
      (found : NameTable.get? keyword.name after = some (.number n)) :=
    limit_of_mild readOld readNew mild compared side found fun m held same =>
      exact keyword (Keyword.numeric_of_side side).1 m n held found (.inl same)
  have reached (bound : Bound) {n : Number}
      (found : NameTable.get? bound.inclusive.name after = some (.number n)) :
      bound.admits (bound.isStrict after) n.value x = true := by
    obtain ⟨m, held, outer⟩ := limited (.inl rfl) found
    refine bound.admits_of_le (isStrict_of_mild readOld readNew mild compared) ?_
    refine bound.admits_trans outer ?_
    cases bound
    · exact accepted .maximum rfl _ held
    · exact accepted .minimum rfl _ held
  have passed (bound : Bound) {n : Number}
      (found : NameTable.get? bound.exclusive.name after = some (.number n)) :
      bound.admits true n.value x = true := by
    obtain ⟨m, held, outer⟩ := limited (.inr rfl) found
    refine bound.admits_trans outer ?_
    cases bound
    · exact accepted .exclusiveMaximum rfl _ held
    · exact accepted .exclusiveMinimum rfl _ held
  intro keyword named argument found
  unfold Keyword.accepts
  split
  · refine (readNew.any_types_iff (·.includes x)).mpr (fun types declared => ?_) argument found
    rcases types_of_mild mild with absent | same
    · cases absent.symm.trans declared
    · exact typed types (same.trans declared)
  · exact reached .upper found
  · exact reached .lower found
  · exact passed .upper found
  · exact passed .lower found
  · rename_i divisor
    obtain ⟨former, held, _⟩ := numeric_of_mild readOld readNew mild compared (by decide) found rfl
    have value : old.valueOf .multipleOf = some former := by
      rw [readOld.valueOf rfl (by decide), held]
      rfl
    obtain ⟨m, _, rfl⟩ := Option.map_eq_some_iff.mp value
    have kept : m.Divides x := of_decide_eq_true (accepted .multipleOf rfl _ held)
    rw [Number.Divides, exact .multipleOf (by decide) m divisor held found (.inr rfl)] at kept
    exact decide_eq_true kept
  · rfl

end Diff

/-- A release that is an addition at most keeps every number accepted, whatever the version, where
limits that are the same as doubles are the same, and where a divisor that both documents have is
the same. -/
theorem accepts_of_compare {engine : RuleEngine} {old new : Json} {current : Version}
    {release : Release} (ho : old.Distinct) (hn : new.Distinct)
    (limits : ∀ keyword ∈ Keyword.numericScalars, ∀ m n,
      old.member? keyword.name = some (.number m) → new.member? keyword.name = some (.number n) →
        m.signedUnits = n.signedUnits → m.value = n.value)
    (divisors : ∀ m n, old.member? "multipleOf" = some (.number m) →
      new.member? "multipleOf" = some (.number n) → m.value = n.value)
    (compared : Release.compare engine old new current = .ok release)
    (mild : release.severity = .none ∨ release.severity = .addition) (x : ℚ)
    (accepted : old.accepts x = true) : new.accepts x = true := by
  obtain ⟨before, after, decodedOld, decodedNew, mild⟩ := Release.mild_of_compare compared mild
  obtain ⟨former, readOld⟩ := Node.ReadFrom.of_accepted (Node.accepted_of_decode ho decodedOld)
  obtain ⟨latter, readNew⟩ := Node.ReadFrom.of_accepted (Node.accepted_of_decode hn decodedNew)
  obtain rfl := (Node.source_of_decode decodedOld).symm.trans readOld.source
  obtain rfl := (Node.source_of_decode decodedNew).symm.trans readNew.source
  refine Diff.accepts_of_mild readOld readNew
    ((Diff.forall_diff_iff RuleEngine.mild_under).mp mild) ?_ accepted
  rintro keyword numeric m n held found (same | rfl)
  · exact limits keyword numeric m n held found same
  · exact divisors m n held found

def evenUpTo (limit : UInt64) (others : List (String × Json)) : Json :=
  .object ([("type", .string "integer"), ("maximum", .number (.ofCount limit)),
    ("multipleOf", .number (.ofCount 2))] ++ others)

/-- A limit may be raised, and reached. -/
theorem accepts_of_compare_even :
    ∃ release, Release.compare { patterns := Pattern.bestEffort }
        (evenUpTo 10 [("exclusiveMaximum", .bool true)]) (evenUpTo 12 []) ⟨1, 0, 0⟩ = .ok release ∧
      release.severity = .addition ∧ (evenUpTo 12 []).accepts 8 = true := by
  have outcome : ((Release.compare { patterns := Pattern.bestEffort }
      (evenUpTo 10 [("exclusiveMaximum", .bool true)]) (evenUpTo 12 [])
      ⟨1, 0, 0⟩).toOption.any fun release => release.severity == .addition) = true := by
    decide +kernel
  obtain ⟨release, compared, severity⟩ := Release.exists_of_severity outcome
  refine ⟨release, compared, severity, ?_⟩
  refine accepts_of_compare ?_ ?_ ?limits ?divisors compared (.inr severity) 8 ?accepted
  case limits =>
    intro keyword numeric m n held found same
    simp only [Keyword.numericScalars, List.mem_cons, List.not_mem_nil, or_false] at numeric
    rcases numeric with rfl | rfl | rfl | rfl | rfl <;> cases held <;> cases found
    · exact absurd same (by decide +kernel)
    · rfl
  case divisors =>
    rintro _ _ ⟨⟩ ⟨⟩
    rfl
  case accepted => decide +kernel
  all_goals decide

/-- Both conditions are needed. A divisor may become twice as great, and then the old divisor itself
is not accepted any more; and a limit may go down where doubles do not tell, which is no change. -/
theorem addition_of_multiple :
    (∃ release, Release.compare { patterns := Pattern.bestEffort }
        (.object [("multipleOf", .number (.ofCount 2))])
        (.object [("multipleOf", .number (.ofCount 4))]) ⟨1, 0, 0⟩ = .ok release ∧
      release.severity = .addition ∧
      (Json.object [("multipleOf", .number (.ofCount 2))]).accepts 2 = true ∧
      (Json.object [("multipleOf", .number (.ofCount 4))]).accepts 2 = false) ∧
    ∃ release, Release.compare { patterns := Pattern.bestEffort }
        (.object [("maximum", .number (.ofCount 9007199254740993))])
        (.object [("maximum", .number (.ofCount 9007199254740992))]) ⟨1, 0, 0⟩ = .ok release ∧
      release.severity = .none ∧
      (Json.object [("maximum", .number (.ofCount 9007199254740993))]).accepts
        9007199254740993 = true ∧
      (Json.object [("maximum", .number (.ofCount 9007199254740992))]).accepts
        9007199254740993 = false := by
  have doubled : ((Release.compare { patterns := Pattern.bestEffort }
      (.object [("multipleOf", .number (.ofCount 2))])
      (.object [("multipleOf", .number (.ofCount 4))]) ⟨1, 0, 0⟩).toOption.any fun release =>
        release.severity == .addition) = true := by
    decide +kernel
  have lowered : ((Release.compare { patterns := Pattern.bestEffort }
      (.object [("maximum", .number (.ofCount 9007199254740993))])
      (.object [("maximum", .number (.ofCount 9007199254740992))])
      ⟨1, 0, 0⟩).toOption.any fun release => release.severity == .none) = true := by
    decide +kernel
  obtain ⟨first, compared, severity⟩ := Release.exists_of_severity doubled
  obtain ⟨second, compared', severity'⟩ := Release.exists_of_severity lowered
  refine ⟨⟨first, compared, severity, ?_, ?_⟩, ⟨second, compared', severity', ?_, ?_⟩⟩
  all_goals decide +kernel

end SchemaEvolution
