import Mathlib
import SchemaEvolution.Pattern.BestEffort
import SchemaEvolution.Proofs.Compatibility
import SchemaEvolution.Proofs.Elements

/-! # Additions keep arrays valid

The keywords for elements are compared one by one, but they bear on each other. Where none of them
takes up what another one lets go, a release that is an addition at most keeps every value valid;
where one does, it need not.
-/

namespace SchemaEvolution

/-- No keyword of the new schema takes up elements that another one lets go. -/
structure Node.Untangled (old new : Node) : Prop where
  /-- `items` does not come to speak of positions that `prefixItems` spoke of. -/
  positions : new.effectiveItems ≠ none → old.prefixSize ≤ new.prefixSize
  /-- A match is not asked for again where none was asked for. -/
  fewest : old.minContains = some 0 → new.contains ≠ none → new.minContains ≠ none
  /-- No more elements match where their number is limited. -/
  most : new.maxContains ≠ none → ∀ a b, old.contains = some a → new.contains = some b →
    SubSchema.Like Node.Alike a b

theorem Keyword.admitsSize_of_size_le {keyword : Keyword} {size more : Nat} {limit : Json}
    (lower : keyword.bound? = some .lower) (le : size ≤ more)
    (h : keyword.admitsSize size limit = true) : keyword.admitsSize more limit = true := by
  unfold admitsSize at h ⊢
  split
  · simp only [lower, decide_eq_true_eq] at h ⊢
    omega
  · rfl

namespace Diff

variable {engine : RuleEngine} {old new : Node} {value : Json}

theorem validatesEach_of_mild {base : Path} {index : Nat} {as bs : List SubSchema}
    {elements : List Json}
    (mild : Settled engine.Mild Node.Keeps (positionFindings base .prefixItems index as bs))
    (valid : Json.validatesEach (as.map SubSchema.toJson) elements = true) :
    Json.validatesEach (bs.map SubSchema.toJson) elements = true := by
  induction bs generalizing as index elements with
  | nil => rw [List.map_nil, Json.validatesEach.eq_def]
  | cons b bs ih =>
      cases as with
      | nil =>
          exact absurd (settled_cons.mp mild).1 (RuleEngine.not_mild_memberAdded (by decide))
      | cons a as =>
          obtain ⟨first, rest⟩ := settled_append.mp mild
          cases elements with
          | nil => rw [List.map_cons, Json.validatesEach.eq_def]
          | cons e elements =>
              simp only [List.map_cons, Json.validatesEach, Bool.and_eq_true] at valid ⊢
              exact ⟨validates_of_slot (by decide) first valid.1, ih rest valid.2⟩

section Level

variable (mild : Settled engine.Mild Node.Keeps (findings old new))
  (compared : Compared old new .array)

include mild compared

theorem prefixItems_of_mild {slots : List SubSchema} (found : new.prefixItems = some slots) :
    ∃ former, old.prefixItems = some former ∧ ∀ elements,
      Json.validatesEach (former.map SubSchema.toJson) elements = true →
        Json.validatesEach (slots.map SubSchema.toJson) elements = true := by
  have told := elements_of_mild mild compared
  simp only [elementFindings, settled_append, found] at told
  replace told := told.1.2
  cases before : old.prefixItems with
  | none =>
      rw [before] at told
      exact absurd (settled_cons.mp told).1 (RuleEngine.not_mild_added rfl rfl)
  | some former =>
      rw [before] at told
      exact ⟨former, rfl, fun _ => validatesEach_of_mild told⟩

theorem contains_of_mild {sub : SubSchema} (found : new.contains = some sub) :
    ∃ former, old.contains = some former ∧
      ∀ value, former.toJson.validates value = true → sub.toJson.validates value = true := by
  have told := elements_of_mild mild compared
  simp only [elementFindings, settled_append, found] at told
  replace told := told.2
  cases before : old.contains with
  | none =>
      rw [before] at told
      exact absurd (settled_cons.mp told).1 (RuleEngine.not_mild_added rfl rfl)
  | some former =>
      rw [before] at told
      exact ⟨former, rfl, fun _ => validates_of_slot (by decide) told⟩

/-- Where more elements match, their number is admitted if that of fewer was, unless there is no
limit for it any more that let none match, or one for it still. -/
theorem admitsMatches_of_mild (ho : old.Elementwise) (hn : new.Elementwise) {count more : Nat}
    (le : count ≤ more) (fewest : old.minContains = some 0 → new.minContains ≠ none)
    (most : new.maxContains ≠ none → more ≤ count) (admits : old.AdmitsMatches count) :
    new.AdmitsMatches more where
  least := by
    intro absent
    refine le_trans ?_ le
    cases before : old.minContains with
    | none => exact admits.least before
    | some m =>
        have limit := admits.limits .minContains (by decide) (.number (.ofCount m))
          (congrArg Facets.valueOf.count before)
        have positive : m.toNat ≠ 0 := fun zero =>
          fewest (before.trans (congrArg some (UInt64.toNat_inj.mp zero))) absent
        simp only [Keyword.admitsSize, Keyword.bound?, Number.ofCount, Nat.cast_le,
          decide_eq_true_eq] at limit
        omega
  limits := by
    intro keyword listed limit found
    have count : keyword ∈ Keyword.counts := (show [Keyword.minContains, .maxContains] ⊆
      Keyword.counts by decide) listed
    have considered : Considers old new keyword := by
      intro kind _ family
      simp only [List.mem_cons, List.not_mem_nil, or_false] at listed
      rcases listed with rfl | rfl <;> cases family <;> exact compared
    obtain ⟨before, held, kept⟩ := count_of_mild mild count (ho.counts keyword count)
      (hn.counts keyword count) considered found
    have met := kept _ (admits.limits keyword listed before held)
    simp only [List.mem_cons, List.not_mem_nil, or_false] at listed
    rcases listed with rfl | rfl
    · exact Keyword.admitsSize_of_size_le rfl le met
    · have present : new.maxContains ≠ none := fun absent => by
        rw [show new.valueOf .maxContains = none from congrArg Facets.valueOf.count absent] at found
        cases found
      rwa [← le_antisymm le (most present)]

end Level

theorem validates_of_like {R : Node → Node → Prop} {a b : SubSchema} (like : SubSchema.Like R a b)
    (keeps : ∀ x y, a = .schema x → b = .schema y → R x y → x.Keeps y)
    (valid : a.toJson.validates value = true) : b.toJson.validates value = true := by
  cases like with
  | flag allowed => exact valid
  | schema inner => exact keeps _ _ rfl rfl inner value valid

/-- One level: where every change is mild, the schemas below keep what they admit, and no keyword
takes up what another one lets go, the schema keeps what it admits. Schemas below that say the same
have to keep it both ways, as the number of matches may be limited. -/
theorem admitsElements_of_mild (mild : Settled engine.Mild Node.Keeps (findings old new))
    (ho : old.Elementwise) (hn : new.Elementwise)
    (untangled : Compared old new .array → old.Untangled new)
    (back : ∀ a b : Node, a.Below old → b.Below new → a.Alike b → b.Keeps a)
    (admits : old.AdmitsElements value) : new.AdmitsElements value := by
  have compared (isArray : value.elements?.isSome = true) : Compared old new .array :=
    compared_of_admits mild admits.toAdmitsAlone
      (by cases value <;> first | rfl | cases isArray)
  have isArray {e : Json} (listed : e ∈ value.elements) : value.elements?.isSome = true := by
    cases value <;> first | rfl | simp [Json.elements, Json.elements?] at listed
  constructor
  case toAdmitsAlone =>
    exact admitsAlone_of_mild mild admits.toAdmitsAlone ho.counts hn.counts
  case prefixItems =>
    intro slots found
    cases elements : value.elements with
    | nil => rw [Json.validatesEach.eq_def]; split <;> simp_all
    | cons e rest =>
        have compared := compared (isArray (elements ▸ List.mem_cons_self))
        obtain ⟨former, before, kept⟩ := prefixItems_of_mild mild compared found
        exact elements ▸ kept _ (admits.prefixItems former before)
  case items =>
    intro sub found e listed
    by_cases full : sub = .flag true
    · rw [full, SubSchema.toJson, Json.validates]
    have after : new.effectiveItems = some (.single sub) :=
      effective_eq_some_iff.mpr ⟨found, fun same => full (Items.single.inj same)⟩
    have compared := compared (isArray (List.mem_of_mem_drop listed))
    obtain ⟨former, before, kept⟩ := items_of_mild mild compared ho.items after
    have le := (untangled compared).positions (after ▸ Option.some_ne_none _)
    exact kept e (admits.items former before e ((List.drop_sublist_drop_left _ le).subset listed))
  case contains =>
    intro sub found array
    have compared := compared array
    have free := untangled compared
    obtain ⟨former, before, kept⟩ := contains_of_mild mild compared found
    refine admitsMatches_of_mild mild compared ho hn (List.countP_mono_left fun e _ => kept e)
      (fun zero => free.fewest zero (found ▸ Option.some_ne_none _)) (fun limited => ?_)
      (admits.contains former before array)
    have alike := (free.most limited former sub before found).flip
    refine List.countP_mono_left fun e _ => validates_of_like alike fun x y hx hy => ?_
    subst hx hy
    exact back y x (Node.mem_subSchemas_of_contains before) (Node.mem_subSchemas_of_contains found)

theorem keeps_of_level (ho : old.Accepted) (hn : new.Accepted)
    (po : old.source.Everywhere Json.IsElementwise) (pn : new.source.Everywhere Json.IsElementwise)
    (mild : Settled engine.Mild Node.Keeps (findings old new))
    (untangled : Compared old new .array → old.Untangled new)
    (back : ∀ a b : Node, a.Below old → b.Below new → a.Alike b → b.Keeps a) : old.Keeps new := by
  obtain ⟨before, readOld⟩ := Node.ReadFrom.of_accepted ho
  obtain ⟨after, readNew⟩ := Node.ReadFrom.of_accepted hn
  rw [readOld.source] at po
  rw [readNew.source] at pn
  have elementwiseOld := po before (.here _)
  have elementwiseNew := pn after (.here _)
  intro value valid
  rw [readOld.source, readOld.validates_iff_admitsElements elementwiseOld] at valid
  rw [readNew.source, readNew.validates_iff_admitsElements elementwiseNew]
  exact admitsElements_of_mild mild (readOld.elementwise elementwiseOld)
    (readNew.elementwise elementwiseNew) untangled back valid

theorem untangled_of_alike (alike : old.Alike new) (compared : Compared old new .array) :
    old.Untangled new := by
  have like := Node.alike_iff.mp alike
  have constrained : old.constrains .array = true := by
    have same := Facets.constrains_congr like.shared .array
    rcases compared.constrained with h | h
    · exact h
    · rw [same, h]
  constructor
  case positions =>
    have same := like.prefixItems constrained
    intro _
    rw [Node.prefixSize, Node.prefixSize]
    generalize old.prefixItems = former at same ⊢
    generalize new.prefixItems = latter at same ⊢
    cases same with
    | none => exact le_rfl
    | some each => exact each.length_eq.le
  case fewest =>
    intro zero _ absent
    have agree := like.array constrained .minContains (by decide)
    rw [show old.valueOf .minContains = _ from congrArg Facets.valueOf.count zero,
      show new.valueOf .minContains = _ from congrArg Facets.valueOf.count absent] at agree
    cases agree
  case most =>
    intro _ a b ha hb
    have same := like.contains constrained
    rw [ha, hb] at same
    exact Option.rel_some_some.mp same

theorem keeps_of_alike (ho : old.Accepted) (hn : new.Accepted)
    (po : old.source.Everywhere Json.IsElementwise) (pn : new.source.Everywhere Json.IsElementwise)
    (alike : old.Alike new) : old.Keeps new ∧ new.Keeps old := by
  induction old using Node.rec_strong generalizing new with
  | step old ih =>
      have below (a b : Node) (ha : a.Below old) (hb : b.Below new) (alike : a.Alike b) :=
        ih a ha (ho.below ha) (hn.below hb) (ho.everywhere_below ha po)
          (hn.everywhere_below hb pn) alike
      have like : Node.Like (fun a b => a.Keeps b ∧ b.Keeps a) old new :=
        (Node.alike_iff.mp alike).imp fun a b ha hb => below a b ha hb
      constructor
      · have silent := (silent_findings ho hn).mpr like
        refine @keeps_of_level { patterns := fun _ _ => none } old new ho hn po pn
          (silent.imp (fun _ none => none.elim) fun a b both => both.1)
          (untangled_of_alike alike) fun a b ha hb alike => (below a b ha hb alike).2
      · have silent := (silent_findings hn ho).mpr (like.flip ho.regular hn.regular)
        have alike := alike.symm ho hn
        refine @keeps_of_level { patterns := fun _ _ => none } new old hn ho pn po
          (silent.imp (fun _ none => none.elim) fun a b both => both.2)
          (untangled_of_alike alike) fun b a hb ha alike => ?_
        exact (below a b ha hb (alike.symm (hn.below hb) (ho.below ha))).1

/-- Where every change is mild and no keyword takes up what another one lets go, the new schema
keeps what the old one admits, all the way down. -/
theorem keeps_of_untangled (ho : old.Accepted) (hn : new.Accepted)
    (po : old.source.Everywhere Json.IsElementwise) (pn : new.source.Everywhere Json.IsElementwise)
    (untangled : ∀ path x y, Visits old new path x y → Compared x y .array → x.Untangled y)
    (mild : ∀ change ∈ old.diff new, engine.Mild change) : old.Keeps new := by
  induction old, new using joint_induction with
  | step old new ih =>
      refine @keeps_of_level engine old new ho hn po pn ?_ (untangled [] old new (.here old new)) ?_
      · intro finding found
        have fits := (forall_diff_iff RuleEngine.mild_under).mp mild finding found
        cases finding with
        | change told => exact fits
        | descent steps a b =>
            have descends := descends_of_mem_findings found
            obtain ⟨ha, hb⟩ := descends.below
            refine ih steps a b found (ho.below ha) (hn.below hb) (ho.everywhere_below ha po)
              (hn.everywhere_below hb pn) (fun path x y visits => ?_) fits
            exact untangled (steps ++ path) x y (.further descends visits)
      · intro a b ha hb alike
        exact (keeps_of_alike (ho.below ha) (hn.below hb) (ho.everywhere_below ha po)
          (hn.everywhere_below hb pn) alike).2

end Diff

/-- Between documents that speak of arrays, a release that is an addition at most keeps every value
valid, whatever the version, where at no two schemas that are compared a keyword takes up elements
that another one lets go. -/
theorem validates_of_compare_arrays {engine : RuleEngine} {old new : Json} {before after : Node}
    {current : Version} {release : Release} (ho : old.Distinct) (hn : new.Distinct)
    (po : old.Everywhere Json.IsElementwise) (pn : new.Everywhere Json.IsElementwise)
    (decodedOld : Node.decode old = .ok before) (decodedNew : Node.decode new = .ok after)
    (untangled : ∀ path x y, Diff.Visits before after path x y → Diff.Compared x y .array →
      x.Untangled y)
    (compared : Release.compare engine old new current = .ok release)
    (mild : release.severity = .none ∨ release.severity = .addition) (value : Json)
    (valid : old.validates value = true) : new.validates value = true := by
  obtain ⟨former, latter, denotedOld, denotedNew, mild⟩ := Release.mild_of_compare compared mild
  cases denotedOld.symm.trans decodedOld
  cases denotedNew.symm.trans decodedNew
  have acceptedOld := Node.accepted_of_decode ho decodedOld
  have acceptedNew := Node.accepted_of_decode hn decodedNew
  have sourceOld := Node.source_of_decode decodedOld
  have sourceNew := Node.source_of_decode decodedNew
  subst sourceOld sourceNew
  exact Diff.keeps_of_untangled acceptedOld acceptedNew po pn untangled mild value valid

def tagged (limit : UInt64) (rest : Bool) : Json :=
  .object [("prefixItems", .array [.object [("type", .string "string")]]), ("items", .bool rest),
    ("contains", .bool true), ("maxItems", .number (.ofCount limit))]

theorem everywhere_tagged {limit : UInt64} {rest : Bool}
    (small : (Json.number (.ofCount limit)).isSmall = true) :
    (tagged limit rest).Everywhere Json.IsElementwise := by
  have none : ∀ inner ∈ ([] : List Json), inner.Everywhere Json.IsElementwise :=
    List.forall_mem_nil _
  have flag (allowed : Bool) : ∀ inner ∈ [Json.bool allowed], inner.Everywhere Json.IsElementwise :=
    List.forall_mem_singleton.mpr (Json.everywhere_bool allowed)
  refine Json.everywhere_object_iff.mpr ⟨?here, List.forall_mem_cons.mpr ⟨?first,
    List.forall_mem_cons.mpr ⟨flag rest, List.forall_mem_cons.mpr ⟨flag true,
      List.forall_mem_singleton.mpr none⟩⟩⟩⟩
  case here =>
    exact List.forall_mem_cons.mpr ⟨rfl, List.forall_mem_cons.mpr ⟨rfl,
      List.forall_mem_cons.mpr ⟨rfl, List.forall_mem_singleton.mpr small⟩⟩⟩
  case first =>
    refine List.forall_mem_singleton.mpr (Json.everywhere_object_iff.mpr ⟨by decide, ?_⟩)
    exact List.forall_mem_singleton.mpr none

/-- Something may follow where nothing could: the arrays that were valid stay so. -/
theorem validates_of_compare_arrays_tagged :
    ∃ release, Release.compare { patterns := Pattern.bestEffort } (tagged 1 false) (tagged 3 true)
        ⟨1, 0, 0⟩ = .ok release ∧
      release.severity = .addition ∧ (tagged 3 true).validates (.array [.string "a"]) = true := by
  have outcome : ((Release.compare { patterns := Pattern.bestEffort } (tagged 1 false)
      (tagged 3 true) ⟨1, 0, 0⟩).toOption.any fun release =>
        release.severity == .addition) = true := by
    decide +kernel
  obtain ⟨release, compared, severity⟩ := Release.exists_of_severity outcome
  refine ⟨release, compared, severity, ?_⟩
  refine validates_of_compare_arrays ?_ ?_ (everywhere_tagged (by decide))
    (everywhere_tagged (by decide)) rfl rfl ?untangled compared (.inr severity) _ ?valid
  case untangled =>
    rintro path x y visits _
    rcases Diff.visits_iff.mp visits with ⟨_, rfl, rfl⟩ | ⟨_, _, a, b, _, step, further⟩
    · exact ⟨fun _ => le_rfl, fun zero => (nomatch zero), fun limited => absurd rfl limited⟩
    · -- The only schema further down is that of the first position, with none below it.
      rcases Node.mem_subSchemas_iff.mp step.below.2 with
        ⟨_, ⟨⟩, below⟩ | ⟨_, ⟨⟩, below⟩ | ⟨⟨⟩⟩ | ⟨_, ⟨⟩, _⟩ | ⟨⟨⟩⟩
      · cases List.mem_singleton.mp below
      · cases List.mem_singleton.mp below
        rcases Diff.visits_iff.mp further with ⟨_, rfl, rfl⟩ | ⟨_, _, _, _, _, step, _⟩
        · exact ⟨fun limited => absurd rfl limited, fun _ present => absurd rfl present,
            fun limited => absurd rfl limited⟩
        · rcases Node.mem_subSchemas_iff.mp step.below.2 with
            ⟨_, ⟨⟩, _⟩ | ⟨_, ⟨⟩, _⟩ | ⟨⟨⟩⟩ | ⟨_, ⟨⟩, _⟩ | ⟨⟨⟩⟩
  case valid => decide +kernel
  all_goals decide

/-- A release that is an addition, with a value that is valid before and not after. -/
def Release.Loses (old new value : Json) : Prop :=
  ∃ release, compare { patterns := Pattern.bestEffort } old new ⟨1, 0, 0⟩ = .ok release ∧
    release.severity = .addition ∧ old.validates value = true ∧ new.validates value = false

theorem Release.loses_of_test {old new value : Json}
    (outcome : ((compare { patterns := Pattern.bestEffort } old new ⟨1, 0, 0⟩).toOption.any
      fun release => release.severity == .addition) = true)
    (before : old.validates value = true) (after : new.validates value = false) :
    Loses old new value := by
  obtain ⟨release, compared, severity⟩ := exists_of_severity outcome
  exact ⟨release, compared, severity, before, after⟩

/-- Each of the three conditions is needed: `items` comes to speak of a position that `prefixItems`
spoke of, a match is asked for again, and more elements match where none may. -/
theorem addition_of_tangled :
    Release.Loses (.object [("prefixItems", .array [.bool true]), ("items", .bool false)])
      (.object [("items", .bool false)]) (.array [.null]) ∧
    Release.Loses (.object [("contains", .bool true), ("minContains", .number (.ofCount 0))])
      (.object [("contains", .bool true)]) (.array []) ∧
    Release.Loses
      (.object [("contains", .bool false), ("minContains", .number (.ofCount 0)),
        ("maxContains", .number (.ofCount 0))])
      (.object [("contains", .bool true), ("minContains", .number (.ofCount 0)),
        ("maxContains", .number (.ofCount 0))]) (.array [.null]) := by
  refine ⟨Release.loses_of_test ?_ ?_ ?_, Release.loses_of_test ?_ ?_ ?_,
    Release.loses_of_test ?_ ?_ ?_⟩
  all_goals decide +kernel

end SchemaEvolution
